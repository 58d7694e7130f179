import Reti.Net
import Reti.Lib.CString
import Reti.Lib.RequestReply

/-!
# Reti.SqrUdp.Conversation

The server of `quadrati` that a person answers for (`sqr_udp_server.c`), and its clients
(`sqr_udp_client.c`).  A client sends a line that is typed, waits and prints what comes; the
server prints what it receives and sends a line that is typed at its own terminal, until it
is sent `close`.

The two programs have arrays of different sizes: a line that is typed at the server can be
longer than what a client receives.
-/

namespace Reti.SqrUdp

open CStr Transducer RequestReply

/-- `BUFSIZ` of the GNU C library. -/
def bufsiz : Nat := 8192

def maxline : Nat := 1024

def closeCmd : List UInt8 := ascii "close\n"

/-- The string in a cleared array after `fgets`, which leaves it alone at the end of the
stream. -/
def typed (line : Option (List UInt8)) : List UInt8 := cstr (line.getD [])

/-! ## the client -/

/-- What is printed of a datagram: `recvline` is cleared and received into, with a NUL behind
what has been received. -/
def printed (reply : List UInt8) : List UInt8 :=
  let received := reply.take maxline
  (((Buf.zero (maxline + 1)).fill received).store received.length 0).text

/-! ## the server -/

/-- The string in `readLine` after `recvfrom`, if there is room for the NUL. -/
def question (datagram : List UInt8) : Option (List UInt8) :=
  let received := datagram.take bufsiz
  (((Buf.zero bufsiz).fill received).storeAt received.length 0).map Buf.text

/-- One turn of the server while it is running: `answer` is what `fgets` returns in it. -/
def serve (running : Bool) (answer : Option (List UInt8)) (_client : SockaddrIn)
    (line : Option (List UInt8)) : Bool × Option (List UInt8) :=
  if running then
    match question (typed line) with
    | some text => if text = closeCmd then (false, none) else (true, some (typed answer))
    | none => (false, none)
  else (false, none)

/-! ## lines and datagrams -/

/-- A line that a client reads, or the end of its input. -/
def Line (line : Option (List UInt8)) : Prop := ∀ l ∈ line, FgetsItem maxline l

instance (line : Option (List UInt8)) : Decidable (Line line) :=
  inferInstanceAs (Decidable (∀ l ∈ line, FgetsItem maxline l))

/-- What happens at the clients. -/
abbrev Event := RequestReply.Event SockaddrIn (Option (List UInt8)) (Option (List UInt8))

def Typed : Event → Prop
  | .ask _ line => Line line
  | _ => True

instance : (e : Event) → Decidable (Typed e)
  | .ask _ line => inferInstanceAs (Decidable (Line line))
  | .serve _ _ => inferInstanceAs (Decidable True)
  | .deliver _ => inferInstanceAs (Decidable True)
  | .loseRequest _ => inferInstanceAs (Decidable True)
  | .loseReply _ => inferInstanceAs (Decidable True)

theorem zero_not_mem_typed (line : Option (List UInt8)) : 0 ∉ typed line := zero_not_mem_cstr _

theorem length_typed_lt {line : Option (List UInt8)} (h : Line line) :
    (typed line).length < maxline := by
  cases line with
  | none => decide
  | some l => exact Nat.lt_of_le_of_lt (length_cstr_le l) ((h l rfl).length_lt (by decide))

/-- The server has room for every line. -/
theorem question_typed {line : Option (List UInt8)} (h : Line line) :
    question (typed line) = some (typed line) := by
  have hlt : (typed line).length < bufsiz := Nat.lt_trans (length_typed_lt h) (by decide)
  have htake : (typed line).take bufsiz = typed line := List.take_of_length_le hlt.le
  rw [question, htake, Buf.storeAt, if_pos hlt, Option.map_some, Buf.text_fill_store _ hlt,
    cstr_of_not_mem (zero_not_mem_typed line)]

/-- A client prints the first bytes of an answer. -/
theorem printed_typed (answer : Option (List UInt8)) :
    printed (typed answer) = (typed answer).take maxline := by
  have hlt : ((typed answer).take maxline).length < maxline + 1 := by
    rw [List.length_take]
    omega
  have hnul : 0 ∉ (typed answer).take maxline := fun h =>
    zero_not_mem_typed answer (List.mem_of_mem_take h)
  rw [printed, Buf.text_fill_store _ hlt, cstr_of_not_mem hnul]

/-- What an answer says about the turn. -/
theorem serve_eq_some {running : Bool} {answer line : Option (List UInt8)} {client : SockaddrIn}
    {reply : List UInt8} (h : (serve running answer client line).2 = some reply) :
    reply = typed answer := by
  unfold serve at h
  split at h
  · split at h
    · split at h
      · cases h
      · exact (Option.some.inj h).symm
    · cases h
  · cases h

theorem serve_closed (answer : Option (List UInt8)) (client : SockaddrIn)
    (line : Option (List UInt8)) : serve false answer client line = (false, none) := rfl

theorem serve_close {line : Option (List UInt8)} (hline : Line line)
    (hclose : typed line = closeCmd) (running : Bool) (answer : Option (List UInt8))
    (client : SockaddrIn) :
    serve running answer client line = (false, none) := by
  cases running with
  | false => rfl
  | true => rw [serve, if_pos rfl, question_typed hline]; exact if_pos hclose

/-! ## the conversation -/

/-- All that happens when the server starts and the clients are used. -/
def logOf (es : List Event) :
    List (Log SockaddrIn (Option (List UInt8)) (Option (List UInt8)) (List UInt8)) :=
  (run (step serve) (.init true) es).2

theorem alone_logOf (es : List Event) :
    Alone serve true (run (step serve) (.init true) es).1 (logOf es) := alone_run serve true es

/-- Each answer that a client prints is the beginning of the line that was typed at the server
when it showed this client's line of the same number, whatever the order in which the
clients are served and the datagrams arrive.  After `close`, nobody is answered. -/
theorem conversation (es : List Event) (hes : ∀ e ∈ es, Typed e) :
    (∀ k i reply, (shown k (logOf es))[i]? = some reply →
      ∃ line answer before after, (asked k (logOf es))[i]? = some line ∧
        logOf es = before ++ .served k line answer (some reply) :: after ∧
        (served k before).length = i ∧ printed reply = (typed answer).take maxline) ∧
      ∀ before after client line answer reply,
        logOf es = before ++ .served client line answer reply :: after → typed line = closeCmd →
          ∀ r ∈ given (.served client line answer reply :: after), r = none := by
  constructor
  · intro k i reply hi
    obtain ⟨line, answer, before, after, hasked, hlog, hlen⟩ := place_of_shown serve true es k hi
    have hreply : reply = typed answer := by
      have halone := alone_logOf es
      rw [show logOf es = _ from hlog] at halone
      exact serve_eq_some halone.reply_eq.symm
    exact ⟨line, answer, before, after, hasked, hlog, hlen, hreply ▸ printed_typed answer⟩
  · intro before after client line answer reply hlog hclose
    have hline : Line line := by
      have hmem : (answer, client, line) ∈ intake (logOf es) := by
        rw [hlog, intake_append]
        exact List.mem_append_right _ List.mem_cons_self
      have hasked (client : SockaddrIn) (line : Option (List UInt8))
          (he : RequestReply.Event.ask client line ∈ es) : Line line := hes _ he
      exact forall_intake serve true hasked _ hmem
    have halone := alone_logOf es
    rw [show logOf es = _ from hlog] at halone
    have hserve := serve_close hline hclose
    rw [halone.given_eq]
    show ∀ r ∈ (run (serverStep serve) _ ((answer, client, line) :: intake after)).2, r = none
    rw [run_cons_snd, List.forall_mem_append]
    simp only [serverStep, hserve]
    exact ⟨by simp, given_of_stopped serve_closed (intake after)⟩

/-- A client asks and then closes the server, which another one asks in vain. -/
def askAndClose : List Event :=
  [.ask ⟨2, 1, 1, 0⟩ (some (ascii "hi\n")), .serve 0 (some (ascii "hello\n")), .deliver 0,
    .ask ⟨2, 1, 1, 0⟩ (some closeCmd), .ask ⟨2, 2, 1, 0⟩ (some (ascii "ehi\n")), .serve 0 none,
    .serve 0 (some (ascii "too late\n"))]

theorem conversation_two :
    (shown ⟨2, 1, 1, 0⟩ (logOf askAndClose)).map printed = [ascii "hello\n"] ∧
      (∀ k i reply, (shown k (logOf askAndClose))[i]? = some reply →
        ∃ line answer before after, (asked k (logOf askAndClose))[i]? = some line ∧
          logOf askAndClose = before ++ .served k line answer (some reply) :: after ∧
          (served k before).length = i ∧ printed reply = (typed answer).take maxline) ∧
      ∀ before after client line answer reply,
        logOf askAndClose = before ++ .served client line answer reply :: after →
          typed line = closeCmd →
            ∀ r ∈ given (.served client line answer reply :: after), r = none :=
  ⟨by decide +kernel, conversation askAndClose (by decide)⟩

end Reti.SqrUdp
