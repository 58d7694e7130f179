import Reti.TimeCount.Udp
import Reti.Lib.RequestReply

/-!
# Reti.TimeCount.UdpClient

The clients of the UDP server for the time and its count (`Client-Server-UDP/client_udp.c`):
each sends a line that is typed, waits for a datagram and prints it.  Any number of them use
the server at once, over a network that may lose datagrams and let them overtake each other.
-/

namespace Reti.TimeCount.Udp

open CStr Transducer RequestReply

/-! ## a client -/

/-- The datagram for a line: `strlen(sendline)` bytes. -/
def sendline (line : List UInt8) : List UInt8 := cstr line

/-- What `fputs` prints: the datagram, received into `recvline`, with a NUL behind it. -/
def printed (recvline : Buf (maxline + 1)) (reply : List UInt8) : List UInt8 :=
  let received := reply.take maxline
  ((recvline.fill received).store received.length 0).text

/-! ## the server, as the clients see it -/

variable (cnt : Buf 5) (rodata : UInt8)

/-- The datagram of an iteration, if there is one. -/
def datagram : List Output → Option (List UInt8)
  | [.sent p] => some p.text
  | _ => none

/-- The iteration that meets a line of a client; `timestr` is what `ctime` returns in it. -/
def serve (s : Server) (timestr : List UInt8) (client : SockaddrIn) (line : List UInt8) :
    Server × Option (List UInt8) :=
  let (s, outputs) := iteration cnt rodata s ⟨.got ⟨client, sendline line⟩, timestr⟩
  (s, datagram outputs)

/-- The clients type lines that `fgets` returns. -/
def Typed : RequestReply.Event SockaddrIn (List UInt8) (List UInt8) → Prop
  | .ask _ line => FgetsItem maxline line
  | _ => True

instance : (e : RequestReply.Event SockaddrIn (List UInt8) (List UInt8)) → Decidable (Typed e)
  | .ask _ _ => inferInstanceAs (Decidable (FgetsItem _ _))
  | .serve _ _ => inferInstanceAs (Decidable True)
  | .deliver _ => inferInstanceAs (Decidable True)
  | .loseRequest _ => inferInstanceAs (Decidable True)
  | .loseReply _ => inferInstanceAs (Decidable True)

/-- All that happens when the server starts and the clients are used. -/
def logOf (cliAddr : SockaddrIn)
    (es : List (RequestReply.Event SockaddrIn (List UInt8) (List UInt8))) :
    List (Log SockaddrIn (List UInt8) (List UInt8) (List UInt8)) :=
  (run (RequestReply.step (serve cnt rodata)) (.init (.init cliAddr)) es).2

/-! ## what the server makes of a line -/

theorem request_sendline (client : SockaddrIn) {line : List UInt8} (h : FgetsItem maxline line) :
    request (.got ⟨client, sendline line⟩) = sendline line := by
  have hlen : (cstr line).length ≤ maxline :=
    Nat.le_trans (length_cstr_le line) (Nat.le_of_lt (h.length_lt (by decide)))
  exact (Buf.text_zero_fill hlen).trans (cstr_of_not_mem (zero_not_mem_cstr line))

theorem request_eq_timeCmd_iff (client : SockaddrIn) {line : List UInt8}
    (h : FgetsItem maxline line) :
    request (.got ⟨client, sendline line⟩) = timeCmd ↔ line = timeCmd := by
  rw [request_sendline client h]
  exact h.cstr_eq_iff (t := ascii "T") (by decide)

theorem request_eq_countCmd (client : SockaddrIn) :
    request (.got ⟨client, sendline countCmd⟩) = countCmd :=
  request_sendline client (by decide)

/-- What the server is given, as the iterations meet it. -/
def meet (m : List UInt8 × SockaddrIn × List UInt8) : Event :=
  ⟨.got ⟨m.2.1, sendline m.2.2⟩, m.1⟩

/-- The server alone is the loop. -/
theorem run_serverStep_fst (s : Server) (ms : List (List UInt8 × SockaddrIn × List UInt8)) :
    (run (serverStep (serve cnt rodata)) s ms).1 =
      (run (iteration cnt rodata) s (ms.map meet)).1 := by
  induction ms generalizing s with
  | nil => rfl
  | cons m ms ih => exact ih _

/-- How many of the lines ask for the time. -/
def asksTime (ms : List (List UInt8 × SockaddrIn × List UInt8)) : Nat :=
  ms.countP fun m => m.2.2 = timeCmd

theorem times_meet {ms : List (List UInt8 × SockaddrIn × List UInt8)}
    (hms : ∀ m ∈ ms, FgetsItem maxline m.2.2) : times (ms.map meet) = asksTime ms := by
  rw [times, List.countP_map, asksTime]
  refine List.countP_congr fun m hm => ?_
  rw [Function.comp_apply, decide_eq_true_iff, decide_eq_true_iff]
  exact request_eq_timeCmd_iff m.2.1 (hms m hm)

/-- The counter after some lines. -/
theorem counter_serverStep (cliAddr : SockaddrIn)
    {ms : List (List UInt8 × SockaddrIn × List UInt8)}
    (hms : ∀ m ∈ ms, FgetsItem maxline m.2.2) (hfew : asksTime ms ≤ 999) :
    (run (serverStep (serve cnt rodata)) (.init cliAddr) ms).1.counter = (asksTime ms : Int) := by
  rw [run_serverStep_fst, counter_run, times_meet hms]
  exact Int.bmod_eq_of_le (by omega) (by omega)

/-- The datagram with a number of three digits at most. -/
theorem serve_countCmd {s : Server} {n : Nat} (hs : s.counter = (n : Int)) (hn : n ≤ 999)
    (timestr : List UInt8) (client : SockaddrIn) :
    (serve cnt rodata s timestr client countCmd).2 = some (countText n) := by
  have hsent : sendCount cnt client s.counter = .sent ⟨client, countText n⟩ := by
    rw [sendCount_eq_sent_iff, hs, printInt_natCast]
    exact ⟨rfl, (length_countText_le_iff n).mpr hn⟩
  have hout := iteration_count cnt rodata s (request_eq_countCmd client) timestr
  rw [hsent] at hout
  exact congrArg datagram hout

theorem printed_countText (recvline : Buf (maxline + 1)) {n : Nat} (hn : n ≤ 999) :
    printed recvline (countText n) = decimal n ++ [newline] := by
  have hlen : (countText n).length ≤ 5 := (length_countText_le_iff n).mpr hn
  have htake : (countText n).take maxline = countText n :=
    List.take_of_length_le (Nat.le_trans hlen (by decide))
  have hnul : 0 ∉ decimal n ++ [newline] := by
    rw [List.mem_append, not_or, ← printInt_natCast]
    exact ⟨zero_not_mem_printInt n, by decide⟩
  have hlt : (countText n).length < maxline + 1 := Nat.lt_of_le_of_lt hlen (by decide)
  have htext : countText n = decimal n ++ [newline] ++ 0 :: [] := by simp [countText]
  rw [printed, htake, recvline.text_fill_store hlt, htext, cstr_append_zero, cstr_of_not_mem hnul]

/-! ## the numbers a client is shown -/

section

variable {cnt rodata} {cliAddr : SockaddrIn}
  {es : List (RequestReply.Event SockaddrIn (List UInt8) (List UInt8))}

theorem typed_of_mem_intake (hes : ∀ e ∈ es, Typed e) :
    ∀ m ∈ intake (logOf cnt rodata cliAddr es), FgetsItem maxline m.2.2 :=
  forall_intake (serve cnt rodata) (.init cliAddr) fun _ _ he => hes _ he

/-- All that is typed for the time. -/
def timesTyped (es : List (RequestReply.Event SockaddrIn (List UInt8) (List UInt8))) : Nat :=
  es.countP (asks fun line => line = timeCmd)

theorem asksTime_intake_le :
    asksTime (intake (logOf cnt rodata cliAddr es)) ≤ timesTyped es :=
  countP_intake_le (serve cnt rodata) (fun line => line = timeCmd) (.init cliAddr) es

/-- A reply to `N`, where it stands in the log. -/
theorem reply_of_split (hes : ∀ e ∈ es, Typed e) (hfew : timesTyped es ≤ 999)
    {before after : List (Log SockaddrIn (List UInt8) (List UInt8) (List UInt8))} {k : SockaddrIn}
    {timestr reply : List UInt8}
    (hlog : logOf cnt rodata cliAddr es =
      before ++ .served k countCmd timestr (some reply) :: after) :
    reply = countText (asksTime (intake before)) ∧ asksTime (intake before) ≤ timesTyped es := by
  have hsub : (intake before).Sublist (intake (logOf cnt rodata cliAddr es)) := by
    rw [hlog, intake_append]
    exact List.sublist_append_left _ _
  have hle : asksTime (intake before) ≤ timesTyped es :=
    Nat.le_trans hsub.countP_le asksTime_intake_le
  have hlines : ∀ m ∈ intake before, FgetsItem maxline m.2.2 := fun m hm =>
    typed_of_mem_intake hes m (hsub.subset hm)
  have halone := alone_run (serve cnt rodata) (.init cliAddr) es
  rw [show (run _ _ es).2 = _ from hlog] at halone
  have hcounter := counter_serverStep cnt rodata cliAddr hlines (Nat.le_trans hle hfew)
  have hreply := halone.reply_eq.trans
    (serve_countCmd cnt rodata hcounter (Nat.le_trans hle hfew) timestr k)
  exact ⟨Option.some.inj hreply, hle⟩

theorem count_asked_le (k : SockaddrIn)
    (log : List (Log SockaddrIn (List UInt8) (List UInt8) (List UInt8))) :
    ((served k log).map Prod.fst).count timeCmd ≤ asksTime (intake log) := by
  rw [List.count, List.countP_map, asksTime]
  simp only [← beq_iff_eq (a := _) (b := timeCmd), Bool.decide_eq_true]
  exact countP_served_le k (fun line => line == timeCmd) log

/-- The `i`-th line of a client is `N`, and it is shown a reply to it. -/
def CountShown (log : List (Log SockaddrIn (List UInt8) (List UInt8) (List UInt8)))
    (k : SockaddrIn) (i : Nat) (reply : List UInt8) : Prop :=
  (asked k log)[i]? = some countCmd ∧ (shown k log)[i]? = some reply

/-- Where the server has met the line. -/
theorem split_of_shown {k : SockaddrIn} {i : Nat} {reply : List UInt8}
    (h : CountShown (logOf cnt rodata cliAddr es) k i reply) :
    (served k (logOf cnt rodata cliAddr es))[i]? = some (countCmd, some reply) ∧
      ∃ before timestr after,
        logOf cnt rodata cliAddr es = before ++ .served k countCmd timestr (some reply) :: after ∧
          served k before = (served k (logOf cnt rodata cliAddr es)).take i ∧
          (asked k (logOf cnt rodata cliAddr es)).take i = (served k before).map Prod.fst := by
  obtain ⟨line, hasked, hserved⟩ :=
    served_of_shown (serve cnt rodata) (.init cliAddr) es k h.2
  obtain rfl : line = countCmd := Option.some.inj (hasked.symm.trans h.1)
  obtain ⟨before, timestr, after, hlog, hbefore⟩ := exists_served hserved
  have hlt : i < (served k (logOf cnt rodata cliAddr es)).length :=
    (List.getElem?_eq_some_iff.mp hserved).1
  refine ⟨hserved, before, timestr, after, hlog, hbefore, ?_⟩
  rw [hbefore]
  exact take_asked (serve cnt rodata) (.init cliAddr) es k hlt.le

/-- What the server has been given when it serves a client again. -/
theorem asksTime_intake_append (k : SockaddrIn) {timestr : List UInt8}
    {reply : Option (List UInt8)}
    (before between : List (Log SockaddrIn (List UInt8) (List UInt8) (List UInt8))) :
    asksTime (intake (before ++ .served k countCmd timestr reply :: between)) =
      asksTime (intake before) + asksTime (intake between) := by
  have hne : countCmd ≠ timeCmd := by decide
  have hintake : intake (.served k countCmd timestr reply :: between) =
      (timestr, k, countCmd) :: intake between := rfl
  rw [intake_append, hintake, asksTime, asksTime, asksTime, List.countP_append,
    List.countP_cons_of_neg (by simpa using hne)]

end

/-- A client types `N`, `T` and `N` again, and another one types `T` in the meantime. -/
def countTimeCount : List (RequestReply.Event SockaddrIn (List UInt8) (List UInt8)) :=
  [.ask ⟨2, 1, 1, 0⟩ countCmd, .serve 0 [], .deliver 0, .ask ⟨2, 1, 1, 0⟩ timeCmd,
    .ask ⟨2, 2, 1, 0⟩ timeCmd, .serve 1 [], .serve 0 [], .deliver 1, .ask ⟨2, 1, 1, 0⟩ countCmd,
    .serve 0 [], .deliver 1]

end Reti.TimeCount.Udp
