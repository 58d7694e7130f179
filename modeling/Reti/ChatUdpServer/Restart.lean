import Reti.ChatUdpServer.History

/-!
# Reti.ChatUdpServer.Restart

The log file outlives the server: a server that is started again has an empty roster and
the log of its predecessors.  Whatever the messages look like, and however often the server
has been restarted, a history request brings back every byte that was logged, in order and
cut into strings of less than `MAX_MSG_LEN` bytes.
-/

namespace Reti.ChatUdpServer

open CStr Transducer

/-- What happens to the server: a datagram arrives, with or without the log file to be
opened, or the server is started again. -/
inductive Happening where
  | arrives (d : Datagram) (fopenOk : Bool)
  | restarted (clientAddr : SockaddrIn)
  deriving DecidableEq, Repr

/-- One happening; a new process finds the log file as it is. -/
def life (s : Server) : Happening → Server × List Packet
  | .arrives d fopenOk => iteration s ⟨.got d, fopenOk⟩
  | .restarted clientAddr => (.init s.log clientAddr, [])

/-- A datagram that leaves room for a NUL behind it in the buffer. -/
def Happening.Short : Happening → Prop
  | arrives d _ => d.payload.length < maxMsgLen
  | restarted _ => True

instance : (e : Happening) → Decidable e.Short
  | .arrives d _ => inferInstanceAs (Decidable (d.payload.length < maxMsgLen))
  | .restarted _ => inferInstanceAs (Decidable True)

/-- What a happening leaves in the log: a message with a newline, if the file was opened. -/
def Happening.entry : Happening → List UInt8
  | arrives d fopenOk =>
    if ¬historyCmd <+: d.payload ∧ fopenOk = true then cstr d.payload ++ [newline] else []
  | restarted _ => []

/-- All that has been written to the log. -/
def recorded (es : List Happening) : List UInt8 := es.flatMap Happening.entry

/-! ## the log -/

/-- **Step lemma**: the log grows by the entry. -/
theorem log_life (s : Server) {e : Happening} (he : e.Short) :
    (life s e).1.log = s.log ++ e.entry := by
  cases e with
  | restarted clientAddr => simp [life, Server.init, Happening.entry]
  | arrives d fopenOk =>
      have hd : d.payload.length ≤ maxMsgLen := Nat.le_of_lt he
      by_cases hmsg : historyCmd <+: d.payload
      · simp [life, iteration_history s hd hmsg, Happening.entry, hmsg]
      · cases fopenOk <;>
          simp [life, iteration_message s hd hmsg, Happening.entry, hmsg, logMessage]

/-- **Run lemma**: the log is what it was and the entries of all lives. -/
theorem log_lives (s : Server) {es : List Happening} (hes : ∀ e ∈ es, e.Short) :
    (run life s es).1.log = s.log ++ recorded es := by
  induction es generalizing s with
  | nil => simp [recorded]
  | cons e es ih =>
      have hrest := ih (life s e).1 fun e' h => hes e' (List.mem_cons_of_mem e h)
      rw [run_cons_fst, hrest, log_life s (hes e List.mem_cons_self), List.append_assoc]
      rfl

/-- Only text is logged. -/
theorem zero_not_mem_recorded (es : List Happening) : 0 ∉ recorded es := by
  intro h
  obtain ⟨e, -, he⟩ := List.mem_flatMap.mp h
  cases e with
  | restarted clientAddr => cases he
  | arrives d fopenOk =>
      have hnl : (0 : UInt8) ≠ newline := by decide
      simp only [Happening.entry] at he
      split at he
      · cases List.mem_append.mp he with
        | inl htext => exact zero_not_mem_cstr _ htext
        | inr hend => exact hnl (List.mem_singleton.mp hend)
      · cases he

/-! ## the replay -/

/-- **Nothing is lost**: in any sequence of lives of the server, the answer to a history
request is the log file of the beginning and all messages logged since, byte for byte, in
items such as `fgets` reads; it goes to nobody but the client that asked. -/
theorem history_complete {log : List UInt8} (hlog : 0 ∉ log) (clientAddr : SockaddrIn)
    {es : List Happening} (hes : ∀ e ∈ es, e.Short) {d : Datagram}
    (hd : d.payload.length < maxMsgLen) (hreq : historyCmd <+: d.payload) :
    let s := (run life (.init log clientAddr) es).1
    let replies := (iteration s ⟨.got d, true⟩).2
    (replies.map Packet.text).flatten = log ++ recorded es ∧
      ∀ p ∈ replies, p.dst = d.src ∧ FgetsItem maxMsgLen p.text := by
  intro s replies
  have hs : s.log = log ++ recorded es := log_lives _ hes
  have hnul : 0 ∉ s.log := by
    rw [hs, List.mem_append, not_or]
    exact ⟨hlog, zero_not_mem_recorded es⟩
  have hreplies : replies = (fgetsAll maxMsgLen s.log).map fun line => ⟨d.src, line⟩ := by
    have hsend : replies = sendHistory true s.log d.src := by
      simp only [replies]
      rw [iteration_history s (Nat.le_of_lt hd) hreq]
    rw [hsend, sendHistory, if_pos rfl]
    conv_rhs => rw [← map_cstr_fgetsAll hnul, List.map_map]
    rfl
  constructor
  · have htexts : replies.map Packet.text = fgetsAll maxMsgLen s.log := by
      rw [hreplies, List.map_map]
      exact List.map_id _
    rw [htexts, flatten_fgetsAll (by decide), hs]
  · intro p hp
    rw [hreplies] at hp
    obtain ⟨line, hline, rfl⟩ := List.mem_map.mp hp
    exact ⟨rfl, fgetsItem_of_mem_fgetsAll (by decide) hline⟩

/-- A message with a newline in it, a restart, and a request. -/
theorem history_complete_restarted :
    let es : List Happening := [.arrives ⟨default, ascii "ciao\nehi"⟩ true, .restarted default]
    let s := (run life (.init [] default) es).1
    ((iteration s ⟨.got ⟨⟨2, 2, 1, 0⟩, historyCmd⟩, true⟩).2.map Packet.text).flatten =
      ascii "ciao\nehi\n" :=
  (@history_complete [] (by decide) default
    [.arrives ⟨default, ascii "ciao\nehi"⟩ true, .restarted default] (by decide)
    ⟨⟨2, 2, 1, 0⟩, historyCmd⟩ (by decide) (by decide)).1

end Reti.ChatUdpServer
