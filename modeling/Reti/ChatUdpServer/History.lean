import Reti.ChatUdpServer.Server

/-!
# Reti.ChatUdpServer.History

The log file and its replay.  `log_message` writes a message and a newline;
`send_history` reads the file back with `fgets` into a `char[MAX_MSG_LEN]` and
sends what each call returns.

The two agree on what a record is only for messages without a newline of at
most `MAX_MSG_LEN - 2` bytes: a newline inside a message ends a record early,
and a message that leaves no room for its newline and the NUL is read in two.
-/

namespace Reti.ChatUdpServer

open CStr

/-! ## the log -/

/-- The log is the messages, each followed by a newline. -/
theorem foldl_logMessage (log : List UInt8) (msgs : List (List UInt8)) :
    msgs.foldl (logMessage true) log = log ++ (msgs.map (· ++ [newline])).flatten := by
  induction msgs generalizing log with
  | nil => simp
  | cons m msgs ih => simp [ih, logMessage]

/-- The texts that a sequence of datagrams leaves in the log: those of the
datagrams that are not history requests. -/
def logged (ds : List Datagram) : List (List UInt8) :=
  (ds.filter fun d => ¬historyCmd <+: d.payload).map fun d => cstr d.payload

/-- **Run lemma**: what a run adds to the log, when the file can be opened. -/
theorem log_run (s : Server) {ds : List Datagram} (hds : ∀ d ∈ ds, d.payload.length < maxMsgLen) :
    (Transducer.run iteration s (ds.map fun d => ⟨.got d, true⟩)).1.log =
      (logged ds).foldl (logMessage true) s.log := by
  induction ds generalizing s with
  | nil => rfl
  | cons d ds ih =>
      have hd : d.payload.length ≤ maxMsgLen := Nat.le_of_lt (hds d List.mem_cons_self)
      have hrest := fun s => ih s fun d' h => hds d' (List.mem_cons_of_mem d h)
      rw [List.map_cons, Transducer.run_cons_fst, hrest]
      by_cases hmsg : historyCmd <+: d.payload
      · rw [iteration_history s hd hmsg, logged, logged,
          List.filter_cons_of_neg (by simpa using hmsg)]
      · rw [iteration_message s hd hmsg, logged, logged,
          List.filter_cons_of_pos (by simpa using hmsg)]
        rfl

/-! ## reading it back -/

/-- What `fgets` returns from a file without NULs is sent whole. -/
theorem map_cstr_fgetsAll {s : List UInt8} (h : 0 ∉ s) :
    (fgetsAll maxMsgLen s).map cstr = fgetsAll maxMsgLen s := by
  have hid : ∀ c ∈ fgetsAll maxMsgLen s, cstr c = c := by
    intro c hc
    refine cstr_of_not_mem fun h0 => h ?_
    rw [← flatten_fgetsAll (n := maxMsgLen) (by decide) s]
    exact List.mem_flatten_of_mem hc h0
  exact (List.map_congr_left hid).trans (List.map_id _)

/-- Messages that fit on a line each are read back one by one. -/
theorem fgetsAll_lines {msgs : List (List UInt8)}
    (h : ∀ m ∈ msgs, newline ∉ m ∧ m.length ≤ maxMsgLen - 2) :
    fgetsAll maxMsgLen (msgs.map (· ++ [newline])).flatten = msgs.map (· ++ [newline]) := by
  induction msgs with
  | nil => exact fgetsAll_nil _
  | cons m msgs ih =>
      obtain ⟨hm, hlen⟩ := h m List.mem_cons_self
      have hfit : m.length + 2 ≤ maxMsgLen := by
        simp only [maxMsgLen] at hlen ⊢
        omega
      rw [List.map_cons, List.flatten_cons, List.append_assoc, List.singleton_append,
        fgetsAll_line hfit hm, ih fun m' h' => h m' (List.mem_cons_of_mem m h')]

/-- Messages that are read back one by one fit on a line each. -/
theorem of_fgetsAll_lines {msgs : List (List UInt8)}
    (h : fgetsAll maxMsgLen (msgs.map (· ++ [newline])).flatten = msgs.map (· ++ [newline])) :
    ∀ m ∈ msgs, newline ∉ m ∧ m.length ≤ maxMsgLen - 2 := by
  intro m hm
  have hmem : m ++ [newline] ∈ fgetsAll maxMsgLen (msgs.map (· ++ [newline])).flatten := by
    rw [h]
    exact List.mem_map_of_mem hm
  obtain ⟨hlen, hnl⟩ := mem_fgetsAll hmem
  rw [List.dropLast_concat] at hnl
  rw [List.length_append, List.length_singleton] at hlen
  exact ⟨hnl, by omega⟩

/-- The replay of a log is one datagram for each item `fgets` returns. -/
theorem sendHistory_logged {msgs : List (List UInt8)} (h0 : ∀ m ∈ msgs, 0 ∉ m) (dst : SockaddrIn) :
    sendHistory true (msgs.foldl (logMessage true) []) dst =
      (fgetsAll maxMsgLen (msgs.map (· ++ [newline])).flatten).map fun line => ⟨dst, line⟩ := by
  have hlog : (0 : UInt8) ∉ (msgs.map (· ++ [newline])).flatten := by
    have hnl : (0 : UInt8) ≠ newline := by decide
    simpa [hnl] using h0
  rw [sendHistory, if_pos rfl, foldl_logMessage, List.nil_append]
  conv_rhs => rw [← map_cstr_fgetsAll hlog, List.map_map]
  rfl

/-- **History**: after any messages have been logged, a history request is
answered with exactly those messages, one datagram each with its newline, if and
only if no message contains a newline and each leaves room for the newline and
the NUL in the array they are read back into. -/
theorem history_replays_iff {msgs : List (List UInt8)}
    (hmsgs : ∀ m ∈ msgs, 0 ∉ m ∧ m.length ≤ maxMsgLen - 1) {s : Server}
    (hlog : s.log = msgs.foldl (logMessage true) []) {d : Datagram}
    (hd : d.payload.length < maxMsgLen) (hreq : historyCmd <+: d.payload) :
    (iteration s ⟨.got d, true⟩).2 = msgs.map (fun m => ⟨d.src, m ++ [newline]⟩) ↔
      ∀ m ∈ msgs, newline ∉ m ∧ m.length ≤ maxMsgLen - 2 := by
  have hinj : Function.Injective fun line : List UInt8 => (⟨d.src, line⟩ : Packet) := by
    intro x y hxy
    exact congrArg Packet.text hxy
  have hmap : msgs.map (fun m => (⟨d.src, m ++ [newline]⟩ : Packet)) =
      (msgs.map (· ++ [newline])).map fun line => ⟨d.src, line⟩ := by
    rw [List.map_map]
    rfl
  rw [iteration_history s (Nat.le_of_lt hd) hreq, hlog,
    sendHistory_logged (fun m hm => (hmsgs m hm).1), hmap, (List.map_injective_iff.mpr hinj).eq_iff]
  exact ⟨of_fgetsAll_lines, fgetsAll_lines⟩

/-- Two logged messages are replayed. -/
theorem history_replays_two :
    (iteration ⟨[], [ascii "ciao", ascii "ehi"].foldl (logMessage true) [], default⟩
      ⟨.got ⟨default, historyCmd⟩, true⟩).2 =
      [ascii "ciao", ascii "ehi"].map (fun m => ⟨default, m ++ [newline]⟩) :=
  (@history_replays_iff [ascii "ciao", ascii "ehi"] (by decide) _ rfl ⟨default, historyCmd⟩
    (by decide) (by decide)).mpr (by decide)

/-- A message that is sent with the newline it was typed with comes back as two
datagrams. -/
theorem newline_replayed_apart :
    let s := (iteration (Server.init [] default) ⟨.got ⟨default, ascii "ciao\n"⟩, true⟩).1
    s.log = [ascii "ciao\n"].foldl (logMessage true) [] ∧
      (iteration s ⟨.got ⟨default, historyCmd⟩, true⟩).2 =
        [⟨default, ascii "ciao\n"⟩, ⟨default, [newline]⟩] ∧
      (iteration s ⟨.got ⟨default, historyCmd⟩, true⟩).2 ≠
        [ascii "ciao\n"].map (fun m => ⟨default, m ++ [newline]⟩) := by
  intro s
  have hlog : s.log = [ascii "ciao\n"].foldl (logMessage true) [] :=
    @log_run (Server.init [] default) [⟨default, ascii "ciao\n"⟩] (by decide)
  have hread : fgetsAll maxMsgLen ([ascii "ciao\n"].map (· ++ [newline])).flatten =
      [ascii "ciao\n", [newline]] := by
    show fgetsAll maxMsgLen (ascii "ciao" ++ newline :: ([] ++ newline :: [])) = _
    rw [fgetsAll_line (by decide) (by decide), fgetsAll_line (by decide) (by decide), fgetsAll_nil]
    rfl
  have hsend : (iteration s ⟨.got ⟨default, historyCmd⟩, true⟩).2 =
      [⟨default, ascii "ciao\n"⟩, ⟨default, [newline]⟩] := by
    rw [iteration_history s (d := ⟨default, historyCmd⟩) (by decide) (by decide), hlog,
      sendHistory_logged (by decide), hread]
    rfl
  refine ⟨hlog, hsend, ?_⟩
  rw [hsend]
  decide

end Reti.ChatUdpServer
