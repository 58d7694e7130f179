import Reti.ChatTcpGold.Framing

/-!
# Reti.ChatTcpGold.Client

The client of the forking TCP chat (`chat_TCP_gold/src/client.c`): the loop that reads a
line, stamps it and sends the whole struct, and what its lines become on a screen.

The struct is on the stack and never cleared.  At the end of the input `fgets` leaves
`message` as it is and its result is not looked at, so that the last line is sent again and
again.
-/

namespace Reti.ChatTcpGold

open CStr Transducer

def exitCmd : List UInt8 := ascii "exit"

/-- `s[strcspn(s, "\n")] = 0`. -/
def chompBuf (b : Buf n) : Buf n := b.store (strcspn b.bytes [newline]) 0

/-! ## the program -/

/-- The client: the struct it sends, and whether it is in its loop. -/
structure Client where
  msg : Message
  running : Bool
  deriving DecidableEq, Repr

/-- The username has been read into the struct. -/
def Client.start (msg : Message) (line : List UInt8) : Client :=
  ⟨{ msg with username := chompBuf (msg.username.fill (line ++ [0])) }, true⟩

/-- What a turn of the loop meets: what `fgets` reads, if anything, the text of `strftime`,
and whether `send` succeeds. -/
structure Turn where
  line : Option (List UInt8)
  timestamp : List UInt8
  sendOk : Bool
  deriving DecidableEq, Repr

/-- `fgets` into `message`, and its newline cut off. -/
def Message.read (m : Message) (line : Option (List UInt8)) : Message :=
  { m with message := chompBuf (match line with
    | some l => m.message.fill (l ++ [0])
    | none => m.message) }

/-- `get_timestamp`. -/
def Message.stamp (m : Message) (timestamp : List UInt8) : Message :=
  { m with timestamp := m.timestamp.fill (timestamp ++ [0]) }

/-- One turn, and what it sends. -/
def Client.turn (c : Client) (t : Turn) : Client × List Message :=
  if c.running then
    let msg := c.msg.read t.line
    if msg.message.text = exitCmd then (⟨msg, false⟩, [])
    else
      let msg := msg.stamp t.timestamp
      if t.sendOk then (⟨msg, true⟩, [msg]) else (⟨msg, false⟩, [])
  else (c, [])

/-! ## what is meant to be said -/

/-- What is said in a turn: the line, or at the end of the input what was said last. -/
def Turn.text (last : List UInt8) (t : Turn) : List UInt8 :=
  match t.line with
  | some line => chomp line
  | none => last

/-- The stamped lines, up to `exit` or to a `send` that fails. -/
def conversation (last : List UInt8) : List Turn → List (List UInt8 × List UInt8)
  | [] => []
  | t :: ts =>
    if t.text last = exitCmd ∨ t.sendOk = false then []
    else (t.timestamp, t.text last) :: conversation (t.text last) ts

/-- A line on the screen. -/
def screen (user timestamp text : List UInt8) : List UInt8 :=
  ascii "[" ++ timestamp ++ ascii "][" ++ user ++ ascii "]: " ++ text ++ ascii "\n"

/-- What the programs are given: lines such as `fgets` reads, and times that fit. -/
def Turn.Proper (t : Turn) : Prop :=
  (∀ line ∈ t.line, FgetsItem messageLen line ∧ 0 ∉ line) ∧
    t.timestamp.length < 32 ∧ 0 ∉ t.timestamp

instance (t : Turn) : Decidable t.Proper := inferInstanceAs (Decidable (_ ∧ _))

/-! ## the struct -/

/-- The array holds a string of the text. -/
def Terminated (b : Buf n) (text : List UInt8) : Prop := 0 ∈ b.bytes ∧ b.text = text

theorem terminated_fill (b : Buf n) {text : List UInt8} (h : text.length < n) (h0 : 0 ∉ text) :
    Terminated (b.fill (text ++ [0])) text := by
  have htext : (b.fill (text ++ [0])).text = text := by
    rw [b.text_fill_terminated h, cstr_of_not_mem h0]
  refine ⟨?_, htext⟩
  rw [Buf.zero_mem_bytes_iff, htext]
  exact h

/-- A line read into an array is its string, but for its newline. -/
theorem terminated_chompBuf (b : Buf n) {line : List UInt8} (hline : FgetsItem n line)
    (hn : 0 < n) (h0 : 0 ∉ line) : Terminated (chompBuf (b.fill (line ++ [0]))) (chomp line) := by
  have htext := b.text_cut_line hn hline h0
  refine ⟨?_, htext⟩
  rw [Buf.zero_mem_bytes_iff, chompBuf, htext]
  exact length_chomp_lt hline hn (Nat.le_refl n)

/-- Cutting again where there is no newline changes nothing of the string. -/
theorem terminated_chompBuf_again {b : Buf n} {text : List UInt8} (hb : Terminated b text)
    (hnl : newline ∉ text) : Terminated (chompBuf b) text := by
  have htext : (chompBuf b).text = text := by
    show cstr (b.bytes.set _ 0) = text
    have hcstr : cstr b.bytes = text := hb.2
    rw [cstr_set_strcspn, takeWhile_line_eq, hcstr, List.takeWhile_eq_self_iff]
    intro x hx
    have hne : x ≠ newline := fun h => hnl (h ▸ hx)
    simpa using hne
  refine ⟨?_, htext⟩
  have hlen := b.zero_mem_bytes_iff.mp hb.1
  rwa [Buf.zero_mem_bytes_iff, htext, ← hb.2]

/-- A `%s` of an array that holds a string prints no more than the string. -/
theorem cstr_append_of_terminated {b : Buf n} {text : List UInt8} (hb : Terminated b text)
    (rest : List UInt8) : cstr (b.bytes ++ rest) = text := by
  obtain ⟨tail, htail⟩ := exists_terminated hb.1
  have hcstr : cstr b.bytes = text := hb.2
  rw [htail, List.append_assoc, List.cons_append, cstr_append_zero,
    cstr_of_not_mem (zero_not_mem_cstr _), hcstr]

/-- A struct whose arrays hold strings is printed as these. -/
theorem printed_eq_screen {m : Message} {user timestamp text : List UInt8}
    (hu : Terminated m.username user) (ht : Terminated m.timestamp timestamp)
    (hm : Terminated m.message text) : m.printed = screen user timestamp text := by
  have hmem : m.mem.bytes = m.username.bytes ++ (m.timestamp.bytes ++ m.message.bytes) := by
    show m.username.bytes ++ m.timestamp.bytes ++ m.message.bytes = _
    rw [List.append_assoc]
  have htime : m.mem.bytes.drop 32 = m.timestamp.bytes ++ m.message.bytes := by
    rw [hmem, List.drop_left' m.username.length_eq]
  have hmessage : m.mem.bytes.drop 64 = m.message.bytes ++ [] := by
    have hdrop : m.mem.bytes.drop 64 = (m.mem.bytes.drop 32).drop 32 := by rw [List.drop_drop]
    rw [hdrop, htime, List.drop_left' m.timestamp.length_eq, List.append_nil]
  rw [Message.printed, htime, hmessage, hmem, cstr_append_of_terminated hu,
    cstr_append_of_terminated ht, cstr_append_of_terminated hm, screen]

/-! ## the loop -/

/-- **Step lemma**: what is to be said is in the struct. -/
theorem terminated_read {m : Message} {t : Turn} {last : List UInt8}
    (hm : t.line = none → Terminated m.message last ∧ newline ∉ last) (ht : t.Proper) :
    Terminated (m.read t.line).message (t.text last) ∧ newline ∉ t.text last := by
  cases hline : t.line with
  | none =>
      obtain ⟨hlast, hnl⟩ := hm hline
      simp only [Turn.text, hline, Message.read]
      exact ⟨terminated_chompBuf_again hlast hnl, hnl⟩
  | some line =>
      obtain ⟨hitem, h0⟩ := ht.1 line hline
      simp only [Turn.text, hline, Message.read]
      exact ⟨terminated_chompBuf _ hitem (by decide) h0, newline_not_mem_chomp hitem.2.2⟩

theorem run_of_not_running {c : Client} (h : c.running = false) (ts : List Turn) :
    run Client.turn c ts = (c, []) :=
  run_stuck (fun t => by simp [Client.turn, h]) ts

/-- **Run lemma**: what is sent is printed as the conversation. -/
theorem printed_run {c : Client} (hrun : c.running) {user last : List UInt8}
    (hu : Terminated c.msg.username user) {ts : List Turn} (hts : ∀ t ∈ ts, t.Proper)
    (hlast : ∀ t ∈ ts.head?, t.line = none → Terminated c.msg.message last ∧ newline ∉ last) :
    (run Client.turn c ts).2.map Message.printed =
      (conversation last ts).map fun p => screen user p.1 p.2 := by
  induction ts generalizing c last with
  | nil => rfl
  | cons t ts ih =>
      have ht := hts t List.mem_cons_self
      obtain ⟨hread, hnl⟩ := terminated_read (hlast t rfl) ht
      have hstamp := terminated_fill (c.msg.read t.line).timestamp ht.2.1 ht.2.2
      rw [run_cons_snd, conversation]
      simp only [Client.turn, hrun, if_true, hread.2]
      by_cases hexit : t.text last = exitCmd
      · simp [hexit, run_of_not_running]
      · rw [if_neg hexit]
        cases hok : t.sendOk with
        | false => simp [run_of_not_running]
        | true =>
            have hrest := @ih ⟨(c.msg.read t.line).stamp t.timestamp, true⟩ rfl (t.text last) hu
              (fun t' h => hts t' (List.mem_cons_of_mem t h)) fun _ _ _ => ⟨hread, hnl⟩
            have hprinted :=
              printed_eq_screen (m := (c.msg.read t.line).stamp t.timestamp) hu hstamp hread
            simp [hexit, hprinted, hrest]

end Reti.ChatTcpGold
