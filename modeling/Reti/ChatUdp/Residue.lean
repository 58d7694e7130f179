import Reti.ChatUdp.Client

/-!
# Reti.ChatUdp.Residue

What a datagram of the client holds behind the NULs of its two strings.  The parent
clears `content_buffer` for each line but not the struct that it sends: there stands
what earlier lines and the block that `malloc` returned have left.
-/

namespace Reti.ChatUdp

open CStr

/-! ## the sender -/

/-- What a sender starts with and has been given: the block of `sendbuffer`, the other
memory that is not initialised, and the lines typed before. -/
structure Sender where
  heap : Message
  msgBuffer : Message
  username : Buf usernameLen
  history : List (List UInt8)
  deriving DecidableEq, Repr

/-- The bytes that are sent when `line` is typed after the history. -/
def Sender.datagram (s : Sender) (name line : List UInt8) : Option (List UInt8) := do
  let c ← start s.heap s.msgBuffer s.username name
  let c ← s.history.foldlM Client.typeLine c
  let c ← c.typeLine line
  return c.sendbuffer.mem.bytes

/-- Both senders send, and the same bytes. -/
def SameDatagram (s s' : Sender) (name line : List UInt8) : Prop :=
  ∃ bytes, s.datagram name line = some bytes ∧ s'.datagram name line = some bytes

/-- What is copied of a line: it ends at the newline, or at a NUL in it. -/
def typed (line : List UInt8) : List UInt8 := line.takeWhile fun b => b ≠ 0 ∧ b ∉ [newline]

/-- What the content holds at a position before `line` is typed. -/
def Sender.residue (s : Sender) (p : Nat) : Option UInt8 :=
  s.heap.content.residue (s.history.map typed) p

/-- The senders agree behind the NUL of the name and behind the NUL of the line. -/
structure Alike (s s' : Sender) (name line : List UInt8) : Prop where
  sender : ∀ p, (typed name).length < p → s.heap.sender.bytes[p]? = s'.heap.sender.bytes[p]?
  content : ∀ p, (typed line).length < p → s.residue p = s'.residue p

/-! ## what is copied -/

theorem length_typed_le (line : List UInt8) : (typed line).length ≤ line.length :=
  (List.takeWhile_prefix _).length_le

theorem start_eq (sendbuffer msgBuffer : Message) (username : Buf usernameLen) {name : List UInt8}
    (h : name.length < usernameLen) :
    start sendbuffer msgBuffer username name =
      some ⟨⟨sendbuffer.sender.fill (typed name ++ [0]), sendbuffer.content⟩, msgBuffer⟩ := by
  have hlen := length_typed_le name
  have hfits : (typed name).length < 64 := by
    simp only [usernameLen] at h
    omega
  simp only [start]
  rw [username.text_cut h, ← typed, sendbuffer.sender.strcpy_eq_some hfits]
  rfl

theorem typeLine_eq (c : Client) {line : List UInt8} (h : line.length < contentBufferLen) :
    c.typeLine line = (c.sendbuffer.content.strcpy (typed line)).map fun content =>
      ⟨⟨c.sendbuffer.sender, content⟩, c.msgBuffer⟩ := by
  simp only [Client.typeLine]
  rw [(Buf.zero contentBufferLen).text_cut h, ← typed]

/-- The lines go to the content, one after the other. -/
theorem foldlM_typeLine (c : Client) {lines : List (List UInt8)}
    (h : ∀ line ∈ lines, line.length < contentBufferLen) :
    lines.foldlM Client.typeLine c =
      ((lines.map typed).foldlM Buf.strcpy c.sendbuffer.content).map fun content =>
        ⟨⟨c.sendbuffer.sender, content⟩, c.msgBuffer⟩ := by
  induction lines generalizing c with
  | nil => rfl
  | cons line lines ih =>
      have hline := h line List.mem_cons_self
      have hrest := fun l hl => h l (List.mem_cons_of_mem line hl)
      rw [List.foldlM_cons, List.map_cons, List.foldlM_cons, typeLine_eq c hline]
      cases c.sendbuffer.content.strcpy (typed line) with
      | none => rfl
      | some content => exact ih ⟨⟨c.sendbuffer.sender, content⟩, c.msgBuffer⟩ hrest

/-! ## what is sent -/

/-- The datagram: the two strings with their NULs, and what stood behind them. -/
theorem datagram_spec (s : Sender) {name line : List UInt8} (hname : name.length < usernameLen)
    (hhistory : ∀ l ∈ s.history, l.length < contentBufferLen)
    (hline : line.length < contentBufferLen) :
    ∃ content : Buf 2048, (∀ p : Nat, content.bytes[p]? = s.residue p) ∧
      s.datagram name line =
        some ((typed name ++ 0 :: s.heap.sender.bytes.drop ((typed name).length + 1)) ++
          (typed line ++ 0 :: content.bytes.drop ((typed line).length + 1))) := by
  have hfits : ∀ {l : List UInt8}, l.length < contentBufferLen → (typed l).length < 2048 := by
    intro l hl
    have hlen := length_typed_le l
    simp only [contentBufferLen] at hl
    omega
  have hnamefits : (typed name).length < 64 := by
    have hlen := length_typed_le name
    simp only [usernameLen] at hname
    omega
  have hcopy : ∀ t ∈ s.history.map typed, t.length < 2048 := by
    intro t ht
    obtain ⟨l, hl, rfl⟩ := List.mem_map.mp ht
    exact hfits (hhistory l hl)
  obtain ⟨content, hcopied, hresidue⟩ := s.heap.content.foldlM_strcpy hcopy
  refine ⟨content, hresidue, ?_⟩
  rw [Sender.datagram, start_eq _ _ _ hname]
  simp only [Option.bind_eq_bind, Option.bind_some]
  rw [foldlM_typeLine _ hhistory, hcopied]
  simp only [Option.map_some, Option.bind_some]
  rw [typeLine_eq _ hline, content.strcpy_eq_some (hfits hline),
    ← Buf.bytes_fill_terminated _ hnamefits, ← Buf.bytes_fill_terminated _ (hfits hline)]
  rfl

theorem drop_eq_drop_iff {bs bs' : List UInt8} {k : Nat} :
    bs.drop (k + 1) = bs'.drop (k + 1) ↔ ∀ p, k < p → bs[p]? = bs'[p]? := by
  rw [List.ext_getElem?_iff]
  simp only [List.getElem?_drop]
  constructor
  · intro h p hp
    have hk := h (p - (k + 1))
    rwa [show k + 1 + (p - (k + 1)) = p by omega] at hk
  · intro h i
    exact h _ (by omega)

/-- Two strings with their NULs and what stands behind them. -/
theorem terminated_append_inj {t u : List UInt8} {a a' : Buf m} {b b' : Buf n} :
    (t ++ 0 :: a.bytes.drop (t.length + 1)) ++ (u ++ 0 :: b.bytes.drop (u.length + 1)) =
        (t ++ 0 :: a'.bytes.drop (t.length + 1)) ++ (u ++ 0 :: b'.bytes.drop (u.length + 1)) ↔
      (∀ p, t.length < p → a.bytes[p]? = a'.bytes[p]?) ∧
        ∀ p, u.length < p → b.bytes[p]? = b'.bytes[p]? := by
  constructor
  · intro h
    obtain ⟨ha, hb⟩ := List.append_inj h (by simp [Buf.length_eq])
    simp only [List.append_cancel_left_eq, List.cons.injEq, true_and] at ha hb
    exact ⟨drop_eq_drop_iff.mp ha, drop_eq_drop_iff.mp hb⟩
  · rintro ⟨ha, hb⟩
    rw [drop_eq_drop_iff.mpr ha, drop_eq_drop_iff.mpr hb]

/-- **Residue**: two senders of one name send the same datagram for a line exactly if they
agree on what stands behind it: at each position the byte that the last earlier line to
reach it has left, or the block of `malloc` if none has. -/
theorem same_datagram_iff {s s' : Sender} {name line : List UInt8}
    (hname : FgetsItem usernameLen name)
    (hhistory : ∀ l ∈ s.history, FgetsItem contentBufferLen l)
    (hhistory' : ∀ l ∈ s'.history, FgetsItem contentBufferLen l)
    (hline : FgetsItem contentBufferLen line) :
    SameDatagram s s' name line ↔ Alike s s' name line := by
  have hn := hname.length_lt (by decide)
  have hl := hline.length_lt (by decide)
  have hls := fun l h => (hhistory l h).length_lt (by decide)
  have hls' := fun l h => (hhistory' l h).length_lt (by decide)
  obtain ⟨c, hc, hd⟩ := datagram_spec s hn hls hl
  obtain ⟨c', hc', hd'⟩ := datagram_spec s' hn hls' hl
  have hsame : ∀ x y : List UInt8,
      (∃ bytes, some x = some bytes ∧ some y = some bytes) ↔ x = y := by
    simp [eq_comm]
  rw [SameDatagram, hd, hd', hsame, terminated_append_inj]
  simp only [hc, hc']
  constructor
  · rintro ⟨hsender, hcontent⟩
    exact ⟨hsender, hcontent⟩
  · intro h
    exact ⟨h.sender, h.content⟩

/-- A sender with a cleared block. -/
def cleared (history : List (List UInt8)) : Sender :=
  ⟨Message.zero, Message.zero, Buf.zero usernameLen, history⟩

/-- A shorter line leaves nothing behind a longer one. -/
theorem same_datagram_shorter :
    SameDatagram (cleared [ascii "a\n"]) (cleared []) (ascii "anna\n") (ascii "hello\n") := by
  refine (same_datagram_iff (by decide) (by decide) (by decide) (by decide)).mpr ⟨?_, ?_⟩
  · intro p _
    rfl
  · intro p hp
    have hshort : (typed (ascii "a\n")).length = 1 := by decide
    have hlong : (typed (ascii "hello\n")).length = 5 := by decide
    rw [hlong] at hp
    have hno : ¬p ≤ 1 := by omega
    simp [Sender.residue, Buf.residue, cleared, hshort, hno]

/-- A longer line is sent on with a shorter one. -/
theorem residue_sent :
    ¬SameDatagram (cleared [ascii "secret\n"]) (cleared []) (ascii "anna\n") (ascii "a\n") := by
  rw [same_datagram_iff (by decide) (by decide) (by decide) (by decide)]
  intro h
  have hbyte := h.content 2 (by decide)
  exact absurd hbyte (by decide +kernel)

end Reti.ChatUdp
