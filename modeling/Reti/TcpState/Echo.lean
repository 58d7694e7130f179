import Reti.Net
import Reti.Lib.CString

/-!
# Reti.TcpState.Echo

The loop of a child of the echo server (`sv_tcpstate.c`): what `read` returns is handed to
`write`, and what `write` returns is not looked at.  Of a chunk that is not written whole
the rest is lost, and what is written later does not belong where it goes.
-/

namespace Reti.TcpState

open CStr

/-- The size of `buffer`. -/
def bufferLen : Nat := 1024

/-- One turn of the loop: what `read` returns and, if that is some bytes, what `write` does. -/
structure Turn where
  ret : RecvRet
  written : Int
  deriving DecidableEq, Repr

/-- What `read` and `write` return. -/
def Turn.returns (t : Turn) : Int × Int :=
  match t.ret with
  | .error => (-1, t.written)
  | .closed => (0, t.written)
  | .data chunk => (chunk.length, t.written)

/-! ## the loop -/

/-- `while ((bytes = read(…)) > 0) write(connfd, buffer, bytes)`: the bytes that reach the
client. -/
def session (buffer : Buf bufferLen) : List Turn → List UInt8
  | ⟨.data chunk, written⟩ :: turns =>
    let buffer := buffer.fill chunk
    (buffer.bytes.take chunk.length).take written.toNat ++ session buffer turns
  | _ => []

/-- The bytes that are read before the loop ends. -/
def received : List Turn → List UInt8
  | ⟨.data chunk, _⟩ :: turns => chunk ++ received turns
  | _ => []

/-! ## what an echo is -/

/-- `write` writes all of it, if there is something. -/
def Turn.Full (t : Turn) : Prop := t.returns.1 ≤ t.written

/-- At every moment what has been echoed is the beginning of what has been received, and if
every write is full it is all of it. -/
structure Echoes (buffer : Buf bufferLen) (turns : List Turn) : Prop where
  no_gap : ∀ k, session buffer (turns.take k) <+: received (turns.take k)
  whole : (∀ t ∈ turns, t.Full) → session buffer turns = received turns

/-- No write writes anything until the loop ends. -/
def Silent : List (Int × Int) → Prop
  | [] => True
  | (bytes, written) :: rest => 0 < bytes → written ≤ 0 ∧ Silent rest

/-- After a write that does not write all no other writes anything. -/
def Unbroken : List (Int × Int) → Prop
  | [] => True
  | (bytes, written) :: rest =>
    0 < bytes → if bytes ≤ written then Unbroken rest else Silent rest

/-! ## without the buffer -/

/-- The parts of the chunks that are written. -/
def echoed : List Turn → List UInt8
  | ⟨.data chunk, written⟩ :: turns => chunk.take written.toNat ++ echoed turns
  | _ => []

/-- The buffer only hands the chunks on. -/
theorem session_eq_echoed (buffer : Buf bufferLen) {turns : List Turn}
    (h : ∀ t ∈ turns, t.ret.Fits bufferLen) : session buffer turns = echoed turns := by
  induction turns generalizing buffer with
  | nil => rfl
  | cons t turns ih =>
      rw [List.forall_mem_cons] at h
      obtain ⟨ret, written⟩ := t
      cases ret with
      | error => rfl
      | closed => rfl
      | data chunk =>
          have hlen : chunk.length ≤ bufferLen := h.1.2
          rw [session, echoed, ih _ h.2, buffer.bytes_fill hlen, List.take_left]

/-- **Run lemma**: full writes echo everything. -/
theorem echoed_of_full {turns : List Turn} (h : ∀ t ∈ turns, t.Full) :
    echoed turns = received turns := by
  induction turns with
  | nil => rfl
  | cons t turns ih =>
      rw [List.forall_mem_cons] at h
      obtain ⟨ret, written⟩ := t
      cases ret with
      | error => rfl
      | closed => rfl
      | data chunk =>
          have hfull : (chunk.length : Int) ≤ written := h.1
          rw [echoed, received, ih h.2, List.take_of_length_le (by omega)]

/-! ## no gap -/

theorem echoed_take_of_silent {turns : List Turn} (hfits : ∀ t ∈ turns, t.ret.Fits bufferLen)
    (h : Silent (turns.map Turn.returns)) (k : Nat) : echoed (turns.take k) = [] := by
  induction turns generalizing k with
  | nil => simp [echoed]
  | cons t turns ih =>
      rw [List.forall_mem_cons] at hfits
      obtain ⟨ret, written⟩ := t
      cases k with
      | zero => rfl
      | succ k =>
          cases ret with
          | error => rfl
          | closed => rfl
          | data chunk =>
              have hpos := List.length_pos_of_ne_nil hfits.1.1
              obtain ⟨hwritten, hrest⟩ := h (Int.natCast_pos.mpr hpos)
              have hzero : written.toNat = 0 := Int.toNat_eq_zero.mpr hwritten
              rw [List.take_succ_cons, echoed, ih hfits.2 hrest k, hzero]
              rfl

/-- **Run lemma**: as long as nothing is written after a gap, there is none. -/
theorem echoed_prefix_of_unbroken {turns : List Turn}
    (hfits : ∀ t ∈ turns, t.ret.Fits bufferLen) (h : Unbroken (turns.map Turn.returns)) (k : Nat) :
    echoed (turns.take k) <+: received (turns.take k) := by
  induction turns generalizing k with
  | nil => simp [echoed]
  | cons t turns ih =>
      rw [List.forall_mem_cons] at hfits
      obtain ⟨ret, written⟩ := t
      cases k with
      | zero => exact List.nil_prefix
      | succ k =>
          cases ret with
          | error => exact List.nil_prefix
          | closed => exact List.nil_prefix
          | data chunk =>
              have hpos := List.length_pos_of_ne_nil hfits.1.1
              have hrest := h (Int.natCast_pos.mpr hpos)
              rw [List.take_succ_cons, echoed, received]
              by_cases hfull : (chunk.length : Int) ≤ written
              · rw [if_pos hfull] at hrest
                rw [List.take_of_length_le (by omega), List.prefix_append_right_inj]
                exact ih hfits.2 hrest k
              · rw [if_neg hfull] at hrest
                rw [echoed_take_of_silent hfits.2 hrest k, List.append_nil]
                exact (List.take_prefix _ chunk).trans (List.prefix_append chunk _)

/-! ## a gap that shows -/

/-- The same turn over bytes of one kind. -/
def Turn.paint (c : UInt8) (t : Turn) : Turn :=
  match t.ret with
  | .data chunk => ⟨.data (List.replicate chunk.length c), t.written⟩
  | _ => t

theorem returns_paint (c : UInt8) (t : Turn) : (t.paint c).returns = t.returns := by
  obtain ⟨ret, written⟩ := t
  cases ret <;> simp [Turn.paint, Turn.returns]

theorem fits_paint (c : UInt8) {t : Turn} (h : t.ret.Fits bufferLen) :
    (t.paint c).ret.Fits bufferLen := by
  obtain ⟨ret, written⟩ := t
  cases ret with
  | error => exact h
  | closed => exact h
  | data chunk => simpa [Turn.paint, RecvRet.Fits, List.replicate_eq_nil_iff] using h

/-- If something is written, it can be seen what. -/
theorem echoed_paint_of_not_silent (c : UInt8) {turns : List Turn}
    (hfits : ∀ t ∈ turns, t.ret.Fits bufferLen) (h : ¬Silent (turns.map Turn.returns)) :
    ∃ k rest, echoed ((turns.map (Turn.paint c)).take k) = c :: rest := by
  induction turns with
  | nil => exact absurd trivial h
  | cons t turns ih =>
      rw [List.forall_mem_cons] at hfits
      obtain ⟨ret, written⟩ := t
      cases ret with
      | error => exact absurd (fun hpos => absurd hpos (by decide)) h
      | closed => exact absurd (fun hpos => absurd hpos (by decide)) h
      | data chunk =>
          by_cases hwritten : written ≤ 0
          · obtain ⟨k, rest, hrest⟩ := ih hfits.2 fun hsilent => h fun _ => ⟨hwritten, hsilent⟩
            refine ⟨k + 1, rest, ?_⟩
            have hzero : written.toNat = 0 := Int.toNat_eq_zero.mpr hwritten
            simpa [Turn.paint, echoed, hzero] using hrest
          · obtain ⟨n, hn⟩ := Nat.exists_eq_succ_of_ne_zero
              (Nat.ne_of_gt (List.length_pos_of_ne_nil hfits.1.1))
            obtain ⟨m, hm⟩ := Nat.exists_eq_succ_of_ne_zero
              (fun hzero => hwritten (Int.toNat_eq_zero.mp hzero))
            exact ⟨1, (List.replicate n c).take m,
              by simp [Turn.paint, echoed, hn, hm, List.replicate_succ]⟩

/-- Zeros of which some are not written, and then a one: the one is out of place. -/
theorem not_prefix_of_gap {n : Nat} (hpos : 0 < n) {written : Int} (h : ¬(n : Int) ≤ written)
    (rest rest' : List UInt8) :
    ¬(List.replicate n (0 : UInt8)).take written.toNat ++ 1 :: rest <+:
      List.replicate n 0 ++ rest' := by
  intro hprefix
  obtain ⟨gap, hgap⟩ : ∃ gap, n = written.toNat + (gap + 1) :=
    ⟨n - written.toNat - 1, by omega⟩
  have hsplit : List.replicate n (0 : UInt8) =
      List.replicate written.toNat 0 ++ 0 :: List.replicate gap 0 := by
    rw [hgap, List.replicate_add, List.replicate_succ]
  rw [hsplit, List.take_left' List.length_replicate, List.append_assoc,
    List.prefix_append_right_inj, List.cons_append, List.cons_prefix_cons] at hprefix
  exact absurd hprefix.1 (by decide)

/-- **Run lemma**: if something is written after a gap, the gap shows with suitable bytes. -/
theorem exists_gap_of_not_unbroken {turns : List Turn}
    (hfits : ∀ t ∈ turns, t.ret.Fits bufferLen) (h : ¬Unbroken (turns.map Turn.returns)) :
    ∃ turns' : List Turn, turns'.map Turn.returns = turns.map Turn.returns ∧
      (∀ t ∈ turns', t.ret.Fits bufferLen) ∧
      ∃ k, ¬echoed (turns'.take k) <+: received (turns'.take k) := by
  induction turns with
  | nil => exact absurd trivial h
  | cons t turns ih =>
      rw [List.forall_mem_cons] at hfits
      obtain ⟨ret, written⟩ := t
      cases ret with
      | error => exact absurd (fun hpos => absurd hpos (by decide)) h
      | closed => exact absurd (fun hpos => absurd hpos (by decide)) h
      | data chunk =>
          by_cases hfull : (chunk.length : Int) ≤ written
          · -- the gap is further on
            obtain ⟨turns', hreturns, hfits', k, hk⟩ := ih hfits.2 fun hunbroken =>
              h fun _ => (if_pos hfull).mpr hunbroken
            refine ⟨⟨.data chunk, written⟩ :: turns', by simp [hreturns],
              List.forall_mem_cons.mpr ⟨hfits.1, hfits'⟩, k + 1, ?_⟩
            rw [List.take_succ_cons, echoed, received, List.take_of_length_le (by omega),
              List.prefix_append_right_inj]
            exact hk
          · -- the gap is here: zeros up to it, ones behind it
            obtain ⟨k, rest, hrest⟩ := echoed_paint_of_not_silent 1 hfits.2 fun hsilent =>
              h fun _ => (if_neg hfull).mpr hsilent
            refine ⟨Turn.paint 0 ⟨.data chunk, written⟩ :: turns.map (Turn.paint 1), ?_, ?_,
              k + 1, ?_⟩
            · simp [returns_paint, Function.comp_def]
            · rw [List.forall_mem_cons]
              refine ⟨fits_paint 0 hfits.1, ?_⟩
              intro t ht
              obtain ⟨t', ht', rfl⟩ := List.mem_map.mp ht
              exact fits_paint 1 (hfits.2 t' ht')
            · rw [List.take_succ_cons, Turn.paint, echoed, received, hrest]
              exact not_prefix_of_gap (List.length_pos_of_ne_nil hfits.1.1) hfull rest _

/-! ## the echo -/

/-- **Echo**: whatever bytes the client sends in chunks of these sizes, the echo has no gap
at any moment and is complete if every write is full, exactly if nothing more is written
after a write that does not write all. -/
theorem echoes_iff_unbroken (buffer : Buf bufferLen) {turns : List Turn}
    (h : ∀ t ∈ turns, t.ret.Fits bufferLen) :
    (∀ turns' : List Turn, (∀ t ∈ turns', t.ret.Fits bufferLen) →
      turns'.map Turn.returns = turns.map Turn.returns → Echoes buffer turns') ↔
      Unbroken (turns.map Turn.returns) := by
  constructor
  · intro hall
    by_contra hbroken
    obtain ⟨turns', hreturns, hfits, k, hk⟩ := exists_gap_of_not_unbroken h hbroken
    have hgap := (hall turns' hfits hreturns).no_gap k
    rw [session_eq_echoed buffer fun t ht => hfits t (List.mem_of_mem_take ht)] at hgap
    exact hk hgap
  · intro hunbroken turns' hfits hreturns
    refine ⟨fun k => ?_, fun hfull => ?_⟩
    · rw [session_eq_echoed buffer fun t ht => hfits t (List.mem_of_mem_take ht)]
      exact echoed_prefix_of_unbroken hfits (hreturns ▸ hunbroken) k
    · rw [session_eq_echoed buffer hfits, echoed_of_full hfull]

/-- Two writes that write all. -/
theorem echoes_two_full :
    Echoes (Buf.zero bufferLen) [⟨.data (ascii "abc"), 3⟩, ⟨.data (ascii "de"), 2⟩] :=
  (@echoes_iff_unbroken (Buf.zero bufferLen) [⟨.data (ascii "abc"), 3⟩, ⟨.data (ascii "de"), 2⟩]
    (by decide)).mpr (by simp [Turn.returns, ascii, Unbroken]) _ (by decide) rfl

/-- One byte is not written, and the next chunk is. -/
theorem short_write_leaves_gap :
    ¬Echoes (Buf.zero bufferLen) [⟨.data (ascii "abc"), 2⟩, ⟨.data (ascii "de"), 2⟩] := by
  intro h
  have hgap := h.no_gap 2
  rw [session_eq_echoed _ (by decide)] at hgap
  exact absurd hgap (by decide)

end Reti.TcpState
