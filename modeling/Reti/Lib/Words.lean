import Mathlib.Data.List.Basic

/-!
# Reti.Lib.Words

Memory read as 32-bit words, the lowest byte first.  A memory area of whole words is known
from the values of its words.
-/

namespace Words

/-- The value of a word. -/
def word (a b c d : UInt8) : Nat :=
  a.toNat + 256 * (b.toNat + 256 * (c.toNat + 256 * d.toNat))

/-- The words of a memory area, without what is left at its end. -/
def words : List UInt8 → List Nat
  | a :: b :: c :: d :: bs => word a b c d :: words bs
  | _ => []

theorem word_inj {a b c d a' b' c' d' : UInt8} (h : word a b c d = word a' b' c' d') :
    a = a' ∧ b = b' ∧ c = c' ∧ d = d' := by
  have ha := a.toNat_lt
  have hb := b.toNat_lt
  have hc := c.toNat_lt
  have ha' := a'.toNat_lt
  have hb' := b'.toNat_lt
  have hc' := c'.toNat_lt
  simp only [word] at h
  simp only [← UInt8.toNat_inj]
  omega

theorem word_eq_zero_iff (a b c d : UInt8) :
    word a b c d = 0 ↔ ∀ x ∈ [a, b, c, d], x = 0 := by
  constructor
  · intro h
    obtain ⟨rfl, rfl, rfl, rfl⟩ := word_inj (h.trans (by decide : 0 = word 0 0 0 0))
    simp
  · intro h
    simp only [List.mem_cons, List.not_mem_nil, or_false, forall_eq_or_imp, forall_eq] at h
    obtain ⟨rfl, rfl, rfl, rfl⟩ := h
    rfl

/-- The four bytes of the first word. -/
theorem exists_four {bs : List UInt8} (h : 4 ≤ bs.length) :
    ∃ a b c d rest, bs = a :: b :: c :: d :: rest := by
  match bs, h with
  | a :: b :: c :: d :: rest, _ => exact ⟨a, b, c, d, rest, rfl⟩

theorem length_words {bs : List UInt8} {n : Nat} (h : bs.length = 4 * n) :
    (words bs).length = n := by
  induction n generalizing bs with
  | zero =>
      rw [List.eq_nil_of_length_eq_zero h]
      rfl
  | succ n ih =>
      obtain ⟨a, b, c, d, rest, rfl⟩ := exists_four (by omega : 4 ≤ bs.length)
      simp only [List.length_cons] at h
      rw [words, List.length_cons, ih (by omega)]

/-- Areas of whole words with the same words are the same. -/
theorem words_inj {bs bs' : List UInt8} {n : Nat} (h : bs.length = 4 * n)
    (h' : bs'.length = 4 * n) (hwords : words bs = words bs') : bs = bs' := by
  induction n generalizing bs bs' with
  | zero => rw [List.eq_nil_of_length_eq_zero h, List.eq_nil_of_length_eq_zero h']
  | succ n ih =>
      obtain ⟨a, b, c, d, rest, rfl⟩ := exists_four (by omega : 4 ≤ bs.length)
      obtain ⟨a', b', c', d', rest', rfl⟩ := exists_four (by omega : 4 ≤ bs'.length)
      simp only [List.length_cons] at h h'
      rw [words, words, List.cons.injEq] at hwords
      obtain ⟨rfl, rfl, rfl, rfl⟩ := word_inj hwords.1
      rw [ih (by omega) (by omega) hwords.2]

/-- The first word is zero exactly if its bytes are. -/
theorem head_words_eq_zero_iff {bs : List UInt8} (h : 4 ≤ bs.length) :
    (words bs).head? = some 0 ↔ ∀ x ∈ bs.take 4, x = 0 := by
  obtain ⟨a, b, c, d, rest, rfl⟩ := exists_four h
  rw [words, List.head?_cons, Option.some.injEq]
  exact word_eq_zero_iff a b c d

end Words
