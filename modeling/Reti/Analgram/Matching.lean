import Reti.Analgram.Bounds

/-!
# Reti.Analgram.Matching

What the matching loop has consumed after each of its iterations: of every character as
many as the part of `str1` it has gone through has of it, or as many as there are in `str2`
if that is less.
-/

namespace Reti.Analgram

open CStr

/-- The block of a string, as `strcpy` leaves it. -/
def block (chars : List UInt8) : Buf (chars.length + 1) :=
  ⟨chars ++ [0], by rw [List.length_append, List.length_singleton]⟩

/-- How many positions that have `c` in `str2` are consumed in `buff`. -/
def consumed (c : UInt8) (str2 buff : List UInt8) : Nat := (str2.zip buff).count (c, mark)

/-! ## what is consumed and what is not -/

theorem marked_consumeAll {str1 str2 buff : List UInt8} (h : Marked str2 buff) :
    Marked str2 (consumeAll str1 str2 buff) := by
  induction str1 generalizing buff with
  | nil => exact h
  | cons c str1 ih => exact ih (consume_spec c h).1

/-- Each character of `str2` is consumed or pending. -/
theorem consumed_add_count_pending (c : UInt8) {str2 buff : List UInt8} (h : Marked str2 buff) :
    consumed c str2 buff + (pending buff).count c = str2.count c := by
  induction h with
  | nil => rfl
  | @cons d b str2 buff hb _ ih =>
      simp only [consumed, pending] at ih ⊢
      rw [List.zip_cons_cons, List.count_cons, List.count_cons, ← ih]
      by_cases hmark : b = mark
      · simp [hmark]
        omega
      · obtain rfl : b = d := hb.resolve_right hmark
        simp [hmark, List.count_cons]
        omega

/-- Without a `'0'` in `str2` everything is pending at first. -/
theorem pending_of_mark_not_mem {str2 : List UInt8} (h : mark ∉ str2) : pending str2 = str2 := by
  rw [pending, List.filter_eq_self]
  intro b hb
  simpa using fun hmark : b = mark => h (hmark ▸ hb)

/-- **Run lemma**: greedy matching consumes the intersection, with multiplicity. -/
theorem consumed_consumeAll {str2 : List UInt8} (h : mark ∉ str2) (str1 : List UInt8)
    (c : UInt8) :
    consumed c str2 (consumeAll str1 str2 str2) = min (str1.count c) (str2.count c) := by
  have hmarked : Marked str2 (consumeAll str1 str2 str2) := marked_consumeAll (marked_refl str2)
  have hsum := consumed_add_count_pending c hmarked
  rw [pending_consumeAll (marked_refl str2), pending_of_mark_not_mem h, List.count_diff] at hsum
  omega

/-- The NUL behind `buff` is no position of `str2`. -/
theorem consumed_append_nul (c : UInt8) {str2 buff : List UInt8}
    (h : str2.length = buff.length) : consumed c str2 (buff ++ [0]) = consumed c str2 buff := by
  have hzip : str2.zip (buff ++ [0]) = str2.zip buff := by
    rw [← List.append_nil str2, List.zip_append h]
    simp
  rw [consumed, hzip, consumed]

/-- A position that is not consumed is as it was. -/
theorem Marked.getElem?_eq {str2 buff : List UInt8} (h : Marked str2 buff) {j : Nat}
    (hj : buff[j]? ≠ some mark) : buff[j]? = str2[j]? := by
  induction h generalizing j with
  | nil => rfl
  | cons hb _ ih =>
      cases j with
      | zero =>
          rw [List.getElem?_cons_zero] at hj ⊢
          rw [hb.resolve_right fun hmark => hj (congrArg some hmark), List.getElem?_cons_zero]
      | succ j => exact ih hj

/-! ## the loop -/

/-- **Matching loop**: after the first `i` iterations, for every `i` and every character, the
positions of the character that are consumed are as many as the smaller of its numbers of
occurrences in the part of `str1` gone through and in `str2`; the others are unchanged. -/
theorem matching_invariant (str1 : List UInt8) {str2 : List UInt8}
    (hlen : str1.length = str2.length) (hmark : mark ∉ str2) {i : Nat} (hi : i ≤ str2.length) :
    ∃ buff, matchLoop (block str1) (block str2) (block str2) str2.length i = some buff ∧
      (∀ c, consumed c str2 buff.bytes = min ((str1.take i).count c) (str2.count c)) ∧
      ∀ j < str2.length, buff.load j ≠ some mark → buff.load j = str2[j]? := by
  have h1 : Holds (block str1) str1 := rfl
  have h2 : Holds (block str2) str2 := rfl
  obtain ⟨buff, hloop, hbuff⟩ := matchLoop_eq_some h1 h2 h2 rfl (hlen ▸ hi)
  have hmarked : Marked str2 (consumeAll (str1.take i) str2 str2) :=
    marked_consumeAll (marked_refl str2)
  refine ⟨buff, hloop, fun c => ?_, fun j hj => ?_⟩
  · rw [hbuff, consumed_append_nul c hmarked.length_eq, consumed_consumeAll hmark]
  · have hin : j < (consumeAll (str1.take i) str2 str2).length := hmarked.length_eq ▸ hj
    rw [Buf.load, hbuff, List.getElem?_append_left hin]
    exact hmarked.getElem?_eq

/-- Two of the three `a`s of the second string after three characters of the first. -/
theorem matching_invariant_banana :
    ∃ buff, matchLoop (block (ascii "anabnc")) (block (ascii "banana")) (block (ascii "banana"))
        (ascii "banana").length 3 = some buff ∧
      (∀ c, consumed c (ascii "banana") buff.bytes =
        min (((ascii "anabnc").take 3).count c) ((ascii "banana").count c)) ∧
      ∀ j < (ascii "banana").length, buff.load j ≠ some mark →
        buff.load j = (ascii "banana")[j]? :=
  matching_invariant (ascii "anabnc") (by decide) (by decide) (by decide)

end Reti.Analgram
