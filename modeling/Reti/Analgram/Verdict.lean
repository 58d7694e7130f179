import Reti.Lib.CString
import Mathlib.Data.Multiset.OrderedMonoid
import Mathlib.Algebra.Order.Sub.Basic

/-!
# Reti.Analgram.Verdict

The anagram checker (`analgram.c`): for each character of the first string it marks one
equal character of a copy of the second, by overwriting it with `'0'`.  What is not
marked is what the first string has not used up, except that a `'0'` of the second
string counts as marked from the start.

The heap copies of the strings are taken as large enough.
-/

namespace Reti.Analgram

open CStr

/-! ## the program -/

/-- The character that marks a position of `buff` as consumed. -/
def mark : UInt8 := 48

def different : List UInt8 := ascii "The strings are different.\n"

def anagrams : List UInt8 := ascii "The strings are anagrams of each other!.\n"

/-- The inner loop: the first position of `buff` that is not consumed, and where `str2`
has the character, is. -/
def consume (c : UInt8) : List UInt8 → List UInt8 → List UInt8
  | d :: str2, b :: buff =>
    if b = mark then b :: consume c str2 buff
    else if c = d then mark :: buff
    else b :: consume c str2 buff
  | _, buff => buff

/-- The loop over the characters of `str1`. -/
def consumeAll (str1 str2 buff : List UInt8) : List UInt8 :=
  str1.foldl (fun buff c => consume c str2 buff) buff

/-- The loop that looks for a position that is not consumed. -/
def check : List UInt8 → List UInt8
  | [] => anagrams
  | b :: buff => if b = mark then check buff else different

/-- The last line that is printed for two arguments. -/
def verdict (str1 str2 : List UInt8) : List UInt8 :=
  if str1.length > str2.length ∨ str2.length > str1.length then different
  else check (consumeAll str1 str2 str2)

example : verdict (ascii "listen") (ascii "silent") = anagrams := by decide

/-! ## what is left to consume -/

/-- The characters of `buff` that are not consumed. -/
def pending (buff : List UInt8) : List UInt8 := buff.filter fun b => b ≠ mark

/-- `buff` is `str2` with some characters consumed. -/
def Marked : List UInt8 → List UInt8 → Prop := List.Forall₂ fun d b => b = d ∨ b = mark

theorem marked_refl (str2 : List UInt8) : Marked str2 str2 :=
  List.forall₂_same.mpr fun _ _ => Or.inl rfl

/-- **Step lemma**: a character of `str1` takes one of its kind away, if there is one. -/
theorem consume_spec (c : UInt8) {str2 buff : List UInt8} (h : Marked str2 buff) :
    Marked str2 (consume c str2 buff) ∧
      pending (consume c str2 buff) = (pending buff).erase c := by
  induction h with
  | nil => exact ⟨.nil, rfl⟩
  | @cons d b str2 buff hb hrest ih =>
      by_cases hmark : b = mark
      · have hstep : consume c (d :: str2) (b :: buff) = b :: consume c str2 buff := if_pos hmark
        rw [hstep]
        refine ⟨.cons hb ih.1, ?_⟩
        simpa [pending, hmark] using ih.2
      · obtain rfl : b = d := hb.resolve_right hmark
        by_cases hc : c = b
        · have hstep : consume c (b :: str2) (b :: buff) = mark :: buff := by
            rw [consume, if_neg hmark, if_pos hc]
          rw [hstep]
          refine ⟨.cons (Or.inr rfl) hrest, ?_⟩
          simp [pending, hmark, hc]
        · have hstep : consume c (b :: str2) (b :: buff) = b :: consume c str2 buff := by
            rw [consume, if_neg hmark, if_neg hc]
          have hcons : ∀ l, pending (b :: l) = b :: pending l := by
            intro l
            simp [pending, hmark]
          rw [hstep, hcons, hcons, List.erase_cons_tail (by simpa using Ne.symm hc), ih.2]
          exact ⟨.cons hb ih.1, rfl⟩

/-- **Run lemma**: the loops take away the characters of `str1`, with multiplicity. -/
theorem pending_consumeAll {str1 str2 buff : List UInt8} (h : Marked str2 buff) :
    pending (consumeAll str1 str2 buff) = (pending buff).diff str1 := by
  induction str1 generalizing buff with
  | nil => rfl
  | cons c str1 ih =>
      obtain ⟨hmarked, hpending⟩ := consume_spec c h
      rw [List.diff_cons, ← hpending]
      exact ih hmarked

theorem check_eq_anagrams_iff (buff : List UInt8) :
    check buff = anagrams ↔ pending buff = [] := by
  have hne : different ≠ anagrams := by decide
  induction buff with
  | nil => simp [check, pending]
  | cons b buff ih =>
      by_cases hb : b = mark
      · simpa [check, pending, hb] using ih
      · simp [check, pending, hb, hne]

/-- The verdict: what is not a `'0'` in the second string is in the first, as often. -/
theorem verdict_eq_anagrams_iff (str1 str2 : List UInt8) :
    verdict str1 str2 = anagrams ↔
      str1.length = str2.length ∧ (pending str2).Subperm str1 := by
  have hne : different ≠ anagrams := by decide
  have hdiff : (pending str2).diff str1 = [] ↔ (pending str2).Subperm str1 := by
    rw [← Multiset.coe_le, ← tsub_eq_zero_iff_le, Multiset.coe_sub, Multiset.coe_eq_zero]
  unfold verdict
  by_cases hlen : str1.length = str2.length
  · rw [if_neg (by omega), check_eq_anagrams_iff, pending_consumeAll (marked_refl str2), hdiff]
    simp [hlen]
  · rw [if_pos (by omega)]
    simp [hne, hlen]

/-! ## anagrams -/

/-- The second string is the first, in some order, with the characters `gone` replaced
by `'0'`s. -/
def Replaced (str1 str2 gone : List UInt8) : Prop :=
  ∃ kept, str1.Perm (kept ++ gone) ∧ str2.Perm (kept ++ List.replicate gone.length mark)

/-- Some characters of the first string, none of them a `'0'`, are `'0'`s in the
second. -/
def Blotted (str1 str2 : List UInt8) : Prop :=
  ∃ gone, gone ≠ [] ∧ mark ∉ gone ∧ Replaced str1 str2 gone

theorem replaced_nil_iff (str1 str2 : List UInt8) :
    Replaced str1 str2 [] ↔ str2.Perm str1 := by
  constructor
  · rintro ⟨kept, h1, h2⟩
    rw [List.append_nil] at h1
    rw [List.length_nil, List.replicate_zero, List.append_nil] at h2
    exact h2.trans h1.symm
  · intro h
    exact ⟨str1, by simp, by simpa using h⟩

/-- The `'0'`s of a string stand apart from the other characters. -/
theorem perm_pending_append (l : List UInt8) :
    l.Perm (pending l ++ List.replicate (l.count mark) mark) := by
  have hmarks : l.filter (fun b => !decide (b ≠ mark)) = List.replicate (l.count mark) mark := by
    rw [← List.filter_eq]
    apply List.filter_congr
    intro b _
    simp
  have hperm := List.filter_append_perm (fun b => decide (b ≠ mark)) l
  rw [hmarks] at hperm
  exact hperm.symm

theorem replaced_of_subperm {str1 str2 : List UInt8} (hlen : str1.length = str2.length)
    (h : (pending str2).Subperm str1) : ∃ gone, mark ∉ gone ∧ Replaced str1 str2 gone := by
  obtain ⟨l, hl, hsub⟩ := h
  obtain ⟨rest, hrest⟩ : ∃ rest, str1.Perm (pending str2 ++ rest) := by
    obtain ⟨rest, hrest⟩ := hsub.exists_perm_append
    exact ⟨rest, hrest.trans (hl.append_right rest)⟩
  have h2 := perm_pending_append str2
  have hsplit := perm_pending_append rest
  have hlen2 := h2.length_eq
  have hlen1 := hrest.length_eq
  have hlenr := hsplit.length_eq
  simp only [List.length_append, List.length_replicate] at hlen1 hlen2 hlenr
  refine ⟨pending rest, by simp [pending], pending str2 ++ List.replicate (rest.count mark) mark,
    ?_, ?_⟩
  · rw [List.append_assoc]
    exact hrest.trans ((hsplit.trans List.perm_append_comm).append_left _)
  · rw [List.append_assoc, ← List.replicate_add]
    have hcount : str2.count mark = rest.count mark + (pending rest).length := by omega
    rwa [hcount] at h2

theorem subperm_of_replaced {str1 str2 gone : List UInt8} (h : Replaced str1 str2 gone) :
    str1.length = str2.length ∧ (pending str2).Subperm str1 := by
  obtain ⟨kept, h1, h2⟩ := h
  constructor
  · rw [h1.length_eq, h2.length_eq, List.length_append, List.length_append, List.length_replicate]
  · have hpending : (pending str2).Perm (pending kept) := by
      have hfilter := h2.filter fun b => decide (b ≠ mark)
      simpa [pending, List.filter_append] using hfilter
    have hkept : (pending kept).Subperm kept := List.filter_sublist.subperm
    exact hpending.subperm.trans (hkept.trans ((List.sublist_append_left kept gone).subperm.trans
      h1.symm.subperm))

/-- The program is satisfied with an anagram, and with one that has been blotted. -/
theorem verdict_iff_perm_or_blotted (str1 str2 : List UInt8) :
    verdict str1 str2 = anagrams ↔ str2.Perm str1 ∨ Blotted str1 str2 := by
  rw [verdict_eq_anagrams_iff]
  constructor
  · rintro ⟨hlen, hsub⟩
    obtain ⟨gone, hmark, hgone⟩ := replaced_of_subperm hlen hsub
    by_cases hnil : gone = []
    · subst hnil
      exact Or.inl ((replaced_nil_iff _ _).mp hgone)
    · exact Or.inr ⟨gone, hnil, hmark, hgone⟩
  · rintro (hperm | ⟨gone, -, -, hgone⟩)
    · exact subperm_of_replaced ((replaced_nil_iff _ _).mpr hperm)
    · exact subperm_of_replaced hgone

/-- A blotted string is no anagram. -/
theorem Blotted.not_perm {str1 str2 : List UInt8} (h : Blotted str1 str2) :
    ¬str2.Perm str1 := by
  intro hperm
  obtain ⟨gone, hne, hmark, kept, h1, h2⟩ := h
  have hgone := (List.perm_append_left_iff kept).mp ((h2.symm.trans hperm).trans h1)
  obtain ⟨b, rest, rfl⟩ := List.exists_cons_of_ne_nil hne
  have hb : b ∈ List.replicate (b :: rest).length mark := hgone.mem_iff.mpr List.mem_cons_self
  rw [List.eq_of_mem_replicate hb] at hmark
  exact hmark List.mem_cons_self

/-- **Verdict**: the program finds exactly the anagrams, exactly if the second string is
not the first with characters replaced by `'0'`s. -/
theorem verdict_correct_iff (str1 str2 : List UInt8) :
    (verdict str1 str2 = anagrams ↔ str2.Perm str1) ↔ ¬Blotted str1 str2 := by
  rw [verdict_iff_perm_or_blotted]
  constructor
  · intro h hblot
    exact hblot.not_perm (h.mp (Or.inr hblot))
  · intro h
    constructor
    · rintro (hperm | hblot)
      · exact hperm
      · exact absurd hblot h
    · exact Or.inl

/-- `1` and `0` pass for anagrams. -/
theorem zero_passes :
    verdict (ascii "1") (ascii "0") = anagrams ∧ ¬(ascii "0").Perm (ascii "1") := by
  decide

end Reti.Analgram
