import Reti.SortServer.Parser
import Mathlib.Data.List.Pairwise

/-!
# Reti.SortServer.Order

Whether the answer is in order.  `intcmp` subtracts, and a difference that is no `int`
gets the wrong sign: then either the comparison is no order, and `qsort` may do
anything, or it is one, and the numbers come out in that order.
-/

namespace Reti.SortServer

open CStr

/-! ## requests -/

/-- A decimal integer with blanks before and behind it. -/
def Padded (f : List UInt8) (n : Int) : Prop :=
  ∃ i j t, f = List.replicate i 32 ++ (t ++ List.replicate j 32) ∧ Numeral t n

/-- A comma-separated list of decimal integers. -/
def Lists (request : List UInt8) (ns : List Int) : Prop :=
  ∃ fs, fs ≠ [] ∧ request = [44].intercalate fs ∧ List.Forall₂ Padded fs ns

/-- The numbers joined by `, `. -/
def joined (ns : List Int) : List UInt8 := (ascii ", ").intercalate (ns.map printInt)

theorem rebuild_eq_joined (ns : List Int) : rebuild ns = joined ns := by
  fun_induction rebuild ns with
  | case1 => rfl
  | case2 n => simp [joined]
  | case3 n m ns ih => simp [ih, joined, List.intercalate]

/-- The answer that a request of these numbers is to have. -/
def Sorts (qsort : Qsort) (buffer : Buf bufsize) (request : List UInt8) (ns : List Int) : Prop :=
  ∃ ms, serve qsort buffer [.data request] = some (joined ms) ∧ ms.Perm ns ∧ ms.Pairwise (· ≤ ·)

/-- The bytes of a numeral are digits and a sign. -/
theorem not_mem_numeral {t : List UInt8} {n : Int} (h : Numeral t n) {b : UInt8}
    (hb : isdigit b = false) (hplus : b ≠ 43) (hminus : b ≠ 45) : b ∉ t := by
  have hdigits : ∀ {ds : List UInt8}, (∀ c ∈ ds, isdigit c = true) → b ∉ ds := by
    intro ds hds hmem
    simp [hds b hmem] at hb
  cases h with
  | digits hne hds => exact hdigits hds
  | plus hne hds => simp [hplus, hdigits hds]
  | minus hne hds => simp [hminus, hdigits hds]

theorem Padded.not_mem {f : List UInt8} {n : Int} (h : Padded f n) {b : UInt8} (hblank : b ≠ 32)
    (hb : isdigit b = false) (hplus : b ≠ 43) (hminus : b ≠ 45) : b ∉ f := by
  obtain ⟨i, j, t, rfl, ht⟩ := h
  simp [List.mem_replicate, hblank, not_mem_numeral ht hb hplus hminus]

theorem Padded.leadingInt_eq {f : List UInt8} {n : Int} (h : Padded f n) :
    leadingInt f = some n := by
  obtain ⟨i, j, t, rfl, ht⟩ := h
  rw [leadingInt_eq_some_iff]
  refine ⟨List.replicate i 32, t, List.replicate j 32, rfl, ?_, ht, ?_⟩
  · intro b hb
    rw [List.eq_of_mem_replicate hb]
    decide
  · intro b hb
    rw [List.eq_of_mem_replicate (List.mem_of_mem_head? hb)]
    decide

theorem leadingInt_of_forall₂ {fs : List (List UInt8)} {ns : List Int}
    (h : List.Forall₂ Padded fs ns) : fs.filterMap leadingInt = ns := by
  induction h with
  | nil => rfl
  | cons hpad _ ih => rw [List.filterMap_cons_some hpad.leadingInt_eq, ih]

theorem forall_padded {fs : List (List UInt8)} {ns : List Int} (h : List.Forall₂ Padded fs ns) :
    ∀ f ∈ fs, ∃ n, Padded f n := by
  induction h with
  | nil => simp
  | cons hpad _ ih => exact List.forall_mem_cons.mpr ⟨⟨_, hpad⟩, ih⟩

/-- A list of integers is read as its integers. -/
theorem Lists.parse_eq {request : List UInt8} {ns : List Int} (h : Lists request ns)
    (hints : ∀ n ∈ ns, IsInt n) : parse request = ns := by
  obtain ⟨fs, hne, rfl, hfs⟩ := h
  have hpadded := forall_padded hfs
  have hparts : parts ([44].intercalate fs) = fs := by
    rw [parts, List.splitOn_intercalate 44 ?_ hne]
    intro f hf
    obtain ⟨n, hn⟩ := hpadded f hf
    exact hn.not_mem (by decide) (by decide) (by decide) (by decide)
  have hintegers : integers ([44].intercalate fs) = ns := by
    rw [integers, hparts, leadingInt_of_forall₂ hfs]
  rw [parse_of_allIntegers (by rwa [hintegers]), hintegers]
  intro f hf _
  obtain ⟨n, hn⟩ := hpadded f (hparts ▸ hf)
  rw [hn.leadingInt_eq]
  rfl

theorem Lists.zero_not_mem {request : List UInt8} {ns : List Int} (h : Lists request ns) :
    0 ∉ request := by
  obtain ⟨fs, hne, rfl, hfs⟩ := h
  have hfree : ∀ f ∈ fs, 0 ∉ f := by
    intro f hf
    obtain ⟨n, hn⟩ := forall_padded hfs f hf
    exact hn.not_mem (by decide) (by decide) (by decide) (by decide)
  clear hfs hne
  induction fs with
  | nil => simp [List.intercalate]
  | cons f fs ih =>
      have hrest := ih fun g hg => hfree g (List.mem_cons_of_mem f hg)
      have hf := hfree f List.mem_cons_self
      cases fs with
      | nil => simpa [List.intercalate] using hf
      | cons g gs =>
          rw [List.intercalate_cons_cons, List.mem_append, List.mem_append, not_or, not_or]
          exact ⟨⟨hf, by decide⟩, hrest⟩

/-! ## the comparison -/

/-- A difference that is an `int`. -/
theorem intcmp_of_isInt {a b : Int} (h : IsInt (a - b)) : intcmp a b = a - b := by
  simp only [IsInt, intMin, intMax] at h
  exact Int.bmod_eq_of_le (by omega) (by omega)

/-- A difference of two `int`s that is too large for an `int` comes out negative. -/
theorem intcmp_of_far {a b : Int} (ha : IsInt a) (hb : IsInt b) (h : intMax < a - b) :
    intcmp a b < 0 := by
  simp only [IsInt, intMin, intMax] at ha hb h
  rw [intcmp, Int.bmod_def]
  omega

/-- The differences of the numbers are `int`s. -/
def Near (ns : List Int) : Prop := ∀ a ∈ ns, ∀ b ∈ ns, a - b ≤ intMax

instance (ns : List Int) : Decidable (Near ns) := inferInstanceAs (Decidable (∀ a ∈ _, _))

theorem Near.intcmp_eq {ns : List Int} (h : Near ns) {a b : Int} (ha : a ∈ ns) (hb : b ∈ ns) :
    intcmp a b = a - b := by
  have hab := h a ha b hb
  have hba := h b hb a ha
  apply intcmp_of_isInt
  simp only [IsInt, intMin]
  omega

/-- Then `intcmp` is the order of the integers. -/
theorem Near.consistent {ns : List Int} (h : Near ns) : Consistent ns := by
  constructor
  · intro a ha b hb
    rw [h.intcmp_eq ha hb, h.intcmp_eq hb ha]
    omega
  · intro a ha b hb c hc
    rw [h.intcmp_eq ha hb, h.intcmp_eq hb hc, h.intcmp_eq ha hc]
    omega

theorem Near.sorted {ns : List Int} (h : Near ns) (qsort : Qsort) :
    (qsort.sort ns).Pairwise (· ≤ ·) := by
  have hmem := fun n => (qsort.perm ns).mem_iff (a := n)
  refine (qsort.sorted ns h.consistent).imp_of_mem fun {a b} ha hb hab => ?_
  rw [h.intcmp_eq ((hmem a).mp ha) ((hmem b).mp hb)] at hab
  omega

/-! ## where the comparison is wrong -/

instance (ns : List Int) : Decidable (Consistent ns) :=
  inferInstanceAs (Decidable ((∀ a ∈ ns, ∀ b ∈ ns, _) ∧
    ∀ a ∈ ns, ∀ b ∈ ns, ∀ c ∈ ns, intcmp a b ≤ 0 → intcmp b c ≤ 0 → intcmp a c ≤ 0))

/-- A `qsort` that sorts backwards where it may. -/
def contrary : Qsort where
  sort ns := if Consistent ns then insertionSort.sort ns else ns.insertionSort (· ≥ ·)
  perm ns := by
    by_cases h : Consistent ns
    · rw [if_pos h]
      exact insertionSort.perm ns
    · rw [if_neg h]
      exact List.perm_insertionSort _ ns
  sorted ns h := by
    rw [if_pos h]
    exact insertionSort.sorted ns h

/-- Two different elements of a list stand in some order. -/
theorem pairwise_or {R : α → α → Prop} {l : List α} (h : l.Pairwise R) {a b : α} (ha : a ∈ l)
    (hb : b ∈ l) (hne : a ≠ b) : R a b ∨ R b a := by
  have hor : l.Pairwise fun x y => R x y ∨ R y x := h.imp Or.inl
  have : Std.Symm fun x y => R x y ∨ R y x := ⟨fun _ _ hxy => hxy.symm⟩
  exact hor.forall ha hb hne

/-- A difference that is no `int`: the contrary sort does not put the two in order. -/
theorem not_sorted_contrary {ns : List Int} {a b : Int} (ha : a ∈ ns) (hb : b ∈ ns)
    (hints : ∀ n ∈ ns, IsInt n) (hfar : intMax < a - b) :
    ¬(contrary.sort ns).Pairwise (· ≤ ·) := by
  intro hsorted
  have hmem := fun n => (contrary.perm ns).mem_iff (a := n)
  have hlt : b < a := by
    simp only [intMax] at hfar
    omega
  by_cases hc : Consistent ns
  · -- `intcmp` has the two the other way round
    have hwrong : 0 < intcmp b a :=
      (hc.1 a ha b hb).mp (intcmp_of_far (hints a ha) (hints b hb) hfar)
    have hboth := (contrary.sorted ns hc).and hsorted
    obtain ⟨hcmp, -⟩ | ⟨-, hle⟩ :=
      pairwise_or hboth ((hmem b).mpr hb) ((hmem a).mpr ha) (Int.ne_of_lt hlt)
    · omega
    · omega
  · have hdown : (contrary.sort ns).Pairwise (· ≥ ·) := by
      have hsort : contrary.sort ns = ns.insertionSort (· ≥ ·) := if_neg hc
      rw [hsort]
      exact List.pairwise_insertionSort _ ns
    obtain ⟨hge, hle⟩ | ⟨hge, hle⟩ := pairwise_or (hdown.and hsorted) ((hmem b).mpr hb)
      ((hmem a).mpr ha) (Int.ne_of_lt hlt)
    · omega
    · omega

/-! ## the answer -/

theorem sorts_iff_sorted (qsort : Qsort) (buffer : Buf bufsize) {request : List UInt8}
    {ns : List Int} (h : Lists request ns) (hints : ∀ n ∈ ns, IsInt n)
    (hlen : request.length ≤ bufsize - 1) :
    Sorts qsort buffer request ns ↔ (qsort.sort ns).Pairwise (· ≤ ·) := by
  have hparse := h.parse_eq hints
  have hne : ns ≠ [] := by
    obtain ⟨fs, hfs, -, hall⟩ := h
    rintro rfl
    exact hfs (List.forall₂_nil_right_iff.mp hall)
  have hserve : serve qsort buffer [.data request] = some (rebuild (qsort.sort ns)) := by
    rw [serve_eq qsort buffer h.zero_not_mem hlen, answer_eq_some_iff, hparse]
    exact ⟨hne, rfl⟩
  have hperm := qsort.perm ns
  rw [Sorts, hserve]
  constructor
  · rintro ⟨ms, hms, hmsPerm, hsorted⟩
    have heq : qsort.sort ns = ms := by
      refine rebuild_injective (fun hnil => hne (hnil ▸ hperm).nil_eq.symm)
        (fun hnil => hne (hnil ▸ hmsPerm).nil_eq.symm) ?_
      rw [Option.some.inj hms, rebuild_eq_joined]
    rwa [heq]
  · intro hsorted
    exact ⟨_, by rw [rebuild_eq_joined], hperm, hsorted⟩

/-- **Correctness of the answer**: whatever `qsort` is, the answer to a list of integers is
the list in order, exactly if all their differences are `int`s. -/
theorem sorts_iff (buffer : Buf bufsize) {request : List UInt8} {ns : List Int}
    (h : Lists request ns) (hints : ∀ n ∈ ns, IsInt n) (hlen : request.length ≤ bufsize - 1) :
    (∀ qsort, Sorts qsort buffer request ns) ↔ ∀ a ∈ ns, ∀ b ∈ ns, a - b ≤ intMax := by
  constructor
  · intro hall a ha b hb
    by_contra hfar
    have hsorted := (sorts_iff_sorted contrary buffer h hints hlen).mp (hall contrary)
    exact not_sorted_contrary ha hb hints (Int.not_le.mp hfar) hsorted
  · intro hnear qsort
    rw [sorts_iff_sorted qsort buffer h hints hlen]
    exact Near.sorted hnear qsort

/-- Three numbers, one with blanks around it and one with a sign. -/
theorem lists_three : Lists (ascii "3, -1 ,+2") [3, -1, 2] := by
  refine ⟨[ascii "3", ascii " -1 ", ascii "+2"], by decide, by decide, ?_⟩
  refine .cons ?_ (.cons ?_ (.cons ?_ .nil))
  · exact ⟨0, 0, ascii "3", rfl, .digits (by decide) (List.all_eq_true.mp rfl)⟩
  · exact ⟨1, 1, ascii "-1", rfl, .minus (by decide) (List.all_eq_true.mp rfl)⟩
  · exact ⟨0, 0, ascii "+2", rfl, .plus (by decide) (List.all_eq_true.mp rfl)⟩

theorem sorts_three :
    Sorts insertionSort (Buf.zero bufsize) (ascii "3, -1 ,+2") [3, -1, 2] :=
  (sorts_iff _ lists_three (by decide) (by decide)).mpr (by decide) insertionSort

/-- `INT_MAX` comes before -3, since their difference is no `int`. -/
theorem sorts_fails :
    Lists (ascii "2147483647, -3") [2147483647, -3] ∧
      serve insertionSort (Buf.zero bufsize) [.data (ascii "2147483647, -3")] =
        some (ascii "2147483647, -3") ∧
      ¬Sorts insertionSort (Buf.zero bufsize) (ascii "2147483647, -3") [2147483647, -3] := by
  have hlists : Lists (ascii "2147483647, -3") [2147483647, -3] := by
    refine ⟨[ascii "2147483647", ascii " -3"], by decide, by decide, .cons ?_ (.cons ?_ .nil)⟩
    · exact ⟨0, 0, ascii "2147483647", rfl, .digits (by decide) (List.all_eq_true.mp rfl)⟩
    · exact ⟨1, 0, ascii "-3", rfl, .minus (by decide) (List.all_eq_true.mp rfl)⟩
  refine ⟨hlists, ?_, ?_⟩
  · rw [serve_eq _ _ hlists.zero_not_mem (by decide), answer_eq_some_iff,
      hlists.parse_eq (by decide)]
    decide
  · rw [sorts_iff_sorted _ _ hlists (by decide) (by decide)]
    decide

end Reti.SortServer
