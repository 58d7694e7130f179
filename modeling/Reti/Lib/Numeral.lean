import Reti.Lib.Decimal

/-!
# Reti.Lib.Numeral

Integers written in decimal, and what `strtol` and `atoi` make of a string: the
integer it begins with, white space aside, or 0 if it begins with none.
-/

namespace CStr

/-! ## numerals -/

/-- The text of an integer: digits, with or without a sign. -/
inductive Numeral : List UInt8 → Int → Prop where
  | digits {ds} (hne : ds ≠ []) (hds : ∀ b ∈ ds, isdigit b = true) : Numeral ds (digitsVal ds)
  | plus {ds} (hne : ds ≠ []) (hds : ∀ b ∈ ds, isdigit b = true) :
    Numeral (43 :: ds) (digitsVal ds)
  | minus {ds} (hne : ds ≠ []) (hds : ∀ b ∈ ds, isdigit b = true) :
    Numeral (45 :: ds) (-digitsVal ds)

/-- A string that begins with the text of `n` after some white space; the text ends
where the digits do. -/
def Begins (s : List UInt8) (n : Int) : Prop :=
  ∃ w t rest, s = w ++ (t ++ rest) ∧ (∀ b ∈ w, isspace b = true) ∧ Numeral t n ∧
    ∀ b ∈ rest.head?, isdigit b = false

/-- The value of the digits at the start of a string, if there are any. -/
def leadingDigits (s : List UInt8) : Option Nat :=
  if s.takeWhile isdigit = [] then none else some (digitsVal (s.takeWhile isdigit))

/-- The integer at the start of a string, which may have a sign. -/
def leadingSigned : List UInt8 → Option Int
  | 45 :: ds => (leadingDigits ds).map fun n : Nat => -(n : Int)
  | 43 :: ds => (leadingDigits ds).map fun n : Nat => (n : Int)
  | ds => (leadingDigits ds).map fun n : Nat => (n : Int)

/-- The integer that a string begins with, white space aside, if it begins with one. -/
def leadingInt (s : List UInt8) : Option Int := leadingSigned (s.dropWhile isspace)

example : leadingInt (ascii " -12x") = some (-12) := by decide

example : leadingInt (ascii "x12") = none := by decide

/-! ## finding the numeral -/

theorem takeWhile_isdigit_append {ds rest : List UInt8} (hds : ∀ b ∈ ds, isdigit b = true)
    (hrest : ∀ b ∈ rest.head?, isdigit b = false) : (ds ++ rest).takeWhile isdigit = ds := by
  cases rest with
  | nil => rw [List.append_nil, List.takeWhile_eq_self_iff.mpr hds]
  | cons b rest =>
      rw [takeWhile_append_stop (hrest b rfl), List.takeWhile_eq_self_iff.mpr hds]

theorem leadingDigits_append {ds rest : List UInt8} (hne : ds ≠ [])
    (hds : ∀ b ∈ ds, isdigit b = true) (hrest : ∀ b ∈ rest.head?, isdigit b = false) :
    leadingDigits (ds ++ rest) = some (digitsVal ds) := by
  rw [leadingDigits, takeWhile_isdigit_append hds hrest, if_neg hne]

/-- The digits at the start of a string, and what follows them. -/
theorem leadingDigits_eq_some_iff {s : List UInt8} {n : Nat} :
    leadingDigits s = some n ↔ ∃ ds rest, s = ds ++ rest ∧ ds ≠ [] ∧
      (∀ b ∈ ds, isdigit b = true) ∧ (∀ b ∈ rest.head?, isdigit b = false) ∧
      n = digitsVal ds := by
  constructor
  · intro h
    by_cases hne : s.takeWhile isdigit = []
    · simp [leadingDigits, hne] at h
    · refine ⟨s.takeWhile isdigit, s.dropWhile isdigit, List.takeWhile_append_dropWhile.symm, hne,
        fun b hb => List.mem_takeWhile_imp hb, fun b hb => ?_, ?_⟩
      · have hstop := List.head?_dropWhile_not isdigit s
        rw [Option.mem_def.mp hb] at hstop
        simpa using hstop
      · simpa [leadingDigits, hne] using h.symm
  · rintro ⟨ds, rest, rfl, hne, hds, hrest, rfl⟩
    exact leadingDigits_append hne hds hrest

/-- A string that begins with no sign. -/
theorem leadingSigned_of_head {s : List UInt8} (hminus : s.head? ≠ some 45)
    (hplus : s.head? ≠ some 43) :
    leadingSigned s = (leadingDigits s).map fun n : Nat => (n : Int) := by
  unfold leadingSigned
  split
  · exact absurd rfl hminus
  · exact absurd rfl hplus
  · rfl

/-- A numeral is not white space at its start. -/
theorem Numeral.isspace_head {t : List UInt8} {n : Int} (h : Numeral t n) :
    ∃ b u, t = b :: u ∧ isspace b = false := by
  cases h with
  | digits hne hds =>
      obtain ⟨b, u, rfl⟩ := List.exists_cons_of_ne_nil hne
      have hb := hds b List.mem_cons_self
      refine ⟨b, u, rfl, ?_⟩
      simp only [isdigit, isspace, Bool.and_eq_true, decide_eq_true_eq,
        UInt8.le_iff_toNat_le] at hb ⊢
      rw [Bool.or_eq_false_iff, beq_eq_false_iff_ne, Bool.and_eq_false_iff]
      simp [← UInt8.toNat_inj] at hb ⊢
      omega
  | plus hne hds => exact ⟨_, _, rfl, by decide⟩
  | minus hne hds => exact ⟨_, _, rfl, by decide⟩

theorem leadingSigned_append {t rest : List UInt8} {n : Int} (h : Numeral t n)
    (hrest : ∀ b ∈ rest.head?, isdigit b = false) : leadingSigned (t ++ rest) = some n := by
  cases h with
  | digits hne hds =>
      obtain ⟨b, u, rfl⟩ := List.exists_cons_of_ne_nil hne
      have hb := hds b List.mem_cons_self
      have hminus : b ≠ 45 := by
        rintro rfl
        exact absurd hb (by decide)
      have hplus : b ≠ 43 := by
        rintro rfl
        exact absurd hb (by decide)
      rw [leadingSigned_of_head (by simpa using hminus) (by simpa using hplus),
        leadingDigits_append hne hds hrest]
      rfl
  | plus hne hds =>
      rw [List.cons_append, leadingSigned, leadingDigits_append hne hds hrest]
      rfl
  | minus hne hds =>
      rw [List.cons_append, leadingSigned, leadingDigits_append hne hds hrest]
      rfl

/-- What the numeral at the start of a string is, and where it ends. -/
theorem leadingSigned_eq_some_iff {s : List UInt8} {n : Int} :
    leadingSigned s = some n ↔
      ∃ t rest, s = t ++ rest ∧ Numeral t n ∧ ∀ b ∈ rest.head?, isdigit b = false := by
  constructor
  · intro h
    unfold leadingSigned at h
    split at h <;> obtain ⟨m, hm, rfl⟩ := Option.map_eq_some_iff.mp h <;>
      obtain ⟨ds, rest, rfl, hne, hds, hrest, rfl⟩ := leadingDigits_eq_some_iff.mp hm
    · exact ⟨45 :: ds, rest, rfl, .minus hne hds, hrest⟩
    · exact ⟨43 :: ds, rest, rfl, .plus hne hds, hrest⟩
    · exact ⟨ds, rest, rfl, .digits hne hds, hrest⟩
  · rintro ⟨t, rest, rfl, ht, hrest⟩
    exact leadingSigned_append ht hrest

/-- `leadingInt` finds the integer a string begins with. -/
theorem leadingInt_eq_some_iff {s : List UInt8} {n : Int} :
    leadingInt s = some n ↔ Begins s n := by
  rw [leadingInt, leadingSigned_eq_some_iff]
  constructor
  · rintro ⟨t, rest, hs, ht, hrest⟩
    refine ⟨s.takeWhile isspace, t, rest, ?_, fun b hb => List.mem_takeWhile_imp hb, ht, hrest⟩
    rw [← hs, List.takeWhile_append_dropWhile]
  · rintro ⟨w, t, rest, rfl, hw, ht, hrest⟩
    refine ⟨t, rest, ?_, ht, hrest⟩
    obtain ⟨b, u, rfl, hb⟩ := ht.isspace_head
    rw [List.dropWhile_append_of_pos hw, List.cons_append,
      List.dropWhile_cons_of_neg (by simp [hb])]

/-! ## `strtol` and `atoi` -/

/-- `INT_MAX`. -/
def intMax : Int := 2147483647

/-- `INT_MIN`. -/
def intMin : Int := -intMax - 1

/-- The digits that `strtol` reads. -/
theorem digitsVal_takeWhile (s : List UInt8) :
    digitsVal (s.takeWhile isdigit) = (leadingDigits s).getD 0 := by
  unfold leadingDigits
  split
  · next h => rw [h]; rfl
  · rfl

/-- `strtol` gives the integer that the string begins with, within the ends of `long`,
or 0. -/
theorem strtol_eq (s : List UInt8) :
    strtol s = max longMin (min longMax ((leadingInt s).getD 0)) := by
  unfold strtol leadingInt
  generalize s.dropWhile isspace = u
  split
  · next ds =>
      rw [digitsVal_takeWhile, leadingSigned]
      cases leadingDigits ds <;> simp only [longMin, longMax, Option.map, Option.getD] <;> omega
  · next ds =>
      rw [digitsVal_takeWhile, leadingSigned]
      cases leadingDigits ds <;> simp only [longMin, longMax, Option.map, Option.getD] <;> omega
  · next hminus hplus =>
      have hhead : ∀ b : UInt8, (∀ ds, u = b :: ds → False) → u.head? ≠ some b := by
        intro b hb h
        obtain ⟨ds, hds⟩ := List.head?_eq_some_iff.mp h
        exact hb ds hds
      rw [digitsVal_takeWhile, leadingSigned_of_head (hhead 45 hminus) (hhead 43 hplus)]
      cases leadingDigits u <;> simp only [longMin, longMax, Option.map, Option.getD] <;> omega

/-- `atoi` of a string whose integer, if it begins with one, is an `int`. -/
theorem atoi_eq {s : List UInt8} (h : ∀ n ∈ leadingInt s, intMin ≤ n ∧ n ≤ intMax) :
    atoi s = (leadingInt s).getD 0 := by
  have hrange : intMin ≤ (leadingInt s).getD 0 ∧ (leadingInt s).getD 0 ≤ intMax := by
    cases hs : leadingInt s with
    | none => decide
    | some n => exact h n hs
  rw [atoi, strtol_eq]
  generalize (leadingInt s).getD 0 = v at hrange ⊢
  simp only [intMin, intMax] at hrange
  have hclamp : max longMin (min longMax v) = v := by
    simp only [longMin, longMax]
    omega
  rw [hclamp]
  exact Int.bmod_eq_of_le (by omega) (by omega)

/-- What follows the number at the start of a string, where there may be none: what is left
behind white space, a sign and digits. -/
def afterInt (s : List UInt8) : List UInt8 :=
  match s.dropWhile isspace with
  | 45 :: ds => ds.dropWhile isdigit
  | 43 :: ds => ds.dropWhile isdigit
  | ds => ds.dropWhile isdigit

theorem takeWhile_append_of_dropWhile {p : UInt8 → Bool} {s : List UInt8} (h : s.dropWhile p ≠ [])
    (rest : List UInt8) : (s ++ rest).takeWhile p = s.takeWhile p := by
  have hlong : (s.takeWhile p).length ≠ s.length := fun hlen => by
    have hwhole := congrArg List.length (@List.takeWhile_append_dropWhile _ p s)
    rw [List.length_append, hlen] at hwhole
    exact h (List.eq_nil_of_length_eq_zero (by omega))
  rw [List.takeWhile_append, if_neg hlong]

/-- What stands behind the end of the number is not looked at. -/
theorem atoi_append {s : List UInt8} (h : afterInt s ≠ []) (rest : List UInt8) :
    atoi (s ++ rest) = atoi s := by
  have hspace : s.dropWhile isspace ≠ [] := by
    intro hnil
    rw [afterInt, hnil] at h
    exact h rfl
  have hdrop : (s ++ rest).dropWhile isspace = s.dropWhile isspace ++ rest := by
    rw [List.dropWhile_append, if_neg (by simpa using hspace)]
  rw [atoi, atoi, strtol, strtol, hdrop]
  rw [afterInt] at h
  generalize s.dropWhile isspace = u at hspace h
  obtain ⟨b, ds, rfl⟩ := List.exists_cons_of_ne_nil hspace
  by_cases hminus : b = 45
  · subst hminus
    simp only [List.cons_append, takeWhile_append_of_dropWhile h]
  · by_cases hplus : b = 43
    · subst hplus
      simp only [List.cons_append, takeWhile_append_of_dropWhile h]
    · have hdigits : (b :: ds).dropWhile isdigit ≠ [] := by simpa [hminus, hplus] using h
      have htake := takeWhile_append_of_dropWhile hdigits rest
      simp only [List.cons_append] at htake ⊢
      simp [hminus, hplus, htake]

/-! ## what `printf` writes -/

theorem numeral_printInt (n : Int) : Numeral (printInt n) n := by
  have hds : ∀ b ∈ decimal n.natAbs, isdigit b = true := fun b hb => isdigit_of_mem_decimal hb
  have hval := digitsVal_decimal n.natAbs
  unfold printInt
  split
  · next hneg =>
      have hnum := Numeral.minus (decimal_ne_nil n.natAbs) hds
      rw [hval] at hnum
      rwa [show -(n.natAbs : Int) = n by omega] at hnum
  · next hpos =>
      have hnum := Numeral.digits (decimal_ne_nil n.natAbs) hds
      rw [hval] at hnum
      rwa [show (n.natAbs : Int) = n by omega] at hnum

end CStr
