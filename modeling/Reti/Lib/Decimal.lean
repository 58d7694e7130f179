import Reti.Lib.CString
import Mathlib.Algebra.Group.Nat.Defs

/-!
# Reti.Lib.Decimal

Numbers as `printf` writes them: `%d` of natural numbers and of integers, how
many bytes that takes, and that the digits say which number it was.
-/

namespace CStr

/-- What `%d` writes of a number that is not negative. -/
def decimal (n : Nat) : List UInt8 := (Nat.toDigits 10 n).map fun c => c.toNat.toUInt8

/-- What `%d` writes of an `int`. -/
def printInt (n : Int) : List UInt8 :=
  if n < 0 then 45 :: decimal n.natAbs else decimal n.natAbs

example : printInt (-120) = ascii "-120" := by decide

/-! ## the digits -/

/-- The last digit stands apart from the number before it. -/
theorem decimal_eq (n : Nat) :
    decimal n = (if n < 10 then [] else decimal (n / 10)) ++ [(48 + n % 10).toUInt8] := by
  have hdigit : ∀ d, d < 10 → (d.digitChar.toNat).toUInt8 = (48 + d).toUInt8 := by
    intro d hd
    rw [Nat.toNat_digitChar_of_lt_ten hd]
  unfold decimal
  rw [Nat.toDigits_eq_if (by decide)]
  by_cases hn : n < 10
  · rw [if_pos hn, if_pos hn, List.map_singleton, hdigit n hn, Nat.mod_eq_of_lt hn, List.nil_append]
  · rw [if_neg hn, if_neg hn, List.map_append, List.map_singleton,
      hdigit _ (Nat.mod_lt n (by decide))]

theorem decimal_ne_nil (n : Nat) : decimal n ≠ [] := by
  rw [decimal_eq]
  simp

theorem toNat_digit {d : Nat} (hd : d < 10) : ((48 + d).toUInt8).toNat = 48 + d :=
  UInt8.toNat_ofNat_of_lt' (by simp [UInt8.size]; omega)

theorem isdigit_of_mem_decimal {n : Nat} {b : UInt8} (hb : b ∈ decimal n) : isdigit b = true := by
  induction n using Nat.strong_induction_on with
  | _ n ih =>
      rw [decimal_eq] at hb
      cases List.mem_append.mp hb with
      | inl h =>
          by_cases hn : n < 10
          · simp [hn] at h
          · rw [if_neg hn] at h
            exact ih (n / 10) (by omega) h
      | inr h =>
          have hd : n % 10 < 10 := Nat.mod_lt n (by decide)
          have hval := toNat_digit hd
          rw [← List.mem_singleton.mp h] at hval
          simp only [isdigit, UInt8.le_iff_toNat_le, Bool.and_eq_true, decide_eq_true_eq]
          simp
          omega

theorem digitsVal_append_singleton (ds : List UInt8) (d : UInt8) :
    digitsVal (ds ++ [d]) = 10 * digitsVal ds + (d.toNat - 48) := by
  simp [digitsVal, List.foldl_append]

/-- Reading the digits gives the number back. -/
theorem digitsVal_decimal (n : Nat) : digitsVal (decimal n) = n := by
  induction n using Nat.strong_induction_on with
  | _ n ih =>
      rw [decimal_eq, digitsVal_append_singleton, toNat_digit (Nat.mod_lt n (by decide))]
      by_cases hn : n < 10
      · rw [if_pos hn]
        show 10 * 0 + (48 + n % 10 - 48) = n
        omega
      · rw [if_neg hn, ih (n / 10) (by omega)]
        omega

theorem decimal_injective {m n : Nat} (h : decimal m = decimal n) : m = n := by
  rw [← digitsVal_decimal m, h, digitsVal_decimal]

/-- How many digits a number takes. -/
theorem length_decimal_le_iff (n : Nat) {k : Nat} (hk : 0 < k) :
    (decimal n).length ≤ k ↔ n < 10 ^ k := by
  rw [decimal, List.length_map, Nat.length_toDigits_le_iff (by decide) hk]

/-! ## the sign -/

/-- The bytes of an `int` are digits and the minus sign. -/
theorem mem_printInt {n : Int} {b : UInt8} (hb : b ∈ printInt n) : b = 45 ∨ isdigit b = true := by
  unfold printInt at hb
  split at hb
  · cases List.mem_cons.mp hb with
    | inl h => exact Or.inl h
    | inr h => exact Or.inr (isdigit_of_mem_decimal h)
  · exact Or.inr (isdigit_of_mem_decimal hb)

theorem zero_not_mem_printInt (n : Int) : 0 ∉ printInt n := by
  intro h
  cases mem_printInt h with
  | inl h => exact absurd h (by decide)
  | inr h => exact absurd h (by decide)

theorem printInt_natCast (n : Nat) : printInt n = decimal n := by
  rw [printInt, if_neg (by omega), Int.natAbs_natCast]

theorem printInt_injective {m n : Int} (h : printInt m = printInt n) : m = n := by
  have hsign : ∀ k l : Nat, 45 :: decimal k ≠ decimal l := by
    intro k l hkl
    have hmem : (45 : UInt8) ∈ decimal l := hkl ▸ List.mem_cons_self
    exact absurd (isdigit_of_mem_decimal hmem) (by decide)
  unfold printInt at h
  by_cases hm : m < 0 <;> by_cases hn : n < 0
  · rw [if_pos hm, if_pos hn] at h
    have habs := decimal_injective (List.cons.inj h).2
    omega
  · rw [if_pos hm, if_neg hn] at h
    exact absurd h (hsign _ _)
  · rw [if_neg hm, if_pos hn] at h
    exact absurd h.symm (hsign _ _)
  · rw [if_neg hm, if_neg hn] at h
    have habs := decimal_injective h
    omega

end CStr
