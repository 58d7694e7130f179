import Mathlib.Data.List.Basic
import Mathlib.Data.List.TakeWhile
import Mathlib.Data.List.Nodup

/-!
# Reti.Lib.SlotArray

Arrays of a fixed length whose free cells hold a marker.  An entry is added by
overwriting the first free cell and is lost if there is none, so an array that
nothing is removed from holds the first entries in the order they came.
-/

namespace SlotArray

variable [DecidableEq α] {z : α}

/-- An array of `n` cells holding the entries of `l` in order, as far as they
fit, and the marker `z` in the cells that are left. -/
def slots (n : Nat) (z : α) (l : List α) : List α :=
  l.take n ++ List.replicate (n - l.length) z

/-- Overwriting the first free cell appends an entry. -/
theorem replace_slots {l : List α} (hz : z ∉ l) (n : Nat) (x : α) :
    (slots n z l).replace z x = slots n z (l ++ [x]) := by
  have hzt : z ∉ l.take n := fun h => hz (List.mem_of_mem_take h)
  unfold slots
  by_cases hn : l.length < n
  · obtain ⟨k, hk⟩ : ∃ k, n - l.length = k + 1 := ⟨n - l.length - 1, by omega⟩
    have hk' : n - (l ++ [x]).length = k := by
      rw [List.length_append, List.length_singleton]
      omega
    rw [List.replace_append_right hzt, hk, hk', List.replicate_succ, List.replace_cons_self,
      List.take_of_length_le (Nat.le_of_lt hn),
      List.take_of_length_le (by simpa using Nat.succ_le_of_lt hn)]
    simp
  · have hfull : n - l.length = 0 := by omega
    have hfull' : n - (l ++ [x]).length = 0 := by
      rw [List.length_append]
      omega
    rw [hfull, hfull', List.replicate_zero, List.append_nil, List.append_nil,
      List.replace_of_not_mem hzt, List.take_append_of_le_length (Nat.le_of_not_lt hn)]

/-- The cells in use hold the entries. -/
theorem filter_slots {l : List α} (hz : z ∉ l) (n : Nat) :
    (slots n z l).filter (· ≠ z) = l.take n := by
  have hfree : (List.replicate (n - l.length) z).filter (· ≠ z) = [] := by simp
  rw [slots, List.filter_append, hfree, List.append_nil, List.filter_eq_self]
  intro x hx
  have hne : x ≠ z := fun h => hz (h ▸ List.mem_of_mem_take hx)
  simpa using hne

/-- A loop over the first `n` entries that stops at the first one in `bad`
reaches an entry exactly if it is one of the `n` and no entry of `bad` is at or
before it. -/
theorem mem_takeWhile_take_iff {l bad : List α} {n : Nat} {d : α} (hd : d ∈ l) :
    d ∈ (l.take n).takeWhile (· ∉ bad) ↔
      l.idxOf d < n ∧ ∀ x ∈ bad, l.idxOf d < l.idxOf x := by
  induction l generalizing n with
  | nil => cases hd
  | cons y l ih =>
      cases n with
      | zero => simp
      | succ n =>
          rw [List.take_succ_cons]
          by_cases hy : y ∈ bad
          · rw [List.takeWhile_cons_of_neg (by simpa using hy)]
            simp only [List.not_mem_nil, false_iff, not_and, not_forall]
            exact fun _ => ⟨y, hy, by simp⟩
          · have hbad : ∀ x ∈ bad, (y :: l).idxOf x = l.idxOf x + 1 := by
              intro x hx
              have hxy : y ≠ x := fun h => hy (h ▸ hx)
              exact List.idxOf_cons_ne l hxy
            have hlater : (∀ x ∈ bad, (y :: l).idxOf d < (y :: l).idxOf x) ↔
                ∀ x ∈ bad, (y :: l).idxOf d < l.idxOf x + 1 :=
              forall₂_congr fun x hx => by rw [hbad x hx]
            rw [List.takeWhile_cons_of_pos (by simpa using hy), List.mem_cons, hlater]
            by_cases hdy : d = y
            · subst hdy
              simp
            · have hd' : d ∈ l := (List.mem_cons.mp hd).resolve_left hdy
              rw [or_iff_right hdy, ih hd', List.idxOf_cons_ne l (Ne.symm hdy)]
              simp only [Nat.succ_eq_add_one, Nat.add_lt_add_iff_right]

/-- Whatever is not behind an entry of a beginning is in the beginning too. -/
theorem mem_of_idxOf_le {l m : List α} (h : l <+: m) {a b : α} (hb : b ∈ l)
    (hab : m.idxOf a ≤ m.idxOf b) : a ∈ l := by
  have hlt : m.idxOf a < l.length := by
    rw [← h.idxOf_eq_of_mem hb] at hab
    exact Nat.lt_of_le_of_lt hab (List.idxOf_lt_length_of_mem hb)
  have hlt' : m.idxOf a < m.length := Nat.lt_of_lt_of_le hlt h.length_le
  have ha : l[m.idxOf a] = a := by rw [h.getElem hlt, List.getElem_idxOf hlt']
  exact ha ▸ List.getElem_mem hlt

end SlotArray
