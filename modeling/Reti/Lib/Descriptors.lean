import Mathlib.Data.Finset.Card

/-!
# Reti.Lib.Descriptors

The table of open descriptors of a process.  A new descriptor is the lowest number that is
not open, and there is none once the numbers below the limit are used up; a process that
is forked starts with the table of its parent.
-/

namespace Descriptors

/-- The numbers of the open descriptors. -/
abbrev Table := Finset Nat

/-- The lowest number that is not open. -/
def lowest (t : Table) : Nat := ((List.range (t.card + 1)).find? fun n => n ∉ t).getD t.card

/-- A new descriptor, if there is one below the limit. -/
def allocate (limit : Nat) (t : Table) : Option (Nat × Table) :=
  if lowest t < limit then some (lowest t, insert (lowest t) t) else none

/-- `close`; a number that is not open is left alone. -/
def close (t : Table) (fd : Nat) : Table := t.erase fd

/-- One of the first numbers is not open. -/
theorem exists_not_mem (t : Table) : ∃ n ∈ List.range (t.card + 1), n ∉ t := by
  by_contra h
  push Not at h
  have hsub : Finset.range (t.card + 1) ⊆ t := fun n hn => h n (by simpa using hn)
  have hcard := Finset.card_le_card hsub
  rw [Finset.card_range] at hcard
  omega

theorem find?_lowest (t : Table) :
    (List.range (t.card + 1)).find? (fun n => n ∉ t) = some (lowest t) := by
  obtain ⟨n, hn, hnt⟩ := exists_not_mem t
  have hsome : ((List.range (t.card + 1)).find? fun n => n ∉ t).isSome := by
    rw [List.find?_isSome]
    exact ⟨n, hn, by simpa using hnt⟩
  obtain ⟨m, hm⟩ := Option.isSome_iff_exists.mp hsome
  rw [lowest, hm, Option.getD_some]

theorem lowest_not_mem (t : Table) : lowest t ∉ t := by
  simpa using List.find?_some (find?_lowest t)

theorem allocate_eq_some {limit : Nat} {t t' : Table} {fd : Nat}
    (h : allocate limit t = some (fd, t')) :
    fd = lowest t ∧ fd < limit ∧ fd ∉ t ∧ t' = insert fd t := by
  unfold allocate at h
  split at h
  · rename_i hlt
    obtain ⟨rfl, rfl⟩ := Prod.mk.inj (Option.some.inj h)
    exact ⟨rfl, hlt, lowest_not_mem t, rfl⟩
  · cases h

/-- What has just been opened can be closed again. -/
theorem close_insert {t : Table} {fd : Nat} (h : fd ∉ t) : close (insert fd t) fd = t :=
  Finset.erase_insert h

end Descriptors
