import Mathlib.Data.List.Basic
import Mathlib.Data.List.Perm.Basic
import Mathlib.Data.List.Nodup

/-!
# Reti.Lib.KeyTable

Tables kept as the live prefix of an array: entries are found by a linear
search on a key, appended at the end, changed in place, and removed by
overwriting the entry with the last one and dropping the last.

Seen through `lookup` such a table is a finite map, whatever order the
removals have left the entries in.  The lemmas below say what each operation
does to that map as long as the keys are pairwise different (`Keyed`).
-/

namespace KeyTable

variable [DecidableEq κ] {key : α → κ}

/-- The first entry with key `k`. -/
def lookup (key : α → κ) (l : List α) (k : κ) : Option α := l.find? fun e => key e = k

/-- The keys of the entries are pairwise different. -/
def Keyed (key : α → κ) (l : List α) : Prop := (l.map key).Nodup

/-- Remove entry `i`: overwrite it with the last entry, then drop the last. -/
def swapRemove (l : List α) (i : Nat) : List α :=
  match l.getLast? with
  | some e => (l.set i e).dropLast
  | none => []

/-! ## lookup -/

theorem lookup_cons (e : α) (l : List α) (k : κ) :
    lookup key (e :: l) k = if key e = k then some e else lookup key l k := by
  unfold lookup
  by_cases h : key e = k <;> simp [h]

theorem lookup_eq_none_iff {l : List α} {k : κ} :
    lookup key l k = none ↔ ∀ e ∈ l, key e ≠ k := by
  simp [lookup]

/-- An entry that is found is in the table and has the key asked for. -/
theorem mem_of_lookup {l : List α} {k : κ} {e : α} (h : lookup key l k = some e) :
    e ∈ l ∧ key e = k :=
  ⟨List.mem_of_find?_eq_some h, by simpa using List.find?_some h⟩

/-- With pairwise different keys, membership is lookup. -/
theorem lookup_eq_some_iff {l : List α} (hn : Keyed key l) {k : κ} {e : α} :
    lookup key l k = some e ↔ e ∈ l ∧ key e = k := by
  refine ⟨mem_of_lookup, ?_⟩
  rintro ⟨he, rfl⟩
  induction l with
  | nil => cases he
  | cons x l ih =>
      have hx : key x ∉ l.map key ∧ (l.map key).Nodup := List.nodup_cons.mp hn
      rw [lookup_cons]
      cases List.mem_cons.mp he with
      | inl h => rw [h, if_pos rfl]
      | inr h =>
          have hne : key x ≠ key e := fun hk => hx.1 (hk ▸ List.mem_map_of_mem h)
          rw [if_neg hne, ih hx.2 h]

/-- The order of the entries does not matter to `lookup`. -/
theorem lookup_perm {l l' : List α} (hp : l.Perm l') (hn : Keyed key l) (k : κ) :
    lookup key l k = lookup key l' k := by
  have hn' : Keyed key l' := (hp.map key).nodup_iff.mp hn
  apply Option.ext
  intro e
  rw [lookup_eq_some_iff hn, lookup_eq_some_iff hn', hp.mem_iff]

/-! ## linear search -/

/-- A successful search returns an index in range, of an entry with the key. -/
theorem getElem_of_findIdx? {l : List α} {k : κ} {i : Nat}
    (h : l.findIdx? (fun e => key e = k) = some i) : ∃ hi : i < l.length, key l[i] = k := by
  obtain ⟨hi, hk, _⟩ := List.findIdx?_eq_some_iff_getElem.mp h
  exact ⟨hi, by simpa using hk⟩

theorem findIdx?_eq_none_iff {l : List α} {k : κ} :
    l.findIdx? (fun e => key e = k) = none ↔ lookup key l k = none := by
  rw [List.findIdx?_eq_none_iff, lookup_eq_none_iff]
  simp

/-! ## append -/

/-- Appending an entry adds it to the map, unless its key was there already. -/
theorem lookup_append_singleton {l : List α} {e : α} (hf : lookup key l (key e) = none) (k : κ) :
    lookup key (l ++ [e]) k = if k = key e then some e else lookup key l k := by
  have hsplit : lookup key (l ++ [e]) k = (lookup key l k).or (lookup key [e] k) :=
    List.find?_append
  rw [hsplit, lookup_cons]
  by_cases hk : k = key e
  · rw [if_pos hk, hk, hf, if_pos rfl, Option.none_or]
  · rw [if_neg hk, if_neg (Ne.symm hk)]
    simp [lookup]

theorem keyed_append_singleton {l : List α} {e : α} (hn : Keyed key l)
    (hf : lookup key l (key e) = none) : Keyed key (l ++ [e]) := by
  unfold Keyed
  rw [List.map_append, List.map_singleton, List.nodup_append]
  refine ⟨hn, List.nodup_singleton _, ?_⟩
  intro k hk k' hk'
  obtain ⟨x, hx, rfl⟩ := List.mem_map.mp hk
  rw [List.mem_singleton.mp hk']
  exact lookup_eq_none_iff.mp hf x hx

/-! ## change in place -/

omit [DecidableEq κ] in
theorem map_key_modify {l : List α} {f : α → α} (hf : ∀ e, key (f e) = key e) (i : Nat) :
    (l.modify i f).map key = l.map key := by
  induction l generalizing i with
  | nil => cases i <;> rfl
  | cons x l ih => cases i <;> simp [hf, ih]

omit [DecidableEq κ] in
theorem keyed_modify {l : List α} {f : α → α} (hf : ∀ e, key (f e) = key e) (i : Nat) :
    Keyed key (l.modify i f) ↔ Keyed key l := by
  unfold Keyed
  rw [map_key_modify hf]

omit [DecidableEq κ] in
/-- Changing the entry that was just appended. -/
theorem modify_append_singleton (l : List α) (e : α) (f : α → α) :
    (l ++ [e]).modify l.length f = l ++ [f e] := by
  induction l with
  | nil => rfl
  | cons x l ih => simp [ih]

/-- Changing entry `i` in place, without touching its key, changes the map at
that key only. -/
theorem lookup_modify {l : List α} {f : α → α} (hf : ∀ e, key (f e) = key e) (hn : Keyed key l)
    {i : Nat} (hi : i < l.length) (k : κ) :
    lookup key (l.modify i f) k = if k = key l[i] then some (f l[i]) else lookup key l k := by
  induction l generalizing i with
  | nil => cases hi
  | cons x l ih =>
      have hx : key x ∉ l.map key ∧ (l.map key).Nodup := List.nodup_cons.mp hn
      cases i with
      | zero =>
          simp only [List.modify_zero_cons, List.getElem_cons_zero, lookup_cons, hf]
          by_cases hk : key x = k
          · rw [if_pos hk, if_pos hk.symm]
          · rw [if_neg hk, if_neg (Ne.symm hk), if_neg hk]
      | succ i =>
          have hi' : i < l.length := Nat.lt_of_succ_lt_succ hi
          simp only [List.modify_succ_cons, List.getElem_cons_succ, lookup_cons]
          rw [ih hx.2 hi']
          by_cases hk : key x = k
          · have hne : k ≠ key l[i] := fun h =>
              hx.1 (hk.trans h ▸ List.mem_map_of_mem (List.getElem_mem hi'))
            rw [if_pos hk, if_neg hne, if_pos hk]
          · rw [if_neg hk, if_neg hk]

/-! ## removal -/

/-- Up to order, swap-removal erases the entry. -/
theorem swapRemove_perm {l : List α} {i : Nat} (hi : i < l.length) :
    (swapRemove l i).Perm (l.eraseIdx i) := by
  have hne : l ≠ [] := List.ne_nil_of_length_pos (Nat.zero_lt_of_lt hi)
  obtain ⟨init, e, rfl⟩ := List.eq_nil_or_concat l |>.resolve_left hne
  simp only [List.concat_eq_append, List.length_append, List.length_singleton] at hi
  simp only [swapRemove, List.concat_eq_append, List.getLast?_append, List.getLast?_singleton,
    Option.some_or]
  by_cases hlt : i < init.length
  · -- an inner entry: the last one takes its place
    rw [List.set_append_left _ _ hlt, List.dropLast_concat, List.eraseIdx_append_of_lt_length hlt]
    exact (List.set_perm_cons_eraseIdx hlt e).trans (List.perm_append_singleton e _).symm
  · -- the last entry itself: it is overwritten with itself and dropped
    have hii : i = init.length := by omega
    subst hii
    rw [List.set_append_right _ _ (Nat.le_refl _),
      List.eraseIdx_append_of_length_le (Nat.le_refl _)]
    simp

theorem length_swapRemove {l : List α} {i : Nat} (hi : i < l.length) :
    (swapRemove l i).length = l.length - 1 := by
  rw [(swapRemove_perm hi).length_eq, List.length_eraseIdx_of_lt hi]

omit [DecidableEq κ] in
theorem keyed_eraseIdx {l : List α} (hn : Keyed key l) (i : Nat) : Keyed key (l.eraseIdx i) :=
  List.Nodup.sublist ((List.eraseIdx_sublist l i).map key) hn

omit [DecidableEq κ] in
theorem keyed_swapRemove {l : List α} (hn : Keyed key l) {i : Nat} (hi : i < l.length) :
    Keyed key (swapRemove l i) :=
  ((swapRemove_perm hi).map key).nodup_iff.mpr (keyed_eraseIdx hn i)

theorem lookup_eraseIdx {l : List α} (hn : Keyed key l) {i : Nat} (hi : i < l.length) (k : κ) :
    lookup key (l.eraseIdx i) k = if k = key l[i] then none else lookup key l k := by
  induction l generalizing i with
  | nil => cases hi
  | cons x l ih =>
      have hx : key x ∉ l.map key ∧ (l.map key).Nodup := List.nodup_cons.mp hn
      cases i with
      | zero =>
          simp only [List.eraseIdx_cons_zero, List.getElem_cons_zero, lookup_cons]
          by_cases hk : k = key x
          · rw [if_pos hk, lookup_eq_none_iff]
            intro e he hek
            exact hx.1 (hk ▸ hek ▸ List.mem_map_of_mem he)
          · rw [if_neg hk, if_neg (Ne.symm hk)]
      | succ i =>
          have hi' : i < l.length := Nat.lt_of_succ_lt_succ hi
          simp only [List.eraseIdx_cons_succ, List.getElem_cons_succ, lookup_cons]
          rw [ih hx.2 hi']
          by_cases hk : key x = k
          · have hne : k ≠ key l[i] := fun h =>
              hx.1 (hk.trans h ▸ List.mem_map_of_mem (List.getElem_mem hi'))
            rw [if_pos hk, if_neg hne, if_pos hk]
          · rw [if_neg hk, if_neg hk]

/-- Swap-removal takes the removed entry's key out of the map and leaves every
other key alone, wherever the last entry has been moved to. -/
theorem lookup_swapRemove {l : List α} (hn : Keyed key l) {i : Nat} (hi : i < l.length) (k : κ) :
    lookup key (swapRemove l i) k = if k = key l[i] then none else lookup key l k := by
  rw [lookup_perm (swapRemove_perm hi) (keyed_swapRemove hn hi), lookup_eraseIdx hn hi]

/-! ## rosters -/

/-- Append `e`, unless its key is there already or the table holds `cap`
entries. -/
def join (key : α → κ) (cap : Nat) (l : List α) (e : α) : List α :=
  if l.any fun x => key x = key e then l
  else if l.length < cap then l ++ [e]
  else l

/-- The three outcomes of `join`. -/
theorem join_cases (key : α → κ) (cap : Nat) (l : List α) (e : α) :
    join key cap l e = l ∨
      (∀ x ∈ l, key x ≠ key e) ∧ l.length < cap ∧ join key cap l e = l ++ [e] := by
  unfold join
  by_cases hk : l.any fun x => key x = key e
  · rw [if_pos hk]
    exact Or.inl rfl
  · by_cases hroom : l.length < cap
    · rw [if_neg hk, if_pos hroom]
      exact Or.inr ⟨by simpa using hk, hroom, rfl⟩
    · rw [if_neg hk, if_neg hroom]
      exact Or.inl rfl

/-- A roster only grows at its end. -/
theorem prefix_join (cap : Nat) (l : List α) (e : α) : l <+: join key cap l e := by
  obtain h | ⟨-, -, h⟩ := join_cases key cap l e
  · exact ⟨[], by rw [h, List.append_nil]⟩
  · exact ⟨[e], h.symm⟩

theorem length_join_le {cap : Nat} {l : List α} (hl : l.length ≤ cap) (e : α) :
    (join key cap l e).length ≤ cap := by
  obtain h | ⟨-, hroom, h⟩ := join_cases key cap l e
  · rwa [h]
  · rw [h, List.length_append, List.length_singleton]
    exact hroom

/-- With room for one more, the key is there afterwards. -/
theorem exists_mem_join {cap : Nat} {l : List α} (hroom : l.length < cap) (e : α) :
    ∃ x ∈ join key cap l e, key x = key e := by
  unfold join
  by_cases hk : l.any fun x => key x = key e
  · rw [if_pos hk]
    simpa using hk
  · rw [if_neg hk, if_pos hroom]
    exact ⟨e, List.mem_append_right l (List.mem_singleton_self e), rfl⟩

theorem keyed_join {l : List α} (hn : Keyed key l) (cap : Nat) (e : α) :
    Keyed key (join key cap l e) := by
  obtain h | ⟨hnew, -, h⟩ := join_cases key cap l e
  · rwa [h]
  · rw [h]
    exact keyed_append_singleton hn (lookup_eq_none_iff.mpr hnew)

/-- A roster seen through a map that keeps the keys is a roster. -/
theorem map_join {key' : β → κ} {f : α → β} (hf : ∀ e, key' (f e) = key e) (cap : Nat) (l : List α)
    (e : α) : (join key cap l e).map f = join key' cap (l.map f) (f e) := by
  have hany : (l.map f).any (fun x => key' x = key' (f e)) = l.any fun x => key x = key e := by
    simp only [List.any_map, Function.comp_def, hf]
  unfold join
  rw [hany, List.length_map]
  split
  · rfl
  · split
    · rw [List.map_append, List.map_singleton]
    · rfl

/-- Nobody joins, and there is nobody else: the roster is one entry, with that key. -/
theorem join_eq_self_and_others_iff {cap : Nat} (hcap : 0 < cap) {l : List α} (hn : Keyed key l)
    (e : α) :
    join key cap l e = l ∧ ((join key cap l e).filter fun x => key x ≠ key e) = [] ↔
      l.map key = [key e] := by
  constructor
  · rintro ⟨hjoin, hothers⟩
    rw [hjoin] at hothers
    have hall : ∀ x ∈ l, key x = key e := by simpa using List.filter_eq_nil_iff.mp hothers
    cases l with
    | nil =>
        rw [join, if_neg (by simp), if_pos (by simpa using hcap)] at hjoin
        cases hjoin
    | cons x l =>
        cases l with
        | nil => rw [List.map_singleton, hall x List.mem_cons_self]
        | cons y l =>
            have hx := hall x List.mem_cons_self
            have hy := hall y (List.mem_cons_of_mem x List.mem_cons_self)
            simp [Keyed, hx, hy] at hn
  · intro hl
    obtain ⟨x, rfl, hx⟩ := List.map_eq_singleton_iff.mp hl
    simp [join, hx]

/-- Selecting by the key of an entry selects that entry, once. -/
theorem filter_key_eq {l : List α} (hn : Keyed key l) {e : α} (he : e ∈ l) :
    l.filter (fun x => key x = key e) = [e] := by
  induction l with
  | nil => cases he
  | cons x l ih =>
      have hx : key x ∉ l.map key ∧ (l.map key).Nodup := List.nodup_cons.mp hn
      cases List.mem_cons.mp he with
      | inl h =>
          subst h
          rw [List.filter_cons_of_pos (by simp), List.filter_eq_nil_iff.mpr]
          intro y hy hk
          exact hx.1 (of_decide_eq_true hk ▸ List.mem_map_of_mem hy)
      | inr h =>
          have hne : key x ≠ key e := fun hk => hx.1 (hk ▸ List.mem_map_of_mem h)
          rw [List.filter_cons_of_neg (by simpa using hne), ih hx.2 h]

/-- Everybody but the holder of key `k`: each other entry is still there once. -/
theorem filter_others {l : List α} (hn : Keyed key l) {e : α} (he : e ∈ l) {k : κ}
    (hk : key e ≠ k) :
    (l.filter fun x => key x ≠ k).filter (fun x => key x = key e) = [e] := by
  rw [List.filter_comm, filter_key_eq hn he]
  simp [hk]

end KeyTable
