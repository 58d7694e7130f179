import Reti.SortServer.Server

/-!
# Reti.SortServer.Segmentation

The answer of the sorting server depends on where the network cuts the request:
`recv` is called once, and what comes later is never read.  The answer is the
same as for the whole request exactly if the part that was read has all its
fields, and the last one already has the value it has in the whole request.
-/

namespace Reti.SortServer

open CStr

/-! ## lists that differ at their end -/

/-- Two lists of one length, the one starting like the other but for its last
element. -/
theorem eq_or_last_of_dropLast {l m : List α} (h : l.dropLast <+: m) (hlen : l.length = m.length) :
    l = m ∨ ∃ p a b, l = p ++ [a] ∧ m = p ++ [b] := by
  obtain ⟨r, rfl⟩ := h
  rw [List.length_append, List.length_dropLast] at hlen
  cases List.eq_nil_or_concat l with
  | inl hl =>
      subst hl
      rw [List.length_nil, Nat.zero_sub, Nat.zero_add] at hlen
      rw [List.eq_nil_of_length_eq_zero hlen.symm]
      exact Or.inl rfl
  | inr hl =>
      obtain ⟨p, a, rfl⟩ := hl
      rw [List.concat_eq_append, List.length_append, List.length_singleton] at hlen
      obtain ⟨b, rfl⟩ := List.length_eq_one_iff.mp (show r.length = 1 by omega)
      exact Or.inr ⟨p, a, b, by rw [List.concat_eq_append], by simp⟩

theorem eq_iff_of_dropLast {l m : List α} (h : l.dropLast <+: m) :
    l = m ↔ l.length = m.length ∧ l.getLast? = m.getLast? := by
  constructor
  · intro hlm
    rw [hlm]
    exact ⟨rfl, rfl⟩
  · intro hlast
    obtain hlm | ⟨p, a, b, rfl, rfl⟩ := eq_or_last_of_dropLast h hlast.1
    · exact hlm
    · have hab : a = b := by simpa using hlast.2
      rw [hab]

theorem perm_iff_of_dropLast {l m : List α} (h : l.dropLast <+: m) : l.Perm m ↔ l = m := by
  constructor
  · intro hperm
    obtain hlm | ⟨p, a, b, rfl, rfl⟩ := eq_or_last_of_dropLast h hperm.length_eq
    · exact hlm
    · have hab : [a].Perm [b] := (List.perm_append_left_iff p).mp hperm
      rw [List.singleton_perm_singleton.mp hab]
  · intro hlm
    rw [hlm]

/-! ## the answer says what the numbers were -/

/-- The parts of the answer between its commas. -/
theorem rebuild_cons (n : Int) (ns : List Int) :
    rebuild (n :: ns) = [44].intercalate (printInt n :: ns.map fun m => 32 :: printInt m) := by
  induction ns generalizing n with
  | nil => simp [rebuild]
  | cons m ns ih =>
      have hsep : ascii ", " = [44, 32] := by decide
      rw [rebuild, ih, hsep]
      cases ns <;> simp [List.intercalate]

theorem comma_not_mem_printInt (n : Int) : 44 ∉ printInt n := by
  intro h
  cases mem_printInt h with
  | inl h => exact absurd h (by decide)
  | inr h => exact absurd h (by decide)

theorem splitOn_rebuild_cons (n : Int) (ns : List Int) :
    (rebuild (n :: ns)).splitOn 44 = printInt n :: ns.map fun m => 32 :: printInt m := by
  rw [rebuild_cons, List.splitOn_intercalate 44 ?_ (List.cons_ne_nil _ _)]
  simp [comma_not_mem_printInt]

theorem rebuild_injective {ns ms : List Int} (hn : ns ≠ []) (hm : ms ≠ [])
    (h : rebuild ns = rebuild ms) : ns = ms := by
  obtain ⟨n, ns, rfl⟩ := List.exists_cons_of_ne_nil hn
  obtain ⟨m, ms, rfl⟩ := List.exists_cons_of_ne_nil hm
  have hsplit := congrArg (List.splitOn 44) h
  rw [splitOn_rebuild_cons, splitOn_rebuild_cons, List.cons.injEq] at hsplit
  have hinj : Function.Injective fun k : Int => (32 :: printInt k : List UInt8) := by
    intro k l hkl
    exact printInt_injective (List.cons.inj hkl).2
  rw [printInt_injective hsplit.1, List.map_injective_iff.mpr hinj hsplit.2]

/-- Two texts are answered alike exactly if `qsort` makes the same of their
numbers. -/
theorem answer_eq_iff (qsort : Qsort) (s t : List UInt8) :
    answer qsort s = answer qsort t ↔ qsort.sort (parse s) = qsort.sort (parse t) := by
  have hlen : ∀ ns, (qsort.sort ns).length = ns.length := fun ns => (qsort.perm ns).length_eq
  have hnil : ∀ ns, ns.length = 0 → qsort.sort ns = [] := by
    intro ns h0
    exact List.eq_nil_of_length_eq_zero ((hlen ns).trans h0)
  have hne : ∀ ns, ¬ns.length = 0 → qsort.sort ns ≠ [] := by
    intro ns h0 h
    exact h0 ((hlen ns).symm.trans (congrArg List.length h))
  simp only [answer]
  by_cases hs : (parse s).length = 0 <;> by_cases ht : (parse t).length = 0
  · simp [hs, ht, hnil]
  · simp [hs, ht, hnil _ hs, (hne _ ht).symm]
  · simp [hs, ht, hnil _ ht, hne _ hs]
  · rw [if_neg hs, if_neg ht, Option.some.injEq]
    constructor
    · exact rebuild_injective (hne _ hs) (hne _ ht)
    · exact congrArg rebuild

/-! ## cutting the request -/

/-- The part that is read has the fields of the whole request, and the last one
has its value. -/
def FieldsArrived (first request : List UInt8) : Prop :=
  (fields comma (cstr first)).length = (fields comma (cstr request)).length ∧
    (fields comma (cstr first)).getLast?.map atoi = (fields comma (cstr request)).getLast?.map atoi

instance (first request : List UInt8) : Decidable (FieldsArrived first request) :=
  inferInstanceAs (Decidable (_ ∧ _))

theorem prefix_cstr_cstr {s t : List UInt8} (h : s <+: t) : cstr s <+: cstr t := by
  rw [prefix_cstr_iff (zero_not_mem_cstr s)]
  exact (List.takeWhile_prefix _).trans h

/-- The numbers of the part are those of the request but for the last. -/
theorem parse_dropLast {first request : List UInt8} (h : first <+: request) :
    (parse (cstr first)).dropLast <+: parse (cstr request) := by
  rw [parse_eq_fields, parse_eq_fields, ← List.map_dropLast]
  exact (prefix_fields_dropLast (prefix_cstr_cstr h)).map atoi

theorem parse_eq_iff {first request : List UInt8} (h : first <+: request) :
    parse (cstr first) = parse (cstr request) ↔ FieldsArrived first request := by
  rw [eq_iff_of_dropLast (parse_dropLast h), FieldsArrived]
  simp [parse_eq_fields]

/-- **Segmentation**: cut into chunks, a request of at most `BUFSIZE - 1` bytes is
answered as when it is read whole exactly if its fields have arrived with the first
chunk, whatever the buffer held before. -/
theorem segmentation_iff (qsort : Qsort) (buffer buffer' : Buf bufsize) (first : List UInt8)
    (rest : List (List UInt8)) (hlen : (first :: rest).flatten.length ≤ bufsize - 1) :
    serve qsort buffer ((first :: rest).map .data) =
        serve qsort buffer' [.data (first :: rest).flatten] ↔
      FieldsArrived first (first :: rest).flatten := by
  have hpre : first <+: (first :: rest).flatten := List.prefix_append first rest.flatten
  have hwhole : (first :: rest).flatten.length < bufsize := Nat.lt_of_le_pred (by decide) hlen
  have hfirst : first.length < bufsize := Nat.lt_of_le_of_lt hpre.length_le hwhole
  show answer qsort (receive buffer first).text =
      answer qsort (receive buffer' (first :: rest).flatten).text ↔ _
  rw [text_receive buffer hfirst, text_receive buffer' hwhole, answer_eq_iff, ← parse_eq_iff hpre]
  constructor
  · intro hsort
    have hperm := qsort.perm (parse (cstr first))
    rw [hsort] at hperm
    exact (perm_iff_of_dropLast (parse_dropLast hpre)).mp (hperm.symm.trans (qsort.perm _))
  · intro hparse
    rw [hparse]

/-- The newline of a request may come late. -/
theorem segmentation_newline :
    serve insertionSort (Buf.zero bufsize) ([ascii "2, 1", [newline]].map .data) =
      serve insertionSort (Buf.zero bufsize) [.data [ascii "2, 1", [newline]].flatten] :=
  (segmentation_iff insertionSort (Buf.zero bufsize) (Buf.zero bufsize) (ascii "2, 1") [[newline]]
    (by decide)).mpr (by decide)

/-- Cut before the comma, `2, 1` is answered with `2`. -/
theorem segmentation_fails :
    serve insertionSort (Buf.zero bufsize) [.data (ascii "2"), .data (ascii ", 1")] =
        some (ascii "2") ∧
      serve insertionSort (Buf.zero bufsize) [.data (ascii "2, 1")] = some (ascii "1, 2") := by
  constructor
  · show answer _ (receive _ _).text = _
    rw [text_receive _ (by decide), answer, parse_eq_fields]
    decide +kernel
  · show answer _ (receive _ _).text = _
    rw [text_receive _ (by decide), answer, parse_eq_fields]
    decide +kernel

end Reti.SortServer
