import Reti.SortServer.Segmentation
import Reti.Lib.Numeral

/-!
# Reti.SortServer.Parser

What the sorting server reads of a request.  `strtok` finds the fields that are not
empty, and `atoi` makes a number of each: the integer that the field begins with, or
0 if it begins with none.
-/

namespace Reti.SortServer

open CStr

/-! ## the fields of a request -/

/-- The parts of a request between its commas. -/
def parts (request : List UInt8) : List (List UInt8) := request.splitOn 44

/-- The integers that the parts begin with. -/
def integers (request : List UInt8) : List Int := (parts request).filterMap leadingInt

theorem fields_eq_parts (request : List UInt8) :
    fields comma request = (parts request).filter fun f => f ≠ [] := by
  have hcomma : (fun b : UInt8 => decide (b ∈ comma)) = (· == 44) := by
    funext b
    have hlit : comma = [44] := by decide
    rw [hlit, Bool.eq_iff_iff]
    simp
  rw [fields, hcomma, parts, List.splitOn]

theorem integers_eq_fields (request : List UInt8) :
    integers request = (fields comma request).filterMap leadingInt := by
  have hnil : leadingInt [] = none := by decide
  rw [integers, fields_eq_parts, List.filterMap_filter]
  apply List.filterMap_congr
  intro f _
  by_cases hf : f = []
  · simp [hf, hnil]
  · simp [hf]

/-- An `int`. -/
def IsInt (n : Int) : Prop := intMin ≤ n ∧ n ≤ intMax

instance (n : Int) : Decidable (IsInt n) := inferInstanceAs (Decidable (_ ∧ _))

/-- The numbers that are read: the integers of the fields, and 0 for a field that
begins with none. -/
theorem parse_eq {request : List UInt8} (h : ∀ n ∈ integers request, IsInt n) :
    parse request = (fields comma request).map fun f => (leadingInt f).getD 0 := by
  rw [parse_eq_fields]
  apply List.map_congr_left
  intro f hf
  apply atoi_eq
  intro n hn
  apply h
  rw [integers_eq_fields]
  exact List.mem_filterMap.mpr ⟨f, hf, hn⟩

/-! ## numbers that nobody sent -/

/-- The reply to a request: it is sent exactly if the request has an integer, and made
of its integers. -/
structure NothingInvented (qsort : Qsort) (buffer : Buf bufsize) (request : List UInt8) : Prop where
  sent : (serve qsort buffer [.data request]).isSome ↔ ∃ f ∈ parts request, (leadingInt f).isSome
  made : ∀ reply ∈ serve qsort buffer [.data request],
    ∃ ms, reply = rebuild ms ∧ ms.Perm (integers request)

/-- Every field of the request begins with an integer. -/
def AllIntegers (request : List UInt8) : Prop :=
  ∀ f ∈ parts request, f ≠ [] → (leadingInt f).isSome

instance (request : List UInt8) : Decidable (AllIntegers request) :=
  inferInstanceAs (Decidable (∀ f ∈ _, _))

theorem allIntegers_iff (request : List UInt8) :
    AllIntegers request ↔ ∀ f ∈ fields comma request, (leadingInt f).isSome := by
  rw [fields_eq_parts]
  simp [AllIntegers]

/-- The reply to a request without NULs that fits the buffer. -/
theorem serve_eq (qsort : Qsort) (buffer : Buf bufsize) {request : List UInt8} (h0 : 0 ∉ request)
    (hlen : request.length ≤ bufsize - 1) :
    serve qsort buffer [.data request] = answer qsort request := by
  have hlt : request.length < bufsize := Nat.lt_of_le_pred (by decide) hlen
  rw [serve, text_receive buffer hlt, cstr_of_not_mem h0]

theorem answer_eq_some_iff (qsort : Qsort) (text reply : List UInt8) :
    answer qsort text = some reply ↔
      parse text ≠ [] ∧ reply = rebuild (qsort.sort (parse text)) := by
  simp only [answer]
  by_cases h : (parse text).length = 0
  · simp [List.eq_nil_of_length_eq_zero h]
  · rw [if_neg h]
    simp [List.ne_nil_of_length_pos (Nat.pos_of_ne_zero h), eq_comm]

/-- There is an integer exactly if there is a part that begins with one. -/
theorem integers_ne_nil_iff (request : List UInt8) :
    integers request ≠ [] ↔ ∃ f ∈ parts request, (leadingInt f).isSome := by
  rw [integers, ne_eq, List.filterMap_eq_nil_iff]
  simp only [not_forall, ← Option.isSome_iff_ne_none, exists_prop]

/-- A request of integers is read as its integers. -/
theorem parse_of_allIntegers {request : List UInt8} (h : ∀ n ∈ integers request, IsInt n)
    (hall : AllIntegers request) : parse request = integers request := by
  rw [parse_eq h, integers_eq_fields, ← List.filterMap_eq_map]
  apply List.filterMap_congr
  intro f hf
  obtain ⟨n, hn⟩ := Option.isSome_iff_exists.mp ((allIntegers_iff request).mp hall f hf)
  rw [Function.comp_apply, hn, Option.getD_some]

/-- As many numbers as integers: every field begins with one. -/
theorem allIntegers_of_length {request : List UInt8}
    (h : (parse request).length = (integers request).length) : AllIntegers request := by
  rw [allIntegers_iff, ← List.filterMap_length_eq_length, ← integers_eq_fields, ← h,
    parse_eq_fields, List.length_map]

/-- If every integer of a request counts, and nothing else, every field has one. -/
theorem NothingInvented.allIntegers {qsort : Qsort} {buffer : Buf bufsize} {request : List UInt8}
    (h : NothingInvented qsort buffer request) (h0 : 0 ∉ request)
    (hlen : request.length ≤ bufsize - 1) : AllIntegers request := by
  by_cases hnil : parse request = []
  · -- without a field there is nothing to read
    rw [allIntegers_iff]
    rw [parse_eq_fields, List.map_eq_nil_iff] at hnil
    simp [hnil]
  · have hreply : serve qsort buffer [.data request] =
        some (rebuild (qsort.sort (parse request))) := by
      rw [serve_eq qsort buffer h0 hlen, answer_eq_some_iff]
      exact ⟨hnil, rfl⟩
    obtain ⟨ms, hms, hperm⟩ := h.made _ hreply
    have hint : integers request ≠ [] := by
      rw [integers_ne_nil_iff, ← h.sent, hreply]
      rfl
    have hsort := qsort.perm (parse request)
    have heq : qsort.sort (parse request) = ms :=
      rebuild_injective (fun h => hnil (h ▸ hsort).nil_eq.symm)
        (fun h => hint (h ▸ hperm).nil_eq.symm) hms
    apply allIntegers_of_length
    rw [← hsort.length_eq, heq, hperm.length_eq]

theorem AllIntegers.nothingInvented {request : List UInt8} (hall : AllIntegers request)
    (qsort : Qsort) (buffer : Buf bufsize) (h0 : 0 ∉ request) (hlen : request.length ≤ bufsize - 1)
    (hints : ∀ n ∈ integers request, IsInt n) : NothingInvented qsort buffer request := by
  have hserve := serve_eq qsort buffer h0 hlen
  have hparse := parse_of_allIntegers hints hall
  constructor
  · rw [← integers_ne_nil_iff, hserve, Option.isSome_iff_exists, ← hparse]
    simp [answer_eq_some_iff]
  · intro reply hreply
    rw [hserve, Option.mem_def, answer_eq_some_iff] at hreply
    exact ⟨_, hreply.2, hparse ▸ qsort.perm _⟩

/-- **No invented numbers**: a reply is sent exactly if there is an integer, and made of
the integers of the request, exactly if every field that is not empty begins with one. -/
theorem nothingInvented_iff (qsort : Qsort) (buffer : Buf bufsize) {request : List UInt8}
    (h0 : 0 ∉ request) (hlen : request.length ≤ bufsize - 1)
    (hints : ∀ n ∈ integers request, IsInt n) :
    NothingInvented qsort buffer request ↔ AllIntegers request :=
  ⟨fun h => h.allIntegers h0 hlen, fun h => h.nothingInvented qsort buffer h0 hlen hints⟩

/-- A field with something behind its integer, and an empty one. -/
theorem nothingInvented_units :
    NothingInvented insertionSort (Buf.zero bufsize) (ascii "3 kg,, -1\n") :=
  (nothingInvented_iff insertionSort (Buf.zero bufsize) (by decide) (by decide) (by decide)).mpr
    (by decide)

/-- A blank field is read as 0. -/
theorem blank_invented :
    serve insertionSort (Buf.zero bufsize) [.data (ascii "5, ")] = some (ascii "0, 5") ∧
      integers (ascii "5, ") = [5] ∧
      ¬NothingInvented insertionSort (Buf.zero bufsize) (ascii "5, ") := by
  refine ⟨?_, by decide, ?_⟩
  · rw [serve_eq _ _ (by decide) (by decide), answer_eq_some_iff, parse_eq_fields]
    decide +kernel
  · rw [nothingInvented_iff _ _ (by decide) (by decide) (by decide)]
    decide

/-! ## reading a reply back -/

theorem atoi_printInt {n : Int} (h : IsInt n) (w : List UInt8) (hw : ∀ b ∈ w, isspace b = true) :
    atoi (w ++ printInt n) = n := by
  have hlead : leadingInt (w ++ printInt n) = some n := by
    rw [leadingInt_eq_some_iff]
    exact ⟨w, printInt n, [], by rw [List.append_nil], hw, numeral_printInt n, by simp⟩
  have hint : ∀ m ∈ leadingInt (w ++ printInt n), intMin ≤ m ∧ m ≤ intMax := by
    rw [hlead]
    rintro m ⟨⟩
    exact h
  rw [atoi_eq hint, hlead, Option.getD_some]

/-- The fields of a reply are its numbers, those after the first with a blank. -/
theorem fields_rebuild_cons (n : Int) (ns : List Int) :
    fields comma (rebuild (n :: ns)) = printInt n :: ns.map fun m => 32 :: printInt m := by
  have hne : printInt n ≠ [] := by
    obtain ⟨b, u, hbu, -⟩ := (numeral_printInt n).isspace_head
    rw [hbu]
    exact List.cons_ne_nil b u
  rw [fields_eq_parts, parts, splitOn_rebuild_cons, List.filter_cons_of_pos (by simpa using hne),
    List.filter_eq_self.mpr]
  simp

theorem parse_rebuild {ns : List Int} (h : ∀ n ∈ ns, IsInt n) : parse (rebuild ns) = ns := by
  rw [parse_eq_fields]
  cases ns with
  | nil => decide
  | cons n ns =>
      have hfirst := atoi_printInt (h n List.mem_cons_self) [] (by simp)
      have hrest : ns.map (atoi ∘ fun m => 32 :: printInt m) = ns.map id := by
        apply List.map_congr_left
        intro m hm
        exact atoi_printInt (h m (List.mem_cons_of_mem n hm)) [32] (by simp [isspace])
      rw [List.nil_append] at hfirst
      rw [fields_rebuild_cons, List.map_cons, List.map_map, hrest, hfirst, List.map_id]

/-- The characters of a reply are digits, minus signs, commas and blanks. -/
theorem zero_not_mem_rebuild (ns : List Int) : 0 ∉ rebuild ns := by
  have hsep : 0 ∉ ascii ", " := by decide
  fun_induction rebuild ns with
  | case1 => simp
  | case2 n => exact zero_not_mem_printInt n
  | case3 n m ns ih =>
      rw [List.mem_append, List.mem_append, not_or, not_or]
      exact ⟨⟨zero_not_mem_printInt n, hsep⟩, ih⟩

/-- **Reading back**: a reply that is sent to the server, and fits its buffer, is read as
the numbers it was made of, in their order, and as many. -/
theorem parse_reply {ns : List Int} (h : ∀ n ∈ ns, IsInt n)
    (hlen : (rebuild ns).length ≤ bufsize - 1) (buffer : Buf bufsize) :
    parse (receive buffer (rebuild ns)).text = ns ∧
      (parse (receive buffer (rebuild ns)).text).length = ns.length := by
  have hlt : (rebuild ns).length < bufsize := Nat.lt_of_le_pred (by decide) hlen
  have hparse : parse (receive buffer (rebuild ns)).text = ns := by
    rw [text_receive buffer hlt, cstr_of_not_mem (zero_not_mem_rebuild ns), parse_rebuild h]
  exact ⟨hparse, congrArg List.length hparse⟩

/-- Both ends of `int`. -/
theorem parse_reply_ends :
    parse (receive (Buf.zero bufsize) (rebuild [intMin, 0, intMax])).text = [intMin, 0, intMax] ∧
      (parse (receive (Buf.zero bufsize) (rebuild [intMin, 0, intMax])).text).length = 3 :=
  parse_reply (by decide) (by decide) _

end Reti.SortServer
