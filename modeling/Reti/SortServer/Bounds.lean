import Reti.SortServer.Parser
import Mathlib.Algebra.BigOperators.Group.List.Basic
import Mathlib.Algebra.GroupWithZero.Nat
import Mathlib.Data.Nat.Log

/-!
# Reti.SortServer.Bounds

Whether the answer fits the array it is built in.  A number takes no more of it than it
took of the request, give or take a sign, but the comma between two numbers becomes two
characters.
-/

namespace Reti.SortServer

open CStr

/-! ## the loop that builds the answer -/

/-- `sizeof(temp)`. -/
def tempSize : Nat := 32

/-- The loop over the numbers, with the two arrays; `none` when a `strcat` leaves
`sorted`. -/
def rebuildLoop (temp : Buf tempSize) (sorted : Buf bufsize) :
    List Int → Option (Buf bufsize)
  | [] => some sorted
  | n :: ns => do
    let temp := temp.snprintf (printInt n)
    let sorted ← sorted.strcat temp.text
    let sorted ← if ns = [] then some sorted else sorted.strcat (ascii ", ")
    rebuildLoop temp sorted ns

/-- Nothing that the loop stores for a request leaves its array. -/
structure Fits (qsort : Qsort) (temp : Buf tempSize) (buffer : Buf bufsize)
    (request : List UInt8) : Prop where
  number : ∀ n ∈ parse (receive buffer request).text, (printInt n).length + 1 ≤ tempSize
  answer : (rebuildLoop temp (Buf.zero bufsize)
    (qsort.sort (parse (receive buffer request).text))).isSome

/-! ## how long numbers are -/

/-- The characters of an integer: its digits and the sign of a negative one. -/
def width (n : Int) : Nat := (if n < 0 then 1 else 0) + (Nat.log 10 n.natAbs + 1)

theorem length_decimal (n : Nat) : (decimal n).length = Nat.log 10 n + 1 := by
  have hle := length_decimal_le_iff n (Nat.succ_pos (Nat.log 10 n))
  have hlt := length_decimal_le_iff n (k := Nat.log 10 n)
  have hpow := Nat.lt_pow_succ_log_self (b := 10) (by decide) n
  have hpos : 0 < (decimal n).length := List.length_pos_of_ne_nil (decimal_ne_nil n)
  by_cases hlog : Nat.log 10 n = 0
  · rw [hlog] at hle hpow ⊢
    have := hle.mpr hpow
    omega
  · have hn : n ≠ 0 := by
      rintro rfl
      simp at hlog
    have hself := Nat.pow_log_le_self 10 hn
    have hno := mt (hlt (Nat.pos_of_ne_zero hlog)).mp (Nat.not_lt.mpr hself)
    have := hle.mpr hpow
    omega

theorem length_printInt (n : Int) : (printInt n).length = width n := by
  unfold printInt width
  split
  · rw [List.length_cons, length_decimal]
    omega
  · rw [length_decimal, Nat.zero_add]

/-- An `int` has at most ten digits. -/
theorem width_le {n : Int} (h : IsInt n) : width n ≤ 11 := by
  have hdigits := length_decimal_le_iff n.natAbs (k := 10) (by decide)
  simp only [IsInt, intMin, intMax] at h
  have hle := hdigits.mpr (by omega)
  rw [length_decimal] at hle
  unfold width
  split <;> omega

theorem isInt_atoi (s : List UInt8) : IsInt (atoi s) := by
  simp only [IsInt, intMin, intMax, atoi, Int.bmod_def]
  omega

theorem length_rebuild (ns : List Int) :
    (rebuild ns).length = (ns.map width).sum + 2 * (ns.length - 1) := by
  have hsep : (ascii ", ").length = 2 := by decide
  fun_induction rebuild ns with
  | case1 => rfl
  | case2 n => simp [length_printInt]
  | case3 n m ns ih =>
      rw [List.length_append, List.length_append, ih, hsep, length_printInt]
      simp only [List.map_cons, List.sum_cons, List.length_cons]
      omega

/-! ## the loop -/

theorem text_number (temp : Buf tempSize) {n : Int} (hn : IsInt n) :
    (temp.snprintf (printInt n)).text = printInt n := by
  have hwidth := width_le hn
  apply temp.text_snprintf (zero_not_mem_printInt n)
  rw [length_printInt, tempSize]
  omega

/-- Behind the last number nothing is put. -/
theorem rebuildLoop_singleton (temp : Buf tempSize) (sorted : Buf bufsize) (n : Int) :
    rebuildLoop temp sorted [n] = (sorted.strcat (temp.snprintf (printInt n)).text).bind some := rfl

theorem rebuildLoop_cons_cons (temp : Buf tempSize) (sorted : Buf bufsize) (n m : Int)
    (ns : List Int) :
    rebuildLoop temp sorted (n :: m :: ns) =
      (sorted.strcat (temp.snprintf (printInt n)).text).bind fun sorted =>
        (sorted.strcat (ascii ", ")).bind fun sorted =>
          rebuildLoop (temp.snprintf (printInt n)) sorted (m :: ns) := by
  simp [rebuildLoop]

theorem length_rebuild_cons (n m : Int) (ns : List Int) :
    (rebuild (n :: m :: ns)).length =
      (printInt n).length + ((ascii ", ").length + (rebuild (m :: ns)).length) := by
  rw [rebuild, List.length_append, List.length_append, Nat.add_assoc]

/-- **Run lemma**: the loop goes through exactly if the text fits behind what `sorted`
holds. -/
theorem rebuildLoop_isSome_iff {ns : List Int} (hints : ∀ n ∈ ns, IsInt n) (temp : Buf tempSize)
    {sorted : Buf bufsize} (hlt : sorted.text.length < bufsize) :
    (rebuildLoop temp sorted ns).isSome ↔
      sorted.text.length + (rebuild ns).length < bufsize := by
  induction ns generalizing temp sorted with
  | nil => simp [rebuildLoop, rebuild, hlt]
  | cons n ns ih =>
      have hn := text_number temp (hints n List.mem_cons_self)
      have hrest := fun m hm => hints m (List.mem_cons_of_mem n hm)
      cases ns with
      | nil =>
          have hend : ∀ b : Buf bufsize, b.text.length < bufsize →
              ((some b).isSome ↔ b.text.length + 0 < bufsize) := by simp
          rw [rebuildLoop_singleton, hn]
          exact sorted.isSome_strcat_bind (zero_not_mem_printInt n) hend
      | cons m ns =>
          rw [rebuildLoop_cons_cons, hn, length_rebuild_cons]
          refine sorted.isSome_strcat_bind (zero_not_mem_printInt n) fun b _ => ?_
          exact b.isSome_strcat_bind (by decide) fun c hc => ih hrest _ hc

/-- What the loop leaves in the array is what the answer is to be. -/
theorem text_rebuildLoop {ns : List Int} (hints : ∀ n ∈ ns, IsInt n) {temp : Buf tempSize}
    {sorted b : Buf bufsize} (h : rebuildLoop temp sorted ns = some b) :
    b.text = sorted.text ++ rebuild ns := by
  induction ns generalizing temp sorted with
  | nil =>
      obtain rfl := Option.some.inj h
      simp [rebuild]
  | cons n ns ih =>
      have hn := text_number temp (hints n List.mem_cons_self)
      have hrest := fun m hm => hints m (List.mem_cons_of_mem n hm)
      cases ns with
      | nil =>
          rw [rebuildLoop_singleton, hn] at h
          obtain ⟨c, hc, hb⟩ := Option.bind_eq_some_iff.mp h
          obtain rfl := Option.some.inj hb
          exact Buf.text_of_strcat (zero_not_mem_printInt n) hc
      | cons m ns =>
          rw [rebuildLoop_cons_cons, hn] at h
          obtain ⟨c, hc, h⟩ := Option.bind_eq_some_iff.mp h
          obtain ⟨d, hd, h⟩ := Option.bind_eq_some_iff.mp h
          rw [ih hrest h, Buf.text_of_strcat (by decide) hd,
            Buf.text_of_strcat (zero_not_mem_printInt n) hc, rebuild]
          simp only [List.append_assoc]

/-! ## the answer fits -/

/-- However the numbers are sorted, the answer has their digits and separators. -/
theorem length_rebuild_sort (qsort : Qsort) (ns : List Int) :
    (rebuild (qsort.sort ns)).length = (ns.map width).sum + 2 * (ns.length - 1) := by
  have hperm := qsort.perm ns
  rw [length_rebuild, (hperm.map width).sum_eq, hperm.length_eq]

theorem isInt_of_mem_parse {text : List UInt8} {n : Int} (h : n ∈ parse text) : IsInt n := by
  rw [parse_eq_fields] at h
  obtain ⟨f, -, rfl⟩ := List.mem_map.mp h
  exact isInt_atoi f

/-- **Bounds**: the answer fits its array exactly if the numbers of the request, with two
characters between any two of them, do. -/
theorem fits_iff (qsort : Qsort) (temp : Buf tempSize) (buffer : Buf bufsize)
    {request : List UInt8} (hlen : request.length ≤ bufsize - 1) :
    Fits qsort temp buffer request ↔
      ((fields comma (cstr request)).map fun f => width (atoi f)).sum +
        2 * ((fields comma (cstr request)).length - 1) ≤ bufsize - 1 := by
  have htext := text_receive buffer (Nat.lt_of_le_pred (by decide) hlen)
  have hempty : (Buf.zero bufsize).text.length < bufsize := by
    rw [Buf.text_zero]
    decide
  have hsorted : ∀ n ∈ qsort.sort (parse (cstr request)), IsInt n := fun n hn =>
    isInt_of_mem_parse ((qsort.perm _).mem_iff.mp hn)
  have hloop := rebuildLoop_isSome_iff hsorted temp hempty
  rw [Buf.text_zero, List.length_nil, Nat.zero_add, length_rebuild_sort, parse_eq_fields,
    List.map_map, List.length_map] at hloop
  constructor
  · intro h
    have hanswer := h.answer
    rw [htext, parse_eq_fields] at hanswer
    exact Nat.le_sub_one_of_lt (hloop.mp hanswer)
  · intro h
    constructor
    · intro n hn
      have hwidth := width_le (isInt_of_mem_parse hn)
      rw [length_printInt, tempSize]
      omega
    · rw [htext, parse_eq_fields]
      exact hloop.mpr (Nat.lt_of_le_pred (by decide) h)

/-- An answer that fits is in the array as it is sent. -/
theorem Fits.sent {qsort : Qsort} {temp : Buf tempSize} {buffer : Buf bufsize}
    {request : List UInt8} (h : Fits qsort temp buffer request)
    (hsome : parse (receive buffer request).text ≠ []) :
    (rebuildLoop temp (Buf.zero bufsize)
        (qsort.sort (parse (receive buffer request).text))).map Buf.text =
      serve qsort buffer [.data request] := by
  have hints : ∀ n ∈ qsort.sort (parse (receive buffer request).text), IsInt n := fun n hn =>
    isInt_of_mem_parse ((qsort.perm _).mem_iff.mp hn)
  obtain ⟨b, hb⟩ := Option.isSome_iff_exists.mp h.answer
  have hanswer := (answer_eq_some_iff qsort (receive buffer request).text _).mpr ⟨hsome, rfl⟩
  rw [serve, hanswer, hb, Option.map_some, text_rebuildLoop hints hb, Buf.text_zero,
    List.nil_append]

/-- A request whose answer is as long as the request and a blank. -/
theorem fits_two :
    Fits insertionSort (Buf.zero tempSize) (Buf.zero bufsize) (ascii "2,-1") :=
  (fits_iff _ _ _ (by decide)).mpr (by decide)

/-- Ones with commas between them, as many as the server receives. -/
def ones : List UInt8 := [44].intercalate (List.replicate 512 [49])

/-- They do not fit the answer. -/
theorem ones_do_not_fit :
    ones.length = bufsize - 1 ∧
      ¬Fits insertionSort (Buf.zero tempSize) (Buf.zero bufsize) ones := by
  have hlen : ones.length = bufsize - 1 := by decide +kernel
  refine ⟨hlen, ?_⟩
  rw [fits_iff _ _ _ (Nat.le_of_eq hlen)]
  have hfields : fields comma (cstr ones) = List.replicate 512 [49] := by
    decide +kernel
  rw [hfields]
  decide +kernel

end Reti.SortServer
