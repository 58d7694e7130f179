import Reti.Net
import Reti.Lib.Decimal
import Reti.Lib.Strtok
import Mathlib.Data.List.Sort

/-!
# Reti.SortServer.Server

The sorting server (`stringarray/sv_strarr.c`): it reads a request such as
`2, 1, 3` once, splits it at the commas, sorts the numbers and answers with the
sorted list.

`qsort` is a parameter: what it does when `intcmp` overflows is not specified.
The arrays `sorted` and `temp` are taken as large as the text needs, and `realloc` as
never failing; `Reti.SortServer.Bounds` and `Reti.SortServer.Alloc` do without that.
-/

namespace Reti.SortServer

open CStr

def bufsize : Nat := 1024

/-- `intcmp`: the difference, in 32 bits. -/
def intcmp (a b : Int) : Int := (a - b).bmod 4294967296

/-- `intcmp` orders the elements of the array: the sign turns with the arguments,
and it is transitive. -/
def Consistent (ns : List Int) : Prop :=
  (∀ a ∈ ns, ∀ b ∈ ns, intcmp a b < 0 ↔ 0 < intcmp b a) ∧
    ∀ a ∈ ns, ∀ b ∈ ns, ∀ c ∈ ns, intcmp a b ≤ 0 → intcmp b c ≤ 0 → intcmp a c ≤ 0

/-- What is known of `qsort(numbers, count, sizeof(int), intcmp)`: it rearranges the
array, and the result is in order if `intcmp` orders its elements. -/
structure Qsort where
  sort : List Int → List Int
  perm : ∀ ns, (sort ns).Perm ns
  sorted : ∀ ns, Consistent ns → (sort ns).Pairwise fun a b => intcmp a b ≤ 0

/-- An insertion sort is a `qsort`. -/
def insertionSort : Qsort where
  sort ns :=
    (ns.attach.insertionSort fun a b : { n // n ∈ ns } => intcmp a b ≤ 0).map Subtype.val
  perm ns := by
    have hperm := (List.perm_insertionSort (fun a b : { n // n ∈ ns } => intcmp a b ≤ 0)
      ns.attach).map Subtype.val
    rwa [List.attach_map_subtype_val] at hperm
  sorted ns hns := by
    obtain ⟨hsign, htrans⟩ := hns
    have : Std.Total fun a b : { n // n ∈ ns } => intcmp a b ≤ 0 := by
      constructor
      intro a b
      have hab := hsign a a.2 b b.2
      omega
    have : IsTrans { n // n ∈ ns } fun a b => intcmp a b ≤ 0 := by
      constructor
      intro a b c
      exact htrans a a.2 b b.2 c c.2
    rw [List.pairwise_map]
    exact List.pairwise_insertionSort _ _

/-- The delimiters of `strtok`. -/
def comma : List UInt8 := ascii ","

/-! ## one connection -/

/-- `buffer` after `recv` and `buffer[bytes_read] = '\0'`. -/
def receive (buffer : Buf bufsize) (chunk : List UInt8) : Buf bufsize :=
  (buffer.fill chunk).store chunk.length 0

/-- The loop over the tokens. -/
def parse (text : List UInt8) : List Int := (strtokAll comma text).map atoi

/-- The loop that builds the answer. -/
def rebuild : List Int → List UInt8
  | [] => []
  | [n] => printInt n
  | n :: m :: ns => printInt n ++ ascii ", " ++ rebuild (m :: ns)

/-- What is sent for a text, if anything is: no number, no answer. -/
def answer (qsort : Qsort) (text : List UInt8) : Option (List UInt8) :=
  let numbers := parse text
  if numbers.length = 0 then none else some (rebuild (qsort.sort numbers))

/-- The answer to a connection: `recv` is called once, over what `buffer` holds from
the connection before. -/
def serve (qsort : Qsort) (buffer : Buf bufsize) : List RecvRet → Option (List UInt8)
  | .data chunk :: _ => answer qsort (receive buffer chunk).text
  | _ => none

/-- Each field of the text gives a number. -/
theorem parse_eq_fields (text : List UInt8) : parse text = (fields comma text).map atoi := by
  rw [parse, strtokAll_eq_fields]

example : parse (ascii "2, -1,,x,3") = [2, -1, 0, 3] := by
  rw [parse_eq_fields]
  decide

theorem text_receive (buffer : Buf bufsize) {chunk : List UInt8} (h : chunk.length < bufsize) :
    (receive buffer chunk).text = cstr chunk :=
  buffer.text_fill_store h

end Reti.SortServer
