import Reti.Lib.CString

/-!
# Reti.Lib.Stdio

The stream that `fgets` reads from.  It belongs to one process: the calls of `read` put bytes
into it, as many as there are, and `fgets` takes out one line at a time.  What is in it stays
there, also if other processes read from the same file.
-/

namespace CStr

/-- The bytes that have been read and not been taken out, and whether a `read` has met the
end of the file. -/
structure Stream where
  pending : List UInt8
  ended : Bool
  deriving DecidableEq, Repr

namespace Stream

def empty : Stream := ⟨[], false⟩

/-- A `read` into the stream, which returns nothing at the end of the file. -/
def read (s : Stream) (chunk : List UInt8) : Stream :=
  if chunk = [] then { s with ended := true } else { s with pending := s.pending ++ chunk }

/-- `fgets(line, n, stream)` returns without another `read`: the line is there, or the end of
the file has been met. -/
def Ready (n : Nat) (s : Stream) : Prop :=
  s.ended = true ∨ WholeItem n (CStr.fgets n s.pending).1

instance (n : Nat) (s : Stream) : Decidable (s.Ready n) := inferInstanceAs (Decidable (_ ∨ _))

/-- What `fgets` returns then: the line, or nothing if there is none. -/
def fgets (n : Nat) (s : Stream) : Option (List UInt8) × Stream :=
  if s.pending = [] then (none, s)
  else
    let (line, rest) := CStr.fgets n s.pending
    (some line, { s with pending := rest })

/-- `lines` have been taken out of a stream into which `given` has been read. -/
structure Taken (n : Nat) (given : List UInt8) (lines : List (List UInt8)) (s : Stream) : Prop where
  given_eq : given = lines.flatten ++ s.pending
  items_eq : fgetsAll n given = lines ++ fgetsAll n s.pending
  whole : s.ended = false → ∀ line ∈ lines, WholeItem n line

variable {n : Nat} {given : List UInt8} {lines : List (List UInt8)} {s : Stream}

theorem taken_empty (n : Nat) : Taken n [] [] empty where
  given_eq := rfl
  items_eq := (List.nil_append _).symm
  whole _ := by simp

/-- More is read: the lines that have been taken out are still the first ones. -/
theorem Taken.read (h : Taken n given lines s) (hn : 2 ≤ n) (hs : s.ended = false)
    (chunk : List UInt8) : Taken n (given ++ chunk) lines (s.read chunk) := by
  by_cases hchunk : chunk = []
  · rw [hchunk, List.append_nil, Stream.read, if_pos rfl]
    exact ⟨h.given_eq, h.items_eq, fun hended => by cases hended⟩
  · rw [Stream.read, if_neg hchunk]
    refine ⟨?_, ?_, h.whole⟩
    · rw [h.given_eq, List.append_assoc]
    · rw [h.given_eq, List.append_assoc, fgetsAll_flatten_append hn (h.whole hs)]

/-- **`fgets`**: the next line of all that has been read, or nothing behind the last one. -/
theorem Taken.fgets (h : Taken n given lines s) (hn : 2 ≤ n) (hs : s.Ready n) :
    (s.fgets n).1 = (fgetsAll n given)[lines.length]? ∧
      Taken n given (lines ++ (s.fgets n).1.toList) (s.fgets n).2 := by
  rw [h.items_eq, List.getElem?_append_right (Nat.le_refl _), Nat.sub_self]
  by_cases hnil : s.pending = []
  · rw [Stream.fgets, if_pos hnil, hnil, fgetsAll_nil]
    refine ⟨rfl, ?_⟩
    rw [Option.toList_none, List.append_nil]
    exact h
  · have hall : fgetsAll n s.pending =
        (CStr.fgets n s.pending).1 :: fgetsAll n (CStr.fgets n s.pending).2 := by
      rw [fgetsAll, dif_pos ⟨hnil, hn⟩]
    rw [Stream.fgets, if_neg hnil, hall]
    refine ⟨rfl, ?_, ?_, fun hended => ?_⟩
    · have hline : (CStr.fgets n s.pending).1 ++ (CStr.fgets n s.pending).2 = s.pending :=
        readLine_append _ _
      simp only [Option.toList_some, List.flatten_append, List.flatten_singleton,
        List.append_assoc, hline]
      exact h.given_eq
    · rw [h.items_eq, hall]
      simp
    · have hwhole : WholeItem n (CStr.fgets n s.pending).1 :=
        hs.resolve_left (by simpa using hended)
      simp only [Option.toList_some, List.forall_mem_append, List.forall_mem_singleton]
      exact ⟨h.whole hended, hwhole⟩

/-! ## counting the calls -/

/-- `fgets` has been called `k` times on a stream into which `given` has been read.  Once
there was no line, the stream is at its end. -/
def Called (n : Nat) (given : List UInt8) (k : Nat) (s : Stream) : Prop :=
  ∃ lines, Taken n given lines s ∧ lines.length ≤ k ∧
    (lines.length < k → s.ended = true ∧ s.pending = [])

variable {k : Nat}

theorem called_empty (n : Nat) : Called n [] 0 empty :=
  ⟨[], taken_empty n, Nat.le_refl 0, fun h => absurd h (Nat.lt_irrefl 0)⟩

/-- **Step lemma**: a `read` does not change what the calls have returned. -/
theorem Called.read (h : Called n given k s) (hn : 2 ≤ n) (hs : s.ended = false)
    (chunk : List UInt8) :
    Called n (given ++ chunk) k (s.read chunk) ∧
      ∀ j < k, (fgetsAll n (given ++ chunk))[j]? = (fgetsAll n given)[j]? := by
  obtain ⟨lines, htaken, hle, hend⟩ := h
  have hlen : lines.length = k := by
    by_contra hne
    have hended := (hend (Nat.lt_of_le_of_ne hle hne)).1
    rw [hs] at hended
    cases hended
  have hread := htaken.read hn hs chunk
  refine ⟨⟨lines, hread, hle, fun hlt => absurd hlen (Nat.ne_of_lt hlt)⟩, fun j hj => ?_⟩
  rw [htaken.items_eq, hread.items_eq, List.getElem?_append_left (hlen ▸ hj),
    List.getElem?_append_left (hlen ▸ hj)]

/-- **Step lemma**: the call with number `k` returns the line with number `k`. -/
theorem Called.fgets (h : Called n given k s) (hn : 2 ≤ n) (hs : s.Ready n) :
    (s.fgets n).1 = (fgetsAll n given)[k]? ∧ Called n given (k + 1) (s.fgets n).2 := by
  obtain ⟨lines, htaken, hle, hend⟩ := h
  obtain ⟨hline, htaken'⟩ := htaken.fgets hn hs
  by_cases hnil : s.pending = []
  · -- the end of the file: there is no line, now or later
    have hended : s.ended = true := hs.resolve_right fun hwhole => by
      rw [hnil] at hwhole
      exact hwhole.1.1 (List.append_eq_nil_iff.mp (readLine_append _ _)).1
    have hitems := htaken.items_eq
    rw [hnil, fgetsAll_nil, List.append_nil] at hitems
    rw [Stream.fgets, if_pos hnil, hitems, List.getElem?_eq_none hle]
    exact ⟨rfl, lines, htaken, Nat.le_succ_of_le hle, fun _ => ⟨hended, hnil⟩⟩
  · have hlen : lines.length = k := by
      by_contra hne
      exact hnil (hend (Nat.lt_of_le_of_ne hle hne)).2
    have hsome : (s.fgets n).1.toList.length = 1 := by
      rw [Stream.fgets, if_neg hnil]
      rfl
    refine ⟨hlen ▸ hline, _, htaken', ?_, fun hlt => ?_⟩ <;>
      rw [List.length_append, hsome, hlen] at *
    exact absurd hlt (Nat.lt_irrefl _)

end Stream

end CStr
