import Reti.Lib.CString
import Mathlib.Data.FinEnum

/-!
# Reti.SmallCapper.Request

What a child of the capitalising server (`sv_smallcapper.c`) does for its client: one
`recv`, a loop that puts every character up to the NUL into upper case, one `send`.

A `char` is signed, and `toupper` takes an `int` that has to be an `unsigned char` or
`EOF`.  Whatever is undefined in C is `none`.
-/

namespace Reti.SmallCapper

open CStr

/-- The size of `stdbuff`. -/
def stdbuffLen : Nat := 1024

/-! ## characters -/

def eof : Int := -1

/-- The value of a `char` that is passed as an `int`. -/
def charValue (b : UInt8) : Int := if b < 128 then b.toNat else b.toNat - 256

/-- The `char` an `int` is stored as. -/
def toChar (c : Int) : UInt8 := UInt8.ofNat (c % 256).toNat

/-- `toupper`, in the C locale. -/
def toupper (c : Int) : Option Int :=
  if c = eof then some eof
  else if 0 ≤ c ∧ c < 256 then some (if 97 ≤ c ∧ c ≤ 122 then c - 32 else c)
  else none

/-- A byte whose value as a `char` may be passed to `toupper`: ASCII, or the one that is
read as `EOF`. -/
def Convertible (b : UInt8) : Prop := b < 128 ∨ b = 255

instance (b : UInt8) : Decidable (Convertible b) := inferInstanceAs (Decidable (_ ∨ _))

/-! ## the request -/

/-- The loop over `str2`: it stops at a NUL, and leaves the array if there is none. -/
def capitalise : List UInt8 → Option (List UInt8)
  | [] => none
  | b :: str2 =>
    if b = 0 then some (b :: str2)
    else
      (toupper (charValue b)).bind fun c => (capitalise str2).map fun rest => toChar c :: rest

/-- The reply to what `recv` has returned: `stdbuff` is cleared and received into, printed,
put into upper case and sent up to its NUL. -/
def reply (stdbuff : Buf stdbuffLen) (chunk : List UInt8) : Option (List UInt8) :=
  let stdbuff := (stdbuff.memset 0).fill chunk
  stdbuff.readString.bind fun _ => (capitalise stdbuff.bytes).map cstr

/-! ## what the request is for -/

/-- The upper-case form of an ASCII letter; other bytes stay as they are. -/
def upper (b : UInt8) : UInt8 := if 97 ≤ b ∧ b ≤ 122 then b - 32 else b

/-- `toupper` over all characters: the upper-case form, or undefined. -/
theorem toupper_charValue : ∀ b : UInt8,
    (toupper (charValue b)).map toChar = if Convertible b then some (upper b) else none := by
  decide +kernel

theorem upper_ne_zero : ∀ b : UInt8, b ≠ 0 → upper b ≠ 0 := by
  decide +kernel

/-! ## the loop -/

/-- **Step lemma**: one turn of the loop. -/
theorem capitalise_cons {b : UInt8} (hb : b ≠ 0) (str2 : List UInt8) :
    capitalise (b :: str2) =
      if Convertible b then (capitalise str2).map fun rest => upper b :: rest else none := by
  have h := toupper_charValue b
  rw [capitalise, if_neg hb]
  cases hc : toupper (charValue b) with
  | none =>
      rw [hc] at h
      by_cases hconv : Convertible b
      · simp [hconv] at h
      · simp [hconv]
  | some c =>
      rw [hc] at h
      by_cases hconv : Convertible b
      · have hchar : toChar c = upper b := by simpa [hconv] using h
        simp [hconv, hchar]
      · simp [hconv] at h

/-- **Run lemma**: the loop over a text with its NUL. -/
theorem capitalise_terminated {text : List UInt8} (h0 : 0 ∉ text)
    (hconv : ∀ b ∈ text, Convertible b) (rest : List UInt8) :
    capitalise (text ++ 0 :: rest) = some (text.map upper ++ 0 :: rest) := by
  induction text with
  | nil => rfl
  | cons b text ih =>
      rw [List.mem_cons, not_or] at h0
      rw [List.forall_mem_cons] at hconv
      rw [List.cons_append, capitalise_cons (Ne.symm h0.1), if_pos hconv.1, ih h0.2 hconv.2]
      rfl

/-- A character that may not be converted stops the loop. -/
theorem capitalise_eq_none {str2 : List UInt8} {b : UInt8} (hb : b ∈ cstr str2)
    (hconv : ¬Convertible b) : capitalise str2 = none := by
  induction str2 with
  | nil => rfl
  | cons c str2 ih =>
      by_cases hc : c = 0
      · simp [cstr, hc] at hb
      · rw [capitalise_cons hc]
        by_cases hcconv : Convertible c
        · have hne : b ≠ c := by
            rintro rfl
            exact hconv hcconv
          have hrest : b ∈ cstr str2 := by simpa [cstr, hc, hne] using hb
          rw [if_pos hcconv, ih hrest]
          rfl
        · rw [if_neg hcconv]

/-! ## the reply -/

theorem zero_not_mem_map_upper {text : List UInt8} (h : 0 ∉ text) : 0 ∉ text.map upper := by
  intro hz
  obtain ⟨b, hb, hup⟩ := List.mem_map.mp hz
  exact upper_ne_zero b (fun h0 => h (h0 ▸ hb)) hup

/-- **Request**: the loop stays in `stdbuff`, converts only what may be converted, and the
reply is the received text in upper case, exactly if the text leaves room for a NUL or has
one in it and holds no byte from 128 to 254. -/
theorem reply_upper_iff (stdbuff : Buf stdbuffLen) {chunk : List UInt8}
    (h : chunk.length ≤ stdbuffLen) :
    reply stdbuff chunk = some ((cstr chunk).map upper) ↔
      (cstr chunk).length < stdbuffLen ∧ ∀ b ∈ cstr chunk, b < 128 ∨ b = 255 := by
  have htext : ((stdbuff.memset 0).fill chunk).text = cstr chunk := Buf.text_zero_fill h
  have hnul := ((stdbuff.memset 0).fill chunk).zero_mem_bytes_iff
  rw [htext] at hnul
  constructor
  · intro hreply
    obtain ⟨text, hread, hrest⟩ := Option.bind_eq_some_iff.mp hreply
    refine ⟨?_, fun b hb => ?_⟩
    · rw [← htext]
      exact ((Buf.readString_eq_some_iff _).mp hread).2
    · by_contra hconv
      rw [← htext] at hb
      rw [capitalise_eq_none hb hconv] at hrest
      cases hrest
  · rintro ⟨hlen, hconv⟩
    have hread := (Buf.readString_eq_some_iff _).mpr ⟨rfl, htext.symm ▸ hlen⟩
    obtain ⟨rest, hrest⟩ := exists_terminated (hnul.mpr hlen)
    have hbytes : ((stdbuff.memset 0).fill chunk).bytes = cstr chunk ++ 0 :: rest := by
      rw [hrest, ← htext]
      rfl
    have hloop := capitalise_terminated (zero_not_mem_cstr chunk) hconv rest
    have hcut := cstr_of_not_mem (zero_not_mem_map_upper (zero_not_mem_cstr chunk))
    simp only [reply]
    rw [hread, Option.bind_some, hbytes, hloop, Option.map_some, cstr_append_zero, hcut]

/-- An ordinary line. -/
theorem reply_upper_ciao :
    reply (Buf.zero stdbuffLen) (ascii "Ciao, 1\n") = some (ascii "CIAO, 1\n") :=
  (reply_upper_iff (Buf.zero stdbuffLen) (by decide)).mpr (by decide +kernel)

/-- The first byte of an accented letter in UTF-8 is negative as a `char`. -/
theorem accented_letter_undefined :
    reply (Buf.zero stdbuffLen) [0xC3, 0xA8] = none ∧
      reply (Buf.zero stdbuffLen) [0xC3, 0xA8] ≠ some ([0xC3, 0xA8].map upper) := by
  decide +kernel

end Reti.SmallCapper
