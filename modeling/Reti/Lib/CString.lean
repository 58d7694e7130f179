import Mathlib.Data.List.Basic
import Mathlib.Data.List.TakeWhile

/-!
# Reti.Lib.CString

C strings, fixed-size character arrays and the few `<string.h>`, `<stdio.h>`
and `<stdlib.h>` functions that work on them.

A `char[n]` is a `Buf n`: exactly `n` bytes, whatever was stored in it before.
The C string in a buffer is `Buf.text`, the bytes before the first NUL.  Stores
that do not fit are reported by `strcpy` and ignored by `store`; the text
lemmas say when an array holds the string one expects in spite of the bytes
left over from earlier contents.
-/

namespace CStr

/-- The newline character. -/
abbrev newline : UInt8 := 10

/-- The bytes of an ASCII string literal, without the terminating NUL. -/
def ascii (s : String) : List UInt8 := s.toList.map fun c => c.toNat.toUInt8

/-! ## the string at the start of a memory area -/

/-- The C string stored at the start of `bs`: the bytes before the first NUL. -/
def cstr (bs : List UInt8) : List UInt8 := bs.takeWhile fun b => b ≠ 0

/-- A byte that fails the test stops `takeWhile`, whatever follows it. -/
theorem takeWhile_append_stop {p : α → Bool} {b : α} (hb : p b = false) (xs rest : List α) :
    (xs ++ b :: rest).takeWhile p = xs.takeWhile p := by
  induction xs with
  | nil => simp [hb]
  | cons x xs ih =>
      rw [List.cons_append, List.takeWhile_cons, List.takeWhile_cons, ih]

@[simp] theorem cstr_append_zero (xs rest : List UInt8) : cstr (xs ++ 0 :: rest) = cstr xs :=
  takeWhile_append_stop (by simp) xs rest

theorem cstr_of_not_mem {xs : List UInt8} (h : 0 ∉ xs) : cstr xs = xs := by
  unfold cstr
  rw [List.takeWhile_eq_self_iff]
  intro b hb
  simpa using fun hz : b = 0 => h (hz ▸ hb)

theorem zero_not_mem_cstr (bs : List UInt8) : 0 ∉ cstr bs := fun h => by
  simpa using List.mem_takeWhile_imp h

/-- A NUL stored into a string cuts it. -/
theorem cstr_set_zero (bs : List UInt8) (i : Nat) (h : i < bs.length) :
    cstr (bs.set i 0) = (cstr bs).take i := by
  induction bs generalizing i with
  | nil => cases h
  | cons b bs ih =>
      by_cases hb : b = 0
      · cases i <;> simp [cstr, hb]
      · cases i with
        | zero => simp [cstr]
        | succ i => simpa [cstr, hb] using ih i (Nat.lt_of_succ_lt_succ h)

theorem length_cstr_le (bs : List UInt8) : (cstr bs).length ≤ bs.length :=
  (List.takeWhile_prefix _).length_le

theorem zero_mem_iff (bs : List UInt8) : 0 ∈ bs ↔ (cstr bs).length < bs.length := by
  constructor
  · intro h
    apply Nat.lt_of_le_of_ne (length_cstr_le bs)
    intro hlen
    have hself : cstr bs = bs := (List.takeWhile_prefix _).eq_of_length hlen
    rw [← hself] at h
    exact zero_not_mem_cstr bs h
  · intro h
    by_contra h0
    rw [cstr_of_not_mem h0] at h
    exact Nat.lt_irrefl _ h

/-- The text with its NUL, in front of what else is in the memory area. -/
theorem exists_terminated {bs : List UInt8} (h : 0 ∈ bs) : ∃ rest, bs = cstr bs ++ 0 :: rest := by
  induction bs with
  | nil => cases h
  | cons b bs ih =>
      by_cases hb : b = 0
      · exact ⟨bs, by simp [cstr, hb]⟩
      · obtain ⟨rest, hrest⟩ := ih (List.mem_of_ne_of_mem (Ne.symm hb) h)
        refine ⟨rest, ?_⟩
        have hcons : cstr (b :: bs) = b :: cstr bs := by simp [cstr, hb]
        rw [hcons, List.cons_append, ← hrest]

/-! ## comparing -/

/-- `strncmp(a, b, n) == 0`: the strings agree up to `n` bytes or to the NUL of
both. -/
def strncmpEq (a b : List UInt8) (n : Nat) : Bool := (cstr a).take n = (cstr b).take n

/-- A NUL-free string starts a memory area exactly if it starts its C string. -/
theorem prefix_cstr_iff {p bs : List UInt8} (hp : 0 ∉ p) : p <+: cstr bs ↔ p <+: bs := by
  induction p generalizing bs with
  | nil => simp
  | cons x p ih =>
      have hx : x ≠ 0 := fun h => hp (h ▸ List.mem_cons_self)
      have hp' : 0 ∉ p := fun h => hp (List.mem_cons_of_mem x h)
      cases bs with
      | nil => simp [cstr]
      | cons b bs =>
          by_cases hb : b = 0
          · subst hb
            simp [cstr, List.cons_prefix_cons, hx]
          · have hcons : cstr (b :: bs) = b :: cstr bs := by simp [cstr, hb]
            rw [hcons, List.cons_prefix_cons, List.cons_prefix_cons, ih hp']

/-- Comparing with the whole of a literal tests for a prefix. -/
theorem strncmpEq_iff {lit : List UInt8} (hlit : 0 ∉ lit) (bs : List UInt8) :
    strncmpEq bs lit lit.length = true ↔ lit <+: bs := by
  rw [strncmpEq, decide_eq_true_iff, cstr_of_not_mem hlit, List.take_length,
    ← prefix_cstr_iff hlit, List.prefix_iff_eq_take, eq_comm]

/-! ## searching -/

/-- `strcspn`: the length of the initial part of the string without any of the
bytes in `reject`. -/
def strcspn (bs reject : List UInt8) : Nat :=
  (bs.takeWhile fun b => b ≠ 0 ∧ b ∉ reject).length

/-- `s[strcspn(s, reject)] = 0` cuts the string at the first rejected byte. -/
theorem cstr_set_strcspn (bs reject : List UInt8) :
    cstr (bs.set (strcspn bs reject) 0) = bs.takeWhile fun b => b ≠ 0 ∧ b ∉ reject := by
  induction bs with
  | nil => rfl
  | cons b bs ih =>
      by_cases hb : b ≠ 0 ∧ b ∉ reject
      · have hlen : strcspn (b :: bs) reject = strcspn bs reject + 1 := by
          simp [strcspn, hb]
        rw [hlen, List.set_cons_succ, cstr, List.takeWhile_cons_of_pos (by simpa using hb.1),
          List.takeWhile_cons_of_pos (by simpa using hb), ← ih, cstr]
      · have hlen : strcspn (b :: bs) reject = 0 := by
          rw [strcspn, List.takeWhile_cons_of_neg (by simpa using hb), List.length_nil]
        rw [hlen, List.set_cons_zero, cstr, List.takeWhile_cons_of_neg (by simp),
          List.takeWhile_cons_of_neg (by simpa using hb)]

/-- `strstr(hay, needle) != NULL`. -/
def strstr : List UInt8 → List UInt8 → Bool
  | [], needle => needle.isEmpty
  | b :: hay, needle => needle.isPrefixOf (b :: hay) || strstr hay needle

/-! ## character arrays -/

/-- A `char[n]`. -/
@[ext] structure Buf (n : Nat) where
  bytes : List UInt8
  length_eq : bytes.length = n
  deriving DecidableEq, Repr

namespace Buf

/-- `memset(b, 0, n)`. -/
def zero (n : Nat) : Buf n := ⟨List.replicate n 0, List.length_replicate⟩

/-- `memset(b, c, n)`, over whatever the array held. -/
def memset (_ : Buf n) (c : UInt8) : Buf n := ⟨List.replicate n c, List.length_replicate⟩

/-- Overwrite the first bytes with `xs`, as `recv` does with what it received:
at most `n` bytes are stored, the others keep their value. -/
def fill (b : Buf n) (xs : List UInt8) : Buf n :=
  ⟨xs.take n ++ b.bytes.drop xs.length, by
    rw [List.length_append, List.length_take, List.length_drop, b.length_eq]; omega⟩

/-- `b[i] = c`. -/
def store (b : Buf n) (i : Nat) (c : UInt8) : Buf n :=
  ⟨b.bytes.set i c, by rw [List.length_set, b.length_eq]⟩

/-- `b[i]`: `none` outside the array. -/
def load (b : Buf n) (i : Nat) : Option UInt8 := b.bytes[i]?

/-- `b[i] = c`: `none` outside the array. -/
def storeAt (b : Buf n) (i : Nat) (c : UInt8) : Option (Buf n) :=
  if i < n then some (b.store i c) else none

/-- The C string the array holds. -/
def text (b : Buf n) : List UInt8 := cstr b.bytes

/-- `strlen`: `none` when there is no NUL, and it reads on behind the array. -/
def strlen (b : Buf n) : Option Nat := if 0 ∈ b.bytes then some b.text.length else none

/-- What a function finds that reads a string up to its NUL, as `fputs` does: `none` when
it reads on behind the array. -/
def readString (b : Buf n) : Option (List UInt8) := if 0 ∈ b.bytes then some b.text else none

/-- `b[k - 1] = c`, where `k` is a `size_t`: `none` when that is outside the array. -/
def storeBefore (b : Buf n) (k : Nat) (c : UInt8) : Option (Buf n) :=
  if 0 < k ∧ k ≤ n then some (b.store (k - 1) c) else none

/-- `strcpy`: `none` when the string and its NUL do not fit the array. -/
def strcpy (dst : Buf n) (src : List UInt8) : Option (Buf n) :=
  if src.length < n then some (dst.fill (src ++ [0])) else none

/-- `strcat`: `none` when the string, what is appended to it and the NUL do not fit. -/
def strcat (dst : Buf n) (src : List UInt8) : Option (Buf n) := dst.strcpy (dst.text ++ src)

/-- `snprintf(dst, n, …)` of a text: the array holds as much of it as fits. -/
def snprintf (dst : Buf n) (text : List UInt8) : Buf n := dst.fill (text.take (n - 1) ++ [0])

/-! ### members of a struct -/

/-- Two arrays side by side, as consecutive members of a struct are. -/
def append (a : Buf m) (b : Buf n) : Buf (m + n) :=
  ⟨a.bytes ++ b.bytes, by rw [List.length_append, a.length_eq, b.length_eq]⟩

/-- The first member of a struct of two arrays. -/
def left (b : Buf (m + n)) : Buf m :=
  ⟨b.bytes.take m, by rw [List.length_take, b.length_eq]; omega⟩

/-- The second member. -/
def right (b : Buf (m + n)) : Buf n :=
  ⟨b.bytes.drop m, by rw [List.length_drop, b.length_eq]; omega⟩

@[simp] theorem left_append (a : Buf m) (b : Buf n) : (a.append b).left = a := by
  apply Buf.ext
  show (a.bytes ++ b.bytes).take m = a.bytes
  rw [List.take_left' a.length_eq]

@[simp] theorem right_append (a : Buf m) (b : Buf n) : (a.append b).right = b := by
  apply Buf.ext
  show (a.bytes ++ b.bytes).drop m = b.bytes
  rw [List.drop_left' a.length_eq]

@[simp] theorem append_left_right (b : Buf (m + n)) : b.left.append b.right = b :=
  Buf.ext (List.take_append_drop m b.bytes)

/-! ### what an array holds after a store -/

theorem bytes_fill (b : Buf n) {xs : List UInt8} (h : xs.length ≤ n) :
    (b.fill xs).bytes = xs ++ b.bytes.drop xs.length := by
  simp [fill, List.take_of_length_le h]

/-- Bytes received into a cleared array: as many as fit, and zeros. -/
theorem bytes_zero_fill (xs : List UInt8) :
    ((zero n).fill xs).bytes = xs.take n ++ List.replicate (n - xs.length) 0 := by
  simp [fill, zero]

/-- A received block as long as the array replaces it. -/
theorem bytes_fill_of_length (b : Buf n) {xs : List UInt8} (h : xs.length = n) :
    (b.fill xs).bytes = xs := by
  rw [b.bytes_fill (Nat.le_of_eq h), List.drop_of_length_le (by rw [b.length_eq, h]),
    List.append_nil]

/-- A whole array received or copied replaces the array. -/
@[simp] theorem fill_bytes (b b' : Buf n) : b.fill b'.bytes = b' :=
  Buf.ext (b.bytes_fill_of_length b'.length_eq)

/-- A cleared array holds no text. -/
@[simp] theorem text_zero (n : Nat) : (zero n).text = [] := by
  cases n <;> simp [text, zero, cstr, List.replicate_succ]

/-- Bytes received into a cleared array: they are followed by zeros. -/
theorem text_zero_fill {xs : List UInt8} (h : xs.length ≤ n) :
    ((zero n).fill xs).text = cstr xs := by
  rw [text, bytes_fill _ h]
  cases hk : n - xs.length with
  | zero => simp [zero, hk]
  | succ k => simp [zero, hk, List.replicate_succ]

/-- A received block that leaves nothing of the array does not depend on it. -/
theorem fill_eq_of_length_le {xs : List UInt8} (h : n ≤ xs.length) (b b' : Buf n) :
    b.fill xs = b'.fill xs := by
  apply Buf.ext
  simp only [fill]
  rw [List.drop_of_length_le (by rwa [b.length_eq]), List.drop_of_length_le (by rwa [b'.length_eq])]

theorem bytes_memset_fill (b : Buf n) (c : UInt8) {xs : List UInt8} (h : xs.length ≤ n) :
    ((b.memset c).fill xs).bytes = xs ++ List.replicate (n - xs.length) c := by
  rw [bytes_fill _ h]
  simp [memset]

/-- Of what does not fit the array the rest is lost. -/
theorem fill_take (b : Buf n) (xs : List UInt8) : b.fill (xs.take n) = b.fill xs := by
  apply Buf.ext
  simp only [fill, List.take_take, Nat.min_self, List.length_take]
  obtain h | h := Nat.le_total xs.length n
  · rw [Nat.min_eq_right h]
  · rw [Nat.min_eq_left h, List.drop_of_length_le (Nat.le_of_eq b.length_eq),
      List.drop_of_length_le (by rwa [b.length_eq])]

/-- The text received into a cleared array, however much arrives. -/
theorem text_zero_fill_take (xs : List UInt8) :
    ((zero n).fill xs).text = cstr (xs.take n) := by
  rw [← fill_take, text_zero_fill (List.length_take_le n xs)]

/-- There is a NUL exactly if the text is shorter than the array. -/
theorem zero_mem_bytes_iff (b : Buf n) : 0 ∈ b.bytes ↔ b.text.length < n := by
  rw [zero_mem_iff, b.length_eq, text]

theorem readString_eq_some_iff (b : Buf n) {t : List UInt8} :
    b.readString = some t ↔ t = b.text ∧ b.text.length < n := by
  rw [readString]
  split
  · rename_i h
    simp [b.zero_mem_bytes_iff.mp h, eq_comm]
  · rename_i h
    rw [zero_mem_bytes_iff] at h
    simp [h]

/-- A NUL-free string that fits a cleared array starts it exactly if it starts
what was received into it, however much that is. -/
theorem prefix_bytes_zero_fill_iff {p xs : List UInt8} (hp : 0 ∉ p) (hn : p.length ≤ n) :
    p <+: ((zero n).fill xs).bytes ↔ p <+: xs := by
  by_cases hxs : xs.length ≤ n
  · have htext : cstr ((zero n).fill xs).bytes = cstr xs := text_zero_fill hxs
    rw [← prefix_cstr_iff hp, htext, prefix_cstr_iff hp]
  · have hdrop : (zero n).bytes.drop xs.length = [] := by
      rw [List.drop_eq_nil_iff, (zero n).length_eq]
      omega
    show p <+: xs.take n ++ (zero n).bytes.drop xs.length ↔ p <+: xs
    rw [hdrop, List.append_nil, List.prefix_take_iff, and_iff_left hn]

/-- Bytes received over any contents and then terminated by hand. -/
theorem text_fill_store (b : Buf n) {xs : List UInt8} (h : xs.length < n) :
    ((b.fill xs).store xs.length 0).text = cstr xs := by
  have hlt : xs.length < b.bytes.length := by rw [b.length_eq]; exact h
  have hdrop : b.bytes.drop xs.length = b.bytes[xs.length] :: b.bytes.drop (xs.length + 1) :=
    List.drop_eq_getElem_cons hlt
  show cstr ((b.fill xs).bytes.set xs.length 0) = cstr xs
  rw [bytes_fill _ (Nat.le_of_lt h), hdrop, List.set_append_right _ _ (Nat.le_refl _),
    Nat.sub_self, List.set_cons_zero, cstr_append_zero]

/-- A string stored together with its NUL, over any contents. -/
theorem bytes_fill_terminated (b : Buf n) {xs : List UInt8} (h : xs.length < n) :
    (b.fill (xs ++ [0])).bytes = xs ++ 0 :: b.bytes.drop (xs.length + 1) := by
  rw [bytes_fill _ (by simpa using Nat.succ_le_of_lt h)]
  simp

theorem strcpy_eq_some (dst : Buf n) {src : List UInt8} (h : src.length < n) :
    dst.strcpy src = some (dst.fill (src ++ [0])) := if_pos h

theorem strcpy_eq_none (dst : Buf n) {src : List UInt8} (h : n ≤ src.length) :
    dst.strcpy src = none := if_neg (Nat.not_lt.mpr h)

/-- Bytes stored together with a NUL: the array holds the string they start with, if the
string fits. -/
theorem text_fill_terminated_of_cstr (b : Buf n) {xs : List UInt8} (h : (cstr xs).length < n) :
    (b.fill (xs ++ [0])).text = cstr xs := by
  obtain ⟨rest, hrest⟩ : ∃ rest, xs ++ [0] = cstr xs ++ 0 :: rest := by
    have hterm := exists_terminated (List.mem_append_right xs (List.mem_singleton_self (0 : UInt8)))
    rwa [cstr_append_zero] at hterm
  obtain ⟨k, hk⟩ : ∃ k, n - (cstr xs).length = k + 1 := Nat.exists_eq_succ_of_ne_zero (by omega)
  have htake : (xs ++ [0]).take n = cstr xs ++ 0 :: rest.take k := by
    rw [hrest, List.take_append, List.take_of_length_le (Nat.le_of_lt h), hk, List.take_succ_cons]
  show cstr ((xs ++ [0]).take n ++ _) = _
  rw [htake, List.append_assoc, List.cons_append, cstr_append_zero,
    cstr_of_not_mem (zero_not_mem_cstr xs)]

/-- Bytes that fit with a NUL. -/
theorem text_fill_terminated (b : Buf n) {xs : List UInt8} (h : xs.length < n) :
    (b.fill (xs ++ [0])).text = cstr xs :=
  b.text_fill_terminated_of_cstr (Nat.lt_of_le_of_lt (length_cstr_le xs) h)

/-- `b[strlen(b) - 1] = '\0'` takes the last character away, if there is one and a NUL
behind it. -/
theorem cut_last_eq_some (b : Buf n) (hnul : b.text.length < n) (hne : b.text ≠ []) :
    ∃ c, (b.strlen.bind fun k => b.storeBefore k 0) = some c ∧ c.text = b.text.dropLast := by
  have hlen : (cstr b.bytes).length < b.bytes.length := by
    rw [b.length_eq]
    exact hnul
  have hpos := List.length_pos_of_ne_nil hne
  refine ⟨b.store (b.text.length - 1) 0, ?_, ?_⟩
  · rw [strlen, if_pos ((zero_mem_iff _).mpr hlen), Option.bind_some, storeBefore,
      if_pos ⟨hpos, Nat.le_of_lt hnul⟩]
  · show cstr (b.bytes.set _ 0) = _
    rw [cstr_set_zero _ _ (by rw [text]; omega), List.dropLast_eq_take, text]

theorem cut_last_eq_none (b : Buf n) (h : n ≤ b.text.length ∨ b.text = []) :
    (b.strlen.bind fun k => b.storeBefore k 0) = none := by
  rw [strlen]
  by_cases hnul : 0 ∈ b.bytes
  · have hlen := (zero_mem_iff _).mp hnul
    rw [b.length_eq] at hlen
    have htext : b.text = [] := h.resolve_left (Nat.not_le.mpr hlen)
    simp [hnul, htext, storeBefore]
  · rw [if_neg hnul, Option.bind_none]

/-- Appending a string that fits. -/
theorem strcat_eq_some (dst : Buf n) {src : List UInt8} (h0 : 0 ∉ src)
    (h : dst.text.length + src.length < n) :
    ∃ b, dst.strcat src = some b ∧ b.text = dst.text ++ src := by
  have hlen : (dst.text ++ src).length < n := by rwa [List.length_append]
  have hnul : 0 ∉ dst.text ++ src := by
    rw [List.mem_append, not_or]
    exact ⟨zero_not_mem_cstr _, h0⟩
  exact ⟨_, dst.strcpy_eq_some hlen, by rw [dst.text_fill_terminated hlen, cstr_of_not_mem hnul]⟩

theorem strcat_eq_none (dst : Buf n) {src : List UInt8} (h : n ≤ dst.text.length + src.length) :
    dst.strcat src = none := dst.strcpy_eq_none (by rwa [List.length_append])

theorem text_of_strcat {dst b : Buf n} {src : List UInt8} (h0 : 0 ∉ src)
    (h : dst.strcat src = some b) : b.text = dst.text ++ src := by
  obtain hin | hout := Nat.lt_or_ge (dst.text.length + src.length) n
  · obtain ⟨c, hc, htext⟩ := dst.strcat_eq_some h0 hin
    rwa [← Option.some.inj (hc.symm.trans h)]
  · rw [dst.strcat_eq_none hout] at h
    cases h

/-- A `strcat`, and more stores that go through if so many bytes still fit. -/
theorem isSome_strcat_bind (dst : Buf n) {src : List UInt8} (h0 : 0 ∉ src) {more : Nat}
    {f : Buf n → Option β}
    (hf : ∀ b : Buf n, b.text.length < n → ((f b).isSome ↔ b.text.length + more < n)) :
    ((dst.strcat src).bind f).isSome ↔ dst.text.length + (src.length + more) < n := by
  obtain hin | hout := Nat.lt_or_ge (dst.text.length + src.length) n
  · obtain ⟨b, hb, htext⟩ := dst.strcat_eq_some h0 hin
    have hlen : b.text.length = dst.text.length + src.length := by rw [htext, List.length_append]
    rw [hb, Option.bind_some, hf b (by omega), hlen, Nat.add_assoc]
  · rw [dst.strcat_eq_none hout, Option.bind_none]
    simp
    omega

/-! ### strings copied one after the other -/

/-- What is at a position after some strings have been copied: what the last of them put
there that reaches so far, with its NUL. -/
def residue (b : Buf n) (strs : List (List UInt8)) (p : Nat) : Option UInt8 :=
  match strs.reverse.find? fun str => p ≤ str.length with
  | some str => (str ++ [0])[p]?
  | none => b.bytes[p]?

/-- **Step lemma**: one string more in front. -/
theorem residue_cons (b : Buf n) {str : List UInt8} (h : str.length < n)
    (strs : List (List UInt8)) (p : Nat) :
    b.residue (str :: strs) p = (b.fill (str ++ [0])).residue strs p := by
  simp only [residue, List.reverse_cons, List.find?_append]
  cases strs.reverse.find? fun str => p ≤ str.length with
  | some later => rfl
  | none =>
      rw [b.bytes_fill_terminated h, List.append_cons]
      by_cases hp : p ≤ str.length
      · rw [List.getElem?_append_left (by simp; omega)]
        simp [hp]
      · have hdrop : str.length + 1 + (p - (str.length + 1)) = p := by omega
        rw [List.getElem?_append_right (by simp; omega), List.length_append,
          List.length_singleton, List.getElem?_drop, hdrop]
        simp [hp]

/-- **Run lemma**: strings that fit are copied, and leave their residue. -/
theorem foldlM_strcpy (b : Buf n) {strs : List (List UInt8)} (h : ∀ str ∈ strs, str.length < n) :
    ∃ c, strs.foldlM strcpy b = some c ∧ ∀ p : Nat, c.bytes[p]? = b.residue strs p := by
  induction strs generalizing b with
  | nil => exact ⟨b, rfl, fun p => rfl⟩
  | cons str strs ih =>
      have hstr := h str List.mem_cons_self
      have hrest := fun s hs => h s (List.mem_cons_of_mem str hs)
      obtain ⟨c, hc, hbytes⟩ := ih (b.fill (str ++ [0])) hrest
      refine ⟨c, ?_, fun p => ?_⟩
      · rw [List.foldlM_cons, b.strcpy_eq_some hstr]
        exact hc
      · rw [hbytes, b.residue_cons hstr]

theorem text_snprintf (dst : Buf n) {text : List UInt8} (h0 : 0 ∉ text) (h : text.length < n) :
    (dst.snprintf text).text = text := by
  rw [snprintf, List.take_of_length_le (Nat.le_sub_one_of_lt h), dst.text_fill_terminated h,
    cstr_of_not_mem h0]

end Buf

/-! ## reading lines -/

/-- One `fgets` into a buffer with room for `k` characters and the NUL: the
bytes up to and including the first newline, at most `k` of them, and the rest
of the stream. -/
def readLine : Nat → List UInt8 → List UInt8 × List UInt8
  | 0, s => ([], s)
  | _ + 1, [] => ([], [])
  | k + 1, b :: s =>
    if b = newline then ([b], s) else (b :: (readLine k s).1, (readLine k s).2)

/-- `fgets(line, n, stream)`: it reads at most `n - 1` characters. -/
def fgets (n : Nat) (s : List UInt8) : List UInt8 × List UInt8 := readLine (n - 1) s

theorem readLine_append (k : Nat) (s : List UInt8) :
    (readLine k s).1 ++ (readLine k s).2 = s := by
  fun_induction readLine k s with
  | case1 s => rfl
  | case2 => rfl
  | case3 k s => rfl
  | case4 k b s hb ih => rw [List.cons_append, ih]

theorem length_readLine_le (k : Nat) (s : List UInt8) : (readLine k s).1.length ≤ k := by
  fun_induction readLine k s with
  | case1 s => exact Nat.le_refl 0
  | case2 => exact Nat.zero_le _
  | case3 k s => simp
  | case4 k b s hb ih => simpa using ih

/-- A newline ends the line it is read with. -/
theorem newline_not_mem_dropLast_readLine (k : Nat) (s : List UInt8) :
    newline ∉ (readLine k s).1.dropLast := by
  fun_induction readLine k s with
  | case1 s => simp
  | case2 => simp
  | case3 k s => simp
  | case4 k b s hb ih =>
      cases hr : (readLine k s).1 with
      | nil => simp
      | cons c cs =>
          rw [hr] at ih
          rw [List.dropLast_cons_cons, List.mem_cons]
          rintro (h | h)
          · exact hb h.symm
          · exact ih h

/-- Something is read from a stream that is not at its end. -/
theorem readLine_fst_ne_nil {k : Nat} {s : List UInt8} (hk : 0 < k) (hs : s ≠ []) :
    (readLine k s).1 ≠ [] := by
  cases k with
  | zero => omega
  | succ k =>
      cases s with
      | nil => exact absurd rfl hs
      | cons b s => by_cases hb : b = newline <;> simp [readLine, hb]

/-- A line that fits is read whole. -/
theorem readLine_line {k : Nat} {t : List UInt8} (hk : t.length < k) (ht : newline ∉ t)
    (rest : List UInt8) : readLine k (t ++ newline :: rest) = (t ++ [newline], rest) := by
  induction t generalizing k with
  | nil =>
      cases k with
      | zero => cases hk
      | succ k => simp [readLine]
  | cons b t ih =>
      cases k with
      | zero => cases hk
      | succ k =>
          have hb : b ≠ newline := fun h => ht (h ▸ List.mem_cons_self)
          have ht' : newline ∉ t := fun h => ht (List.mem_cons_of_mem b h)
          rw [List.cons_append, readLine, if_neg hb, ih (Nat.lt_of_succ_lt_succ hk) ht']
          rfl

/-- What `while (fgets(line, n, stream))` reads, line by line, up to the end of
the stream.  An array of less than two characters never advances. -/
def fgetsAll (n : Nat) (s : List UInt8) : List (List UInt8) :=
  if _h : s ≠ [] ∧ 2 ≤ n then (fgets n s).1 :: fgetsAll n (fgets n s).2 else []
termination_by s.length
decreasing_by
  have hne : (readLine (n - 1) s).1 ≠ [] := readLine_fst_ne_nil (by omega) _h.1
  have hlen : (readLine (n - 1) s).1.length + (readLine (n - 1) s).2.length = s.length := by
    rw [← List.length_append, readLine_append]
  have hpos : 0 < (readLine (n - 1) s).1.length := List.length_pos_of_ne_nil hne
  simp only [fgets]
  omega

theorem fgetsAll_nil (n : Nat) : fgetsAll n [] = [] := by
  rw [fgetsAll, dif_neg (by simp)]

/-- A line that fits the array is one item. -/
theorem fgetsAll_line {n : Nat} {t : List UInt8} (hn : t.length + 2 ≤ n) (ht : newline ∉ t)
    (rest : List UInt8) :
    fgetsAll n (t ++ newline :: rest) = (t ++ [newline]) :: fgetsAll n rest := by
  rw [fgetsAll, dif_pos ⟨by simp, by omega⟩, fgets, readLine_line (by omega) ht]

/-- Every item fits the array and has a newline at its end only. -/
theorem mem_fgetsAll {n : Nat} {s c : List UInt8} (hc : c ∈ fgetsAll n s) :
    c.length ≤ n - 1 ∧ newline ∉ c.dropLast := by
  induction s using fgetsAll.induct (n := n) with
  | case1 s h ih =>
      rw [fgetsAll, dif_pos h, List.mem_cons] at hc
      cases hc with
      | inl he =>
          rw [he]
          exact ⟨length_readLine_le _ _, newline_not_mem_dropLast_readLine _ _⟩
      | inr ht => exact ih ht
  | case2 s h =>
      rw [fgetsAll, dif_neg h] at hc
      cases hc

/-- The items are the stream, cut into pieces. -/
theorem flatten_fgetsAll {n : Nat} (hn : 2 ≤ n) (s : List UInt8) :
    (fgetsAll n s).flatten = s := by
  induction s using fgetsAll.induct (n := n) with
  | case1 s h ih =>
      rw [fgetsAll, dif_pos h, List.flatten_cons, ih]
      exact readLine_append _ _
  | case2 s h =>
      have hs : s = [] := Classical.byContradiction fun hne => h ⟨hne, hn⟩
      rw [hs, fgetsAll_nil, List.flatten_nil]

/-! ### the items of `fgets` -/

/-- What one `fgets` into a `char[n]` may read. -/
def FgetsItem (n : Nat) (line : List UInt8) : Prop :=
  line ≠ [] ∧ line.length ≤ n - 1 ∧ newline ∉ line.dropLast

instance (n : Nat) (line : List UInt8) : Decidable (FgetsItem n line) :=
  inferInstanceAs (Decidable (_ ∧ _))

/-- There is room for the NUL. -/
theorem FgetsItem.length_lt {n : Nat} {line : List UInt8} (h : FgetsItem n line) (hn : 0 < n) :
    line.length < n := Nat.lt_of_le_sub_one hn h.2.1

/-- The end of the stream also ends an item. -/
theorem readLine_self {k : Nat} {t : List UInt8} (hk : t.length ≤ k) (ht : newline ∉ t.dropLast) :
    readLine k t = (t, []) := by
  induction t generalizing k with
  | nil => cases k <;> rfl
  | cons b t ih =>
      cases k with
      | zero => cases hk
      | succ k =>
          cases t with
          | nil => by_cases hb : b = newline <;> cases k <;> simp [readLine, hb]
          | cons c t =>
              rw [List.dropLast_cons_cons, List.mem_cons, not_or] at ht
              rw [readLine, if_neg (Ne.symm ht.1), ih (Nat.le_of_succ_le_succ hk) ht.2]

/-- The items are exactly what `fgets` reads from some stream. -/
theorem fgetsItem_iff {n : Nat} (hn : 2 ≤ n) (line : List UInt8) :
    FgetsItem n line ↔ ∃ s, s ≠ [] ∧ (fgets n s).1 = line := by
  constructor
  · rintro ⟨hne, hlen, hnl⟩
    exact ⟨line, hne, by rw [fgets, readLine_self hlen hnl]⟩
  · rintro ⟨s, hs, rfl⟩
    exact ⟨readLine_fst_ne_nil (by omega) hs, length_readLine_le _ _,
      newline_not_mem_dropLast_readLine _ _⟩

theorem fgetsItem_of_mem_fgetsAll {n : Nat} (hn : 2 ≤ n) {s c : List UInt8}
    (hc : c ∈ fgetsAll n s) : FgetsItem n c := by
  induction s using fgetsAll.induct n with
  | case1 s h ih =>
      rw [fgetsAll, dif_pos h, List.mem_cons] at hc
      cases hc with
      | inl he => exact (fgetsItem_iff hn c).mpr ⟨s, h.1, he.symm⟩
      | inr ht => exact ih ht
  | case2 s h =>
      rw [fgetsAll, dif_neg h] at hc
      cases hc

/-- A stream of whole lines: the last one has its newline too. -/
def WholeLines (s : List UInt8) : Prop := ∀ b ∈ s.getLast?, b = newline

instance (s : List UInt8) : Decidable (WholeLines s) :=
  decidable_of_iff (s.getLast?.all (· = newline) = true) (by simp [WholeLines, Option.all_eq_true])

/-- Reading stops at the end of the stream, at the end of the array, or at a newline. -/
theorem readLine_stops (k : Nat) (s : List UInt8) :
    (readLine k s).2 = [] ∨ (readLine k s).1.length = k ∨
      (readLine k s).1.getLast? = some newline := by
  fun_induction readLine k s with
  | case1 s => exact .inr (.inl rfl)
  | case2 => exact .inl rfl
  | case3 k s => exact .inr (.inr rfl)
  | case4 k b s hb ih =>
      obtain hrest | hlen | hlast := ih
      · exact .inl hrest
      · exact .inr (.inl (congrArg (· + 1) hlen))
      · refine .inr (.inr ?_)
        rw [List.getLast?_cons, hlast]
        rfl

/-- Of whole lines, every item has its newline, unless it fills the array. -/
theorem WholeLines.item {n : Nat} {s c : List UInt8} (hs : WholeLines s) (hc : c ∈ fgetsAll n s) :
    c.length = n - 1 ∨ c.getLast? = some newline := by
  induction s using fgetsAll.induct n with
  | case1 s h ih =>
      have hwhole : (fgets n s).1 ++ (fgets n s).2 = s := readLine_append _ _
      rw [fgetsAll, dif_pos h, List.mem_cons] at hc
      by_cases hrest : (fgets n s).2 = []
      · rw [hrest, List.append_nil] at hwhole
        rw [hrest, fgetsAll_nil, hwhole] at hc
        obtain rfl := hc.resolve_right List.not_mem_nil
        have hlast := List.getLast?_eq_some_getLast h.1
        exact .inr (hs _ hlast ▸ hlast)
      · cases hc with
        | inl he =>
            rw [he]
            exact (readLine_stops _ _).resolve_left hrest
        | inr ht =>
            refine ih (fun b hb => hs b ?_) ht
            rw [← hwhole, Option.mem_def, List.getLast?_append, Option.mem_def.mp hb]
            rfl
  | case2 s h =>
      rw [fgetsAll, dif_neg h] at hc
      cases hc

/-- What is read does not depend on what follows in the stream. -/
theorem readLine_whole {k : Nat} {t : List UInt8} (hk : t.length ≤ k) (ht : newline ∉ t.dropLast)
    (hend : t.length = k ∨ t.getLast? = some newline) (rest : List UInt8) :
    readLine k (t ++ rest) = (t, rest) := by
  induction t generalizing k with
  | nil =>
      obtain rfl : 0 = k := hend.resolve_right (by simp)
      rfl
  | cons b t ih =>
      cases k with
      | zero => cases hk
      | succ k =>
          cases t with
          | nil =>
              by_cases hb : b = newline
              · simp [readLine, hb]
              · obtain rfl : k = 0 := by simpa [hb] using hend
                simp [readLine, hb]
          | cons c t =>
              rw [List.dropLast_cons_cons, List.mem_cons, not_or] at ht
              have hrest : (c :: t).length = k ∨ (c :: t).getLast? = some newline := by
                simpa using hend
              rw [List.cons_append, readLine, if_neg (Ne.symm ht.1),
                ih (Nat.le_of_succ_le_succ hk) ht.2 hrest]

/-- An item of `fgets` that the end of the stream has not cut off. -/
def WholeItem (n : Nat) (item : List UInt8) : Prop :=
  FgetsItem n item ∧ (item.length = n - 1 ∨ item.getLast? = some newline)

instance (n : Nat) (item : List UInt8) : Decidable (WholeItem n item) :=
  inferInstanceAs (Decidable (_ ∧ _))

/-- Whole items are read again as they are, whatever follows. -/
theorem fgetsAll_flatten_append {n : Nat} (hn : 2 ≤ n) {items : List (List UInt8)}
    (h : ∀ item ∈ items, WholeItem n item) (rest : List UInt8) :
    fgetsAll n (items.flatten ++ rest) = items ++ fgetsAll n rest := by
  induction items with
  | nil => rfl
  | cons item items ih =>
      obtain ⟨⟨hne, hlen, hnl⟩, hend⟩ := h item List.mem_cons_self
      have hrest := ih fun i hi => h i (List.mem_cons_of_mem item hi)
      rw [List.flatten_cons, List.append_assoc, fgetsAll, dif_pos ⟨by simp [hne], hn⟩, fgets,
        readLine_whole hlen hnl hend, hrest, List.cons_append]

/-- A NUL in an item does not make it another one: the newline of a string stands at
the end of the item. -/
theorem FgetsItem.cstr_eq_iff {n : Nat} {line t : List UInt8} (h : FgetsItem n line) (ht : 0 ∉ t) :
    cstr line = t ++ [newline] ↔ line = t ++ [newline] := by
  constructor
  · intro hcstr
    obtain ⟨rest, hrest⟩ : cstr line <+: line := List.takeWhile_prefix _
    rw [hcstr] at hrest
    have hnil : rest = [] := by
      by_contra hne
      have hmem : newline ∈ line.dropLast := by
        rw [← hrest, List.dropLast_append_of_ne_nil hne]
        simp
      exact h.2.2 hmem
    rw [← hrest, hnil, List.append_nil]
  · intro hline
    rw [hline, cstr_of_not_mem]
    rw [List.mem_append, not_or]
    exact ⟨ht, by decide⟩

/-- A line without the newline at its end, if it has one. -/
def chomp (line : List UInt8) : List UInt8 :=
  if line.getLast? = some newline then line.dropLast else line

theorem chomp_subset (line : List UInt8) : chomp line ⊆ line := by
  unfold chomp
  split
  · exact List.dropLast_subset line
  · exact List.Subset.refl line

/-- A newline that only stands at the end is gone. -/
theorem newline_not_mem_chomp {line : List UInt8} (h : newline ∉ line.dropLast) :
    newline ∉ chomp line := by
  obtain rfl | ⟨t, b, rfl⟩ := List.eq_nil_or_concat line
  · simp [chomp]
  · rw [List.concat_eq_append] at h ⊢
    rw [List.dropLast_concat] at h
    by_cases hb : b = newline
    · simpa [chomp, hb] using h
    · have hchomp : chomp (t ++ [b]) = t ++ [b] := by simp [chomp, hb]
      simp [hchomp, h, Ne.symm hb]

theorem length_chomp_le (line : List UInt8) : (chomp line).length ≤ line.length := by
  unfold chomp
  split
  · rw [List.length_dropLast]
    omega
  · exact Nat.le_refl _

/-- An item of `fgets`, without its newline, fits every array at least as long as
the one it was read into. -/
theorem length_chomp_lt {n m : Nat} {line : List UInt8} (h : FgetsItem n line) (hn : 0 < n)
    (hm : n ≤ m) : (chomp line).length < m := by
  exact Nat.lt_of_le_of_lt (length_chomp_le line) (Nat.lt_of_lt_of_le (h.length_lt hn) hm)

/-- A newline that only stands at the end is what `strcspn` finds. -/
theorem takeWhile_eq_chomp {line : List UInt8} (h0 : 0 ∉ line) (hn : newline ∉ line.dropLast) :
    line.takeWhile (fun b => b ≠ 0 ∧ b ∉ [newline]) = chomp line := by
  obtain rfl | ⟨t, b, rfl⟩ := List.eq_nil_or_concat line
  · rfl
  · rw [List.concat_eq_append] at h0 hn ⊢
    rw [List.dropLast_concat] at hn
    have hpass : ∀ x ∈ t, decide (x ≠ 0 ∧ x ∉ [newline]) = true := by
      intro x hx
      have hx0 : x ≠ 0 := fun h => h0 (h ▸ List.mem_append_left _ hx)
      have hxn : x ≠ newline := fun h => hn (h ▸ hx)
      simpa using ⟨hx0, hxn⟩
    by_cases hb : b = newline
    · subst hb
      rw [takeWhile_append_stop (by simp), List.takeWhile_eq_self_iff.mpr hpass]
      simp [chomp]
    · have hb0 : b ≠ 0 := fun h => h0 (h ▸ List.mem_append_right _ List.mem_cons_self)
      have hchomp : chomp (t ++ [b]) = t ++ [b] := by simp [chomp, hb]
      rw [hchomp, List.takeWhile_eq_self_iff]
      intro x hx
      cases List.mem_append.mp hx with
      | inl h => exact hpass x h
      | inr h =>
          rw [List.mem_singleton.mp h]
          simpa using ⟨hb0, hb⟩

/-- A NUL cuts a line as a newline does. -/
theorem takeWhile_line_eq (bs : List UInt8) :
    (bs.takeWhile fun b => b ≠ 0 ∧ b ∉ [newline]) = (cstr bs).takeWhile fun b => b ∉ [newline] := by
  rw [cstr, List.takeWhile_takeWhile]
  congr 1
  grind

/-- A line stored in an array of any contents, then `b[strcspn(b, "\n")] = 0`: the array holds
the line up to its newline, or to a NUL in it. -/
theorem Buf.text_cut_of_cstr (b : Buf n) {line : List UInt8} (h : (cstr line).length < n) :
    ((b.fill (line ++ [0])).store (strcspn (b.fill (line ++ [0])).bytes [newline]) 0).text =
      line.takeWhile fun b => b ≠ 0 ∧ b ∉ [newline] := by
  show cstr ((b.fill (line ++ [0])).bytes.set _ 0) = _
  rw [cstr_set_strcspn, takeWhile_line_eq, takeWhile_line_eq, ← b.text_fill_terminated_of_cstr h,
    text]

/-- The same after `fgets`, which reads no more than fits. -/
theorem Buf.text_cut (b : Buf n) {line : List UInt8} (h : line.length < n) :
    ((b.fill (line ++ [0])).store (strcspn (b.fill (line ++ [0])).bytes [newline]) 0).text =
      line.takeWhile fun b => b ≠ 0 ∧ b ∉ [newline] :=
  b.text_cut_of_cstr (Nat.lt_of_le_of_lt (length_cstr_le line) h)

/-- Without a NUL in it, the line is what `fgets` read but for its newline. -/
theorem Buf.text_cut_line (b : Buf n) {line : List UInt8} (hn : 0 < n) (hline : FgetsItem n line)
    (h0 : 0 ∉ line) :
    ((b.fill (line ++ [0])).store (strcspn (b.fill (line ++ [0])).bytes [newline]) 0).text =
      chomp line := by
  rw [b.text_cut (hline.length_lt hn), takeWhile_eq_chomp h0 hline.2.2]

/-! ## numbers -/

/-- White space, as `isspace` has it in the C locale. -/
def isspace (b : UInt8) : Bool := b == 32 || (9 ≤ b && b ≤ 13)

def isdigit (b : UInt8) : Bool := 48 ≤ b && b ≤ 57

/-- The value of a run of decimal digits. -/
def digitsVal (ds : List UInt8) : Nat := ds.foldl (fun a d => 10 * a + (d.toNat - 48)) 0

/-- `LONG_MAX` of a 64-bit `long`. -/
def longMax : Int := 9223372036854775807

/-- `LONG_MIN`. -/
def longMin : Int := -longMax - 1

/-- `strtol(s, NULL, 10)`: white space, an optional sign, digits; the value
saturates at the ends of `long`. -/
def strtol (s : List UInt8) : Int :=
  match s.dropWhile isspace with
  | 45 :: ds => max longMin (-(digitsVal (ds.takeWhile isdigit) : Int))
  | 43 :: ds => min longMax (digitsVal (ds.takeWhile isdigit))
  | ds => min longMax (digitsVal (ds.takeWhile isdigit))

/-- `atoi(s)`, which is `(int) strtol(s, NULL, 10)`: the conversion keeps the
low 32 bits. -/
def atoi (s : List UInt8) : Int := (strtol s).bmod 4294967296

example : atoi (ascii " -12x") = -12 := by decide

end CStr
