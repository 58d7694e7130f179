import Reti.Analgram.Verdict

/-!
# Reti.Analgram.Bounds

The anagram checker with its three blocks of the heap: each access to one of them is
checked, and outside its block it is `none`.  The blocks of the two strings are as large as
the other string, so the copies fit exactly if the strings have the same length; then the
loops stay inside, and compute the verdict.

The contents of fresh blocks are arbitrary, and `malloc` is taken not to fail.
-/

namespace Reti.Analgram

open CStr

/-! ## the program -/

/-- An argument of the program: a string has no NUL in it. -/
structure Arg where
  chars : List UInt8
  no_nul : 0 ∉ chars
  deriving DecidableEq, Repr

/-- The inner loop, over the last positions of `str2` from `j` on. -/
def matchFrom (str1 : Buf m) (str2 : Buf n) (buff : Buf k) (i : Nat) : Nat → Nat → Option (Buf k)
  | 0, _ => some buff
  | rest + 1, j =>
    (buff.load j).bind fun b =>
      if b = mark then matchFrom str1 str2 buff i rest (j + 1)
      else
        (str1.load i).bind fun c =>
          (str2.load j).bind fun d =>
            if c = d then buff.storeAt j mark else matchFrom str1 str2 buff i rest (j + 1)

/-- The first `i` iterations of the outer loop. -/
def matchLoop (str1 : Buf m) (str2 : Buf n) (buff : Buf k) (str2len i : Nat) : Option (Buf k) :=
  (List.range i).foldlM (fun buff i => matchFrom str1 str2 buff i str2len 0) buff

/-- The loop that looks for a position that is not consumed, and prints the characters of
`str1` on its way. -/
def verify (str1 : Buf m) (buff : Buf k) : Nat → Nat → Option (List UInt8)
  | 0, _ => some anagrams
  | rest + 1, i =>
    (buff.load i).bind fun b =>
      if b = mark then (str1.load i).bind fun _ => verify str1 buff rest (i + 1)
      else some different

/-- `main`, from the three blocks on: the last line that is printed. -/
def analgram (argv1 argv2 : Arg) (heap1 : Buf (argv2.chars.length + 1))
    (heap2 : Buf (argv1.chars.length + 1)) (heap3 : Buf (argv2.chars.length + 1)) :
    Option (List UInt8) :=
  let str1len := argv1.chars.length
  let str2len := argv2.chars.length
  (heap1.strcpy argv1.chars).bind fun str1 =>
    (heap2.strcpy argv2.chars).bind fun str2 =>
      if str1len > str2len ∨ str2len > str1len then some different
      else
        (str2.readString.bind heap3.strcpy).bind fun buff =>
          buff.readString.bind fun _ =>
            (matchLoop str1 str2 buff str2len str1len).bind fun buff =>
              buff.readString.bind fun _ => verify str1 buff str2len 0

/-! ## blocks -/

/-- The block is the string with its NUL. -/
def Holds (b : Buf n) (chars : List UInt8) : Prop := b.bytes = chars ++ [0]

/-- A string fills a block of its size. -/
theorem holds_of_strcpy (heap : Buf n) {chars : List UInt8} (h : chars.length + 1 = n) :
    ∃ b, heap.strcpy chars = some b ∧ Holds b chars := by
  have hfits : chars.length < n := by omega
  refine ⟨_, heap.strcpy_eq_some hfits, ?_⟩
  have hdrop : heap.bytes.drop (chars.length + 1) = [] :=
    List.drop_of_length_le (by rw [heap.length_eq, h])
  rw [Holds, heap.bytes_fill_terminated hfits, hdrop]

theorem Holds.length {b : Buf n} {chars : List UInt8} (h : Holds b chars) :
    n = chars.length + 1 := by
  rw [← b.length_eq, h, List.length_append, List.length_singleton]

theorem Holds.readString {b : Buf n} {chars : List UInt8} (h : Holds b chars) :
    b.readString = some (cstr chars) := by
  have htext : b.text = cstr chars := by
    rw [Buf.text, h, cstr_append_zero]
  rw [Buf.readString_eq_some_iff, htext, h.length]
  exact ⟨rfl, Nat.lt_succ_of_le (length_cstr_le chars)⟩

theorem Holds.load {b : Buf n} {before after : List UInt8} {c : UInt8}
    (h : Holds b (before ++ c :: after)) : b.load before.length = some c := by
  rw [Buf.load, h]
  simp

theorem Holds.storeAt {b : Buf n} {before after : List UInt8} {c : UInt8}
    (h : Holds b (before ++ c :: after)) (d : UInt8) :
    ∃ b', b.storeAt before.length d = some b' ∧ Holds b' (before ++ d :: after) := by
  have hlen := h.length
  rw [List.length_append, List.length_cons] at hlen
  refine ⟨b.store before.length d, if_pos (by omega), ?_⟩
  show b.bytes.set before.length d = _
  rw [h]
  simp

/-! ## the loops -/

/-- **Step lemma**: the inner loop stays in the blocks, and consumes a character. -/
theorem matchFrom_eq_some {str1 : Buf m} {i : Nat} {c : UInt8} (hc : str1.load i = some c)
    {str2 : Buf n} {buff : Buf k} {before2 after2 before after : List UInt8}
    (hbefore : before2.length = before.length) (hafter : after2.length = after.length)
    (h2 : Holds str2 (before2 ++ after2)) (h : Holds buff (before ++ after)) :
    ∃ buff', matchFrom str1 str2 buff i after.length before.length = some buff' ∧
      Holds buff' (before ++ consume c after2 after) := by
  induction after generalizing before2 after2 before with
  | nil =>
      rw [List.length_nil, List.length_eq_zero_iff] at hafter
      subst hafter
      exact ⟨buff, rfl, h⟩
  | cons b after ih =>
      cases after2 with
      | nil => cases hafter
      | cons d after2 =>
          -- the next position, with what is before it
          have hnext : (before2 ++ [d]).length = (before ++ [b]).length := by simp [hbefore]
          rw [List.append_cons] at h2 h
          obtain ⟨buff', hrun, hholds⟩ := ih hnext (Nat.succ_inj.mp hafter) h2 h
          rw [← List.append_cons] at h2 h
          have hload := h.load
          have hload2 := h2.load
          rw [hbefore] at hload2
          rw [List.length_append, List.length_singleton] at hrun
          rw [← List.append_cons] at hholds
          rw [List.length_cons, matchFrom, hload, Option.bind_some, hc, hload2, consume]
          by_cases hmark : b = mark
          · rw [if_pos hmark, if_pos hmark]
            exact ⟨buff', hrun, hholds⟩
          · rw [if_neg hmark, if_neg hmark, Option.bind_some, Option.bind_some]
            by_cases hcd : c = d
            · rw [if_pos hcd, if_pos hcd]
              exact h.storeAt mark
            · rw [if_neg hcd, if_neg hcd]
              exact ⟨buff', hrun, hholds⟩

theorem length_consume (c : UInt8) (str2 buff : List UInt8) :
    (consume c str2 buff).length = buff.length := by
  fun_induction consume c str2 buff <;> simp_all

theorem length_consumeAll (str1 str2 buff : List UInt8) :
    (consumeAll str1 str2 buff).length = buff.length := by
  induction str1 generalizing buff with
  | nil => rfl
  | cons c str1 ih => exact (ih _).trans (length_consume c str2 buff)

/-- **Run lemma**: after `i` iterations the characters before the `i`-th are consumed. -/
theorem matchLoop_eq_some {str1 : Buf m} {str2 : Buf n} {buff : Buf k}
    {chars1 chars2 chars : List UInt8} (h1 : Holds str1 chars1) (h2 : Holds str2 chars2)
    (h : Holds buff chars) (hlen : chars2.length = chars.length) {i : Nat}
    (hi : i ≤ chars1.length) :
    ∃ buff', matchLoop str1 str2 buff chars2.length i = some buff' ∧
      Holds buff' (consumeAll (chars1.take i) chars2 chars) := by
  induction i with
  | zero => exact ⟨buff, rfl, h⟩
  | succ i ih =>
      obtain ⟨buff', hrun, hholds⟩ := ih (Nat.le_of_succ_le hi)
      have hsplit : chars1 = chars1.take i ++ chars1[i] :: chars1.drop (i + 1) := by
        rw [← List.drop_eq_getElem_cons hi, List.take_append_drop]
      have hc : str1.load i = some chars1[i] := by
        rw [hsplit] at h1
        have hload := h1.load
        rwa [List.length_take_of_le (Nat.le_of_succ_le hi)] at hload
      have hlen' : chars2.length = (consumeAll (chars1.take i) chars2 chars).length := by
        rw [length_consumeAll, hlen]
      have h2start : Holds str2 ([] ++ chars2) := h2
      have hstart : Holds buff' ([] ++ consumeAll (chars1.take i) chars2 chars) := hholds
      obtain ⟨buff'', hrow, hholds'⟩ := matchFrom_eq_some hc rfl hlen' h2start hstart
      refine ⟨buff'', ?_, ?_⟩
      · rw [← hlen'] at hrow
        rw [matchLoop, List.range_succ, List.foldlM_append]
        simp only [matchLoop] at hrun
        rw [hrun]
        simpa using hrow
      · rw [List.take_succ_eq_append_getElem hi, consumeAll, List.foldl_append]
        exact hholds'

/-- The verification stays in the blocks, and looks at every position. -/
theorem verify_eq_some {str1 : Buf m} {buff : Buf k} {before1 after1 before after : List UInt8}
    (hbefore : before1.length = before.length) (hafter : after1.length = after.length)
    (h1 : Holds str1 (before1 ++ after1)) (h : Holds buff (before ++ after)) :
    verify str1 buff after.length before.length = some (check after) := by
  induction after generalizing before1 after1 before with
  | nil => rfl
  | cons b after ih =>
      cases after1 with
      | nil => cases hafter
      | cons c after1 =>
          have hnext : (before1 ++ [c]).length = (before ++ [b]).length := by simp [hbefore]
          have hload1 := h1.load
          rw [hbefore] at hload1
          rw [List.length_cons, verify, h.load, Option.bind_some, hload1, check]
          rw [List.append_cons] at h1 h
          have hrun := ih hnext (Nat.succ_inj.mp hafter) h1 h
          rw [List.length_append, List.length_singleton] at hrun
          rw [Option.bind_some, hrun]
          split <;> rfl

/-! ## the whole program -/

/-- With arguments of the same length nothing outside the blocks is touched, and the program
computes the verdict. -/
theorem analgram_eq_verdict {argv1 argv2 : Arg} (hlen : argv1.chars.length = argv2.chars.length)
    (heap1 heap3 : Buf (argv2.chars.length + 1)) (heap2 : Buf (argv1.chars.length + 1)) :
    analgram argv1 argv2 heap1 heap2 heap3 = some (verdict argv1.chars argv2.chars) := by
  obtain ⟨str1, hcopy1, h1⟩ := @holds_of_strcpy _ heap1 argv1.chars (by rw [hlen])
  obtain ⟨str2, hcopy2, h2⟩ := @holds_of_strcpy _ heap2 argv2.chars (by rw [hlen])
  obtain ⟨buff, hcopy, h⟩ := @holds_of_strcpy _ heap3 argv2.chars rfl
  obtain ⟨marked, hloop, hmarked⟩ :=
    matchLoop_eq_some h1 h2 h rfl (Nat.le_refl argv1.chars.length)
  rw [List.take_length] at hmarked
  have hread2 : str2.readString = some argv2.chars := by
    rw [h2.readString, cstr_of_not_mem argv2.no_nul]
  have h1start : Holds str1 ([] ++ argv1.chars) := h1
  have hstart : Holds marked ([] ++ consumeAll argv1.chars argv2.chars argv2.chars) := hmarked
  have hlen' : argv1.chars.length =
      (consumeAll argv1.chars argv2.chars argv2.chars).length := by rw [length_consumeAll, hlen]
  have hverify := verify_eq_some rfl hlen' h1start hstart
  rw [length_consumeAll, List.length_nil] at hverify
  have hsame : ¬(argv1.chars.length > argv2.chars.length ∨
      argv2.chars.length > argv1.chars.length) := by omega
  simp only [analgram]
  rw [hcopy1, Option.bind_some, hcopy2, Option.bind_some, if_neg hsame, hread2, Option.bind_some,
    hcopy, Option.bind_some, h.readString, Option.bind_some, hloop, Option.bind_some,
    hmarked.readString, Option.bind_some, hverify, verdict, if_neg hsame]

/-- The copy of the longer string goes behind its block, before the lengths are compared. -/
theorem analgram_eq_none {argv1 argv2 : Arg} (hlen : argv1.chars.length ≠ argv2.chars.length)
    (heap1 heap3 : Buf (argv2.chars.length + 1)) (heap2 : Buf (argv1.chars.length + 1)) :
    analgram argv1 argv2 heap1 heap2 heap3 = none := by
  simp only [analgram]
  obtain h | h := Nat.lt_or_gt_of_ne hlen
  · cases heap1.strcpy argv1.chars with
    | none => rfl
    | some str1 => rw [Option.bind_some, heap2.strcpy_eq_none h, Option.bind_none]
  · rw [heap1.strcpy_eq_none h, Option.bind_none]

/-- **Bounds**: whatever is in the fresh blocks, every access lies in its block, and strings
of different lengths are answered with `different`, exactly if the two arguments have the
same length. -/
theorem analgram_inBounds_iff (argv1 argv2 : Arg) (heap1 heap3 : Buf (argv2.chars.length + 1))
    (heap2 : Buf (argv1.chars.length + 1)) :
    (∃ answer, analgram argv1 argv2 heap1 heap2 heap3 = some answer ∧
      (argv1.chars.length ≠ argv2.chars.length → answer = different)) ↔
      argv1.chars.length = argv2.chars.length := by
  constructor
  · rintro ⟨answer, hanswer, -⟩
    by_contra hlen
    rw [analgram_eq_none hlen] at hanswer
    cases hanswer
  · intro hlen
    exact ⟨_, analgram_eq_verdict hlen heap1 heap3 heap2, fun hne => absurd hlen hne⟩

/-- The second block has two bytes, for two characters and a NUL. -/
theorem longer_second_overflows :
    analgram ⟨ascii "a", by decide⟩ ⟨ascii "ab", by decide⟩ (Buf.zero 3) (Buf.zero 2)
      (Buf.zero 3) = none := by
  decide

end Reti.Analgram
