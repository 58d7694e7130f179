import Reti.Lib.CString

/-!
# Reti.Lib.Strtok

`strtok`: the tokens of a string, which are its non-empty parts between the
delimiters, and how they change when the string grows at its end.
-/

namespace CStr

/-! ## the function -/

/-- One call of `strtok(s, delim)` on the C string `s`: the delimiters in front
are skipped; the token, and where the next call goes on, which is after the
delimiter that ends it. -/
def strtok (delim s : List UInt8) : Option (List UInt8 × List UInt8) :=
  let start := s.dropWhile fun b => b ∈ delim
  if start = [] then none
  else
    some (start.takeWhile fun b => b ∉ delim, (start.dropWhile fun b => b ∉ delim).tail)

/-- A token is made of bytes of the string. -/
theorem length_strtok_lt {delim s : List UInt8} {r : List UInt8 × List UInt8}
    (h : strtok delim s = some r) : r.2.length < s.length := by
  unfold strtok at h
  by_cases hs : s.dropWhile (fun b => b ∈ delim) = []
  · simp [hs] at h
  · have hle := (List.dropWhile_suffix (l := s) fun b => decide (b ∈ delim)).length_le
    have hpos := List.length_pos_of_ne_nil hs
    rw [if_neg hs] at h
    obtain rfl := Option.some.inj h
    have hrest := (List.dropWhile_suffix (l := s.dropWhile fun b => decide (b ∈ delim))
      fun b => decide (b ∉ delim)).length_le
    rw [List.length_tail]
    omega

/-- The tokens of `strtok(s, delim)` and of the calls `strtok(NULL, delim)` up to
the one that returns `NULL`. -/
def strtokAll (delim s : List UInt8) : List (List UInt8) :=
  match _h : strtok delim s with
  | none => []
  | some r => r.1 :: strtokAll delim r.2
termination_by s.length
decreasing_by exact length_strtok_lt _h

/-! ## tokens and fields -/

/-- The non-empty parts of a string between the delimiters. -/
def fields (delim s : List UInt8) : List (List UInt8) :=
  (s.splitOnP fun b => b ∈ delim).filter fun f => f ≠ []

theorem fields_delim {delim : List UInt8} {b : UInt8} (hb : b ∈ delim) (s : List UInt8) :
    fields delim (b :: s) = fields delim s := by
  simp [fields, List.splitOnP_cons_eq_if_modifyHead, hb]

/-- The delimiters in front are skipped. -/
theorem fields_dropWhile (delim s : List UInt8) :
    fields delim (s.dropWhile fun b => b ∈ delim) = fields delim s := by
  induction s with
  | nil => rfl
  | cons b s ih =>
      by_cases hb : b ∈ delim
      · rw [List.dropWhile_cons_of_pos (by simpa using hb), ih, fields_delim hb]
      · rw [List.dropWhile_cons_of_neg (by simpa using hb)]

/-- A part without delimiters is a field. -/
theorem fields_self {delim t : List UInt8} (ht : ∀ b ∈ t, b ∉ delim) (hne : t ≠ []) :
    fields delim t = [t] := by
  rw [fields, List.splitOnP_eq_singleton (by simpa using ht)]
  simp [hne]

/-- A delimiter ends it. -/
theorem fields_append_cons {delim t : List UInt8} {b : UInt8} (ht : ∀ b ∈ t, b ∉ delim)
    (hne : t ≠ []) (hb : b ∈ delim) (s : List UInt8) :
    fields delim (t ++ b :: s) = t :: fields delim s := by
  rw [fields, List.splitOnP_append_cons_of_forall_mem (by simpa using ht) b (by simpa using hb),
    List.filter_cons_of_pos (by simpa using hne), fields]

/-- A string that starts with no delimiter: its first field, and the others after
the delimiter that ends it. -/
theorem fields_cons {delim : List UInt8} {b : UInt8} (hb : b ∉ delim) (s : List UInt8) :
    fields delim (b :: s) = (b :: s).takeWhile (fun c => c ∉ delim) ::
      fields delim ((b :: s).dropWhile fun c => c ∉ delim).tail := by
  have hfree : ∀ c ∈ (b :: s).takeWhile (fun c => c ∉ delim), c ∉ delim := by
    intro c hc
    simpa using List.mem_takeWhile_imp hc
  have hne : (b :: s).takeWhile (fun c => c ∉ delim) ≠ [] := by
    rw [List.takeWhile_cons_of_pos (by simpa using hb)]
    simp
  have hsplit := List.takeWhile_append_dropWhile (p := fun c => decide (c ∉ delim)) (l := b :: s)
  have hstop := List.head?_dropWhile_not (fun c => decide (c ∉ delim)) (b :: s)
  cases hrest : (b :: s).dropWhile (fun c => c ∉ delim) with
  | nil =>
      rw [hrest, List.append_nil] at hsplit
      rw [hsplit] at hfree
      rw [hsplit, fields_self hfree (List.cons_ne_nil b s)]
      rfl
  | cons d ds =>
      rw [hrest] at hsplit hstop
      have hd : d ∈ delim := by simpa using hstop
      have hfields := fields_append_cons hfree hne hd ds
      rwa [hsplit] at hfields

/-- **Step lemma**: a call of `strtok` finds the first field, if there is one. -/
theorem fields_eq_strtok (delim s : List UInt8) :
    fields delim s =
      match strtok delim s with
      | none => []
      | some r => r.1 :: fields delim r.2 := by
  have hstop := List.head?_dropWhile_not (fun b => decide (b ∈ delim)) s
  rw [← fields_dropWhile, strtok]
  cases hstart : s.dropWhile (fun b => b ∈ delim) with
  | nil => rfl
  | cons c cs =>
      rw [hstart] at hstop
      have hc : c ∉ delim := by simpa using hstop
      rw [fields_cons hc, if_neg (List.cons_ne_nil c cs)]

theorem strtok_of_fields_nil {delim s : List UInt8} (h : fields delim s = []) :
    strtok delim s = none := by
  rw [fields_eq_strtok] at h
  split at h
  · assumption
  · cases h

theorem strtok_of_fields_cons {delim s f : List UInt8} {fs : List (List UInt8)}
    (h : fields delim s = f :: fs) :
    ∃ rest, strtok delim s = some (f, rest) ∧ fields delim rest = fs := by
  rw [fields_eq_strtok] at h
  split at h
  · cases h
  · next r hr =>
      obtain ⟨rfl, hrest⟩ := List.cons.inj h
      exact ⟨r.2, hr, hrest⟩

/-- `strtok` finds the fields, one after the other. -/
theorem strtokAll_eq_fields (delim s : List UInt8) : strtokAll delim s = fields delim s := by
  induction s using strtokAll.induct delim with
  | case1 s h =>
      rw [fields_eq_strtok, strtokAll, h]
  | case2 s r h ih =>
      rw [fields_eq_strtok, strtokAll, h]
      show r.1 :: strtokAll delim r.2 = r.1 :: fields delim r.2
      rw [ih]

/-! ## a string that grows at its end -/

/-- Only the last part can change. -/
theorem prefix_splitOnP_dropLast {p : α → Bool} {s t : List α} (h : s <+: t) :
    (s.splitOnP p).dropLast <+: t.splitOnP p := by
  obtain ⟨r, rfl⟩ := h
  induction s with
  | nil => exact List.nil_prefix
  | cons x s ih =>
      rw [List.cons_append, List.splitOnP_cons_eq_if_modifyHead,
        List.splitOnP_cons_eq_if_modifyHead]
      obtain ⟨a, l, hs⟩ := List.exists_cons_of_ne_nil (List.splitOnP_ne_nil p s)
      obtain ⟨b, m, ht⟩ := List.exists_cons_of_ne_nil (List.splitOnP_ne_nil p (s ++ r))
      rw [hs, ht] at ih ⊢
      by_cases hx : p x = true
      · rw [if_pos hx, if_pos hx, List.dropLast_cons_cons, List.prefix_cons_inj]
        exact ih
      · rw [if_neg hx, if_neg hx, List.modifyHead_cons, List.modifyHead_cons]
        cases l with
        | nil => exact List.nil_prefix
        | cons c l =>
            rw [List.dropLast_cons_cons, List.cons_prefix_cons] at ih ⊢
            exact ⟨congrArg (x :: ·) ih.1, ih.2⟩

/-- Only the last field can change; more can follow it. -/
theorem prefix_fields_dropLast {delim s t : List UInt8} (h : s <+: t) :
    (fields delim s).dropLast <+: fields delim t := by
  unfold fields
  have hparts := (prefix_splitOnP_dropLast (p := fun b => decide (b ∈ delim)) h).filter fun f =>
    decide (f ≠ [])
  refine List.IsPrefix.trans ?_ hparts
  obtain ⟨l, b, hs⟩ := List.eq_nil_or_concat (s.splitOnP fun b => decide (b ∈ delim))
    |>.resolve_left (List.splitOnP_ne_nil _ s)
  rw [hs, List.concat_eq_append, List.dropLast_concat, List.filter_append]
  by_cases hb : b = []
  · rw [List.filter_cons_of_neg (by simpa using hb), List.filter_nil, List.append_nil]
    exact List.dropLast_prefix _
  · have hsame : (l.filter (fun f => decide (f ≠ [])) ++ [b].filter fun f => f ≠ []).dropLast =
        l.filter fun f => f ≠ [] := by
      rw [List.filter_cons_of_pos (by simpa using hb), List.filter_nil, List.dropLast_concat]
    exact ⟨[], by rw [hsame, List.append_nil]⟩

/-! ## in an array -/

/-- The C string that starts at a position of an array. -/
def Buf.textAt (b : Buf n) (pos : Nat) : List UInt8 := cstr (b.bytes.drop pos)

/-- `strtok` as it works on the array, from the position where it was last: the delimiter
behind the token is overwritten.  It returns the position of the token, and keeps the
one where it goes on. -/
def Buf.strtokAt (delim : List UInt8) (b : Buf n) (pos : Nat) : Buf n × Option Nat × Nat :=
  let s := b.textAt pos
  let start := pos + (s.takeWhile fun c => c ∈ delim).length
  let token := (s.dropWhile fun c => c ∈ delim).takeWhile fun c => c ∉ delim
  let stop := start + token.length
  if token = [] then (b, none, start)
  else if stop = pos + s.length then (b, some start, stop)
  else (b.store stop 0, some start, stop + 1)

/-- A string ends where the next byte is a NUL, or the array ends. -/
theorem cstr_append_of_head? {s rest : List UInt8} (hs : 0 ∉ s) (hrest : ∀ b ∈ rest.head?, b = 0) :
    cstr (s ++ rest) = s := by
  cases rest with
  | nil => rw [List.append_nil, cstr_of_not_mem hs]
  | cons b rest =>
      obtain rfl := hrest b rfl
      rw [cstr_append_zero, cstr_of_not_mem hs]

theorem drop_add_of_drop {l u v : List α} {p : Nat} (h : l.drop p = u ++ v) :
    l.drop (p + u.length) = v := by
  rw [← List.drop_drop, h, List.drop_left]

/-- What is in front of a token, the token, and what is behind it. -/
theorem strtok_cases (delim s : List UInt8) :
    (strtok delim s = none ∧ s.dropWhile (fun c => c ∈ delim) = []) ∨
      ∃ token behind, (s.dropWhile fun c => c ∈ delim).takeWhile (fun c => c ∉ delim) = token ∧
        token ≠ [] ∧ s = s.takeWhile (fun c => c ∈ delim) ++ (token ++ behind) ∧
        strtok delim s = some (token, behind.tail) := by
  have hsplit := List.takeWhile_append_dropWhile (p := fun c => decide (c ∈ delim)) (l := s)
  have hfirst := List.head?_dropWhile_not (fun c => decide (c ∈ delim)) s
  cases hstart : s.dropWhile (fun c => c ∈ delim) with
  | nil =>
      left
      exact ⟨by simp [strtok, hstart], rfl⟩
  | cons c cs =>
      right
      rw [hstart] at hsplit hfirst
      have hc : c ∉ delim := by simpa using hfirst
      refine ⟨_, (c :: cs).dropWhile fun c => c ∉ delim, rfl, by simp [hc], ?_, ?_⟩
      · rw [List.takeWhile_append_dropWhile, hsplit]
      · simp [strtok, hstart]

namespace Buf

variable {delim : List UInt8} {b : Buf n} {pos : Nat}

theorem textAt_zero (b : Buf n) : b.textAt 0 = b.text := rfl

theorem textAt_of_drop {s rest : List UInt8} (h : b.bytes.drop pos = s ++ rest) (hs : 0 ∉ s)
    (hrest : ∀ c ∈ rest.head?, c = 0) : b.textAt pos = s := by
  rw [textAt, h, cstr_append_of_head? hs hrest]

/-- What stands behind the string: a NUL, or nothing. -/
theorem drop_eq_textAt_append (b : Buf n) (pos : Nat) :
    ∃ rest, b.bytes.drop pos = b.textAt pos ++ rest ∧ ∀ c ∈ rest.head?, c = 0 := by
  have hhead := List.head?_dropWhile_not (fun c : UInt8 => decide (c ≠ 0)) (b.bytes.drop pos)
  refine ⟨_, (List.takeWhile_append_dropWhile).symm, fun c hc => ?_⟩
  rw [Option.mem_def.mp hc] at hhead
  simpa using hhead

theorem strtokAt_of_none (h : strtok delim (b.textAt pos) = none) :
    ∃ next, b.strtokAt delim pos = (b, none, next) := by
  obtain ⟨-, hnil⟩ | ⟨_, _, -, -, -, hsome⟩ := strtok_cases delim (b.textAt pos)
  · exact ⟨_, by simp only [strtokAt, hnil, List.takeWhile_nil, if_true]; rfl⟩
  · rw [h] at hsome
    cases hsome

/-- **Step lemma**: the token stands in the array, up to a NUL, and behind it what `strtok`
leaves for the next call. -/
theorem strtokAt_of_some {token rest : List UInt8}
    (h : strtok delim (b.textAt pos) = some (token, rest)) :
    ∃ b' start next, b.strtokAt delim pos = (b', some start, next) ∧
      b'.textAt start = token ∧ b'.textAt next = rest := by
  obtain ⟨behind, hdrop, hbehind⟩ := b.drop_eq_textAt_append pos
  have hnul : 0 ∉ b.textAt pos := zero_not_mem_cstr _
  obtain ⟨hnone, -⟩ | ⟨token', after, htoken, hne, hsplit, hsome⟩ :=
    strtok_cases delim (b.textAt pos)
  · rw [hnone] at h
    cases h
  · obtain ⟨rfl, rfl⟩ := Prod.mk.inj (Option.some.inj (hsome.symm.trans h))
    generalize hskip : (b.textAt pos).takeWhile (fun c => c ∈ delim) = skipped at hsplit
    simp only [strtokAt, htoken, if_neg hne, hskip]
    rw [hsplit, List.mem_append, List.mem_append, not_or, not_or] at hnul
    obtain ⟨-, htok0, hafter0⟩ := hnul
    rw [hsplit, List.append_assoc] at hdrop
    have hstart := drop_add_of_drop hdrop
    cases after with
    | nil =>
        have hstop : pos + skipped.length + token'.length = pos + (b.textAt pos).length := by
          rw [hsplit]
          simp [Nat.add_assoc]
        rw [List.append_nil] at hstart
        rw [if_pos hstop]
        refine ⟨b, _, _, rfl, textAt_of_drop hstart htok0 hbehind, ?_⟩
        exact textAt_of_drop (drop_add_of_drop hstart) (by simp) hbehind
    | cons d after =>
        have hstop : pos + skipped.length + token'.length ≠ pos + (b.textAt pos).length := by
          rw [hsplit]
          simp
          omega
        rw [if_neg hstop]
        refine ⟨_, _, _, rfl, ?_, ?_⟩
        · -- the delimiter is a NUL now
          have hle := Nat.le_add_right (pos + skipped.length) token'.length
          have hset : (b.bytes.set (pos + skipped.length + token'.length) 0).drop
              (pos + skipped.length) = token' ++ 0 :: (after ++ behind) := by
            rw [List.drop_set, if_neg (Nat.not_lt.mpr hle), hstart]
            simp
          exact textAt_of_drop hset htok0 (by simp)
        · apply textAt_of_drop ?_ (fun h => hafter0 (List.mem_cons_of_mem d h)) hbehind
          have hnext : b.bytes.drop (pos + skipped.length) =
              token' ++ [d] ++ (after ++ behind) := by simp [hstart]
          rw [store, List.drop_set_of_lt (Nat.lt_succ_self _)]
          simpa [Nat.add_assoc] using drop_add_of_drop hnext

/-- The tokens of `strtok` on an array and of the calls up to the one that returns `NULL`,
each as it is found, and the array after the last call. -/
def tokens (delim : List UInt8) (b : Buf n) (pos : Nat) : Buf n × List (List UInt8) :=
  match _h : b.strtokAt delim pos with
  | (b', some start, next) =>
    let r := tokens delim b' next
    (r.1, b'.textAt start :: r.2)
  | (b', none, _) => (b', [])
termination_by (b.textAt pos).length
decreasing_by
  cases htok : strtok delim (b.textAt pos) with
  | none =>
      obtain ⟨next', hnone⟩ := strtokAt_of_none htok
      rw [_h] at hnone
      cases hnone
  | some r =>
      obtain ⟨b'', start', next', hsome, -, hrest⟩ := strtokAt_of_some htok
      obtain ⟨rfl, -, rfl⟩ : b'' = b' ∧ start' = start ∧ next' = next := by simp_all
      rw [hrest]
      exact length_strtok_lt htok

/-- **Run lemma**: the tokens that are found in the array are those of the string. -/
theorem tokens_eq (delim : List UInt8) (b : Buf n) (pos : Nat) :
    (b.tokens delim pos).2 = CStr.strtokAll delim (b.textAt pos) := by
  generalize hs : b.textAt pos = s
  induction s using strtokAll.induct delim generalizing b pos with
  | case1 s h =>
      subst hs
      obtain ⟨next, hnone⟩ := strtokAt_of_none h
      rw [CStr.strtokAll, h, tokens, hnone]
  | case2 s r h ih =>
      subst hs
      obtain ⟨b', start, next, hsome, htoken, hrest⟩ := strtokAt_of_some h
      rw [CStr.strtokAll, h, tokens, hsome]
      exact congrArg₂ List.cons htoken (ih b' next hrest)

end Buf

end CStr
