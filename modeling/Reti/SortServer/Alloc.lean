import Reti.SortServer.Parser
import Reti.Lib.Transducer

/-!
# Reti.SortServer.Alloc

A connection of the sorting server, with the array of numbers that `realloc` makes
longer for each token.  The branch for a `realloc` that fails stands in the loop over
the tokens, and its `continue` goes on with this loop: the token comes again, with the
array freed and the connection closed.
-/

namespace Reti.SortServer

open CStr

/-! ## a connection, one `realloc` after the other -/

/-- What `numbers` points to. -/
inductive Block where
  | null
  | live
  | freed
  deriving DecidableEq, Repr

/-- `free(numbers)`. -/
def Block.free : Block → Block
  | null => null
  | live => freed
  | freed => freed

/-- What the server does with the array and the connection. -/
inductive Act where
  | realloc (numbers : Block)
  | access (numbers : Block)
  | send (text : List UInt8)
  | free (numbers : Block)
  | close
  deriving DecidableEq, Repr

/-- The variables of the loop over the tokens: what `strtok` returned, with the text it
goes on with, and the array. -/
structure Conn where
  token : Option (List UInt8 × List UInt8)
  numbers : Block
  values : List Int
  deriving DecidableEq, Repr

/-- After the loop: no number, no answer. -/
def finish (qsort : Qsort) (c : Conn) : Conn × List Act :=
  if c.values.length = 0 then (c, [.close])
  else
    ({ c with numbers := c.numbers.free },
      [.access c.numbers, .send (rebuild (qsort.sort c.values)), .free c.numbers, .close])

/-- `while (token != NULL)`: the loop waits for the next `realloc` or ends. -/
def loop (qsort : Qsort) (c : Conn) : Conn × List Act :=
  match c.token with
  | some _ => (c, [])
  | none => finish qsort c

/-- The body of the loop, given whether `realloc` succeeds. -/
def step (qsort : Qsort) (c : Conn) (success : Bool) : Conn × List Act :=
  match c.token with
  | none => (c, [])
  | some (token, rest) =>
    if success then
      let next := loop qsort ⟨strtok comma rest, .live, c.values ++ [atoi token]⟩
      (next.1, [.realloc c.numbers, .access .live] ++ next.2)
    else
      -- `continue` leaves the token as it is
      ({ c with numbers := c.numbers.free }, [.realloc c.numbers, .free c.numbers, .close])

/-- An accepted connection up to the first `realloc`. -/
def start (qsort : Qsort) (buffer : Buf bufsize) : RecvRet → Conn × List Act
  | .data chunk => loop qsort ⟨strtok comma (receive buffer chunk).text, .null, []⟩
  | _ => (⟨none, .null, []⟩, [.close])

/-- A connection, as far as these `realloc`s go. -/
def handle (qsort : Qsort) (buffer : Buf bufsize) (ret : RecvRet) (successes : List Bool) :
    Conn × List Act :=
  let first := start qsort buffer ret
  let later := Transducer.run (step qsort) first.1 successes
  (later.1, first.2 ++ later.2)

/-! ## what is expected of it -/

namespace Act

def isSend : Act → Bool
  | send _ => true
  | _ => false

/-- The array is freed. -/
def frees : Act → Bool
  | free numbers => numbers ≠ .null
  | _ => false

/-- The array is used, or freed, after it was freed. -/
def usesFreed : Act → Bool
  | realloc numbers => numbers = .freed
  | access numbers => numbers = .freed
  | free numbers => numbers = .freed
  | _ => false

/-- The array is made longer or written to. -/
def fillsArray : Act → Bool
  | realloc numbers => numbers ≠ .freed
  | access numbers => numbers ≠ .freed
  | _ => false

/-- The text that is sent. -/
def text? : Act → Option (List UInt8)
  | send text => some text
  | _ => none

end Act

/-- One close, at most one reply and none after the close, and the array freed at most
once and not used afterwards. -/
structure Proper (acts : List Act) : Prop where
  closed : acts.count .close = 1
  sent : acts.countP Act.isSend ≤ 1
  order : acts.Pairwise fun a b => a = .close → b.isSend = false
  freed : acts.countP Act.frees ≤ 1
  used : ∀ a ∈ acts, a.usesFreed = false

/-- The connection ends, and is handled properly. -/
def Handled (qsort : Qsort) (buffer : Buf bufsize) (ret : RecvRet) (success : Nat → Bool) : Prop :=
  ∃ n, (handle qsort buffer ret ((List.range n).map success)).1.token = none ∧
    Proper (handle qsort buffer ret ((List.range n).map success)).2

/-- What `recv` stored, up to the NUL. -/
def requestText : RecvRet → List UInt8
  | .data chunk => cstr chunk
  | _ => []

/-- The tokens still to come, the present one included. -/
def tokensLeft (c : Conn) : Nat :=
  match c.token with
  | none => 0
  | some (_, rest) => (fields comma rest).length + 1

/-! ## every `realloc` succeeds -/

/-- **Run lemma**: the array is filled, and then the loop ends. -/
theorem run_success (qsort : Qsort) {text : List UInt8} {c : Conn}
    (htoken : c.token = strtok comma text) (hnumbers : c.numbers ≠ .freed) :
    let first := loop qsort c
    let later := Transducer.run (step qsort) first.1
      (List.replicate (fields comma text).length true)
    later.1.token = none ∧ ∃ filling numbers, (∀ a ∈ filling, a.fillsArray = true) ∧
      numbers ≠ .freed ∧ first.2 ++ later.2 = filling ++
        (finish qsort ⟨none, numbers, c.values ++ (fields comma text).map atoi⟩).2 := by
  intro first later
  subst first later
  generalize hfs : fields comma text = fs
  induction fs generalizing text c with
  | nil =>
      have hnone := strtok_of_fields_nil hfs
      obtain ⟨token, numbers, values⟩ := c
      obtain rfl : token = none := htoken.trans hnone
      refine ⟨?_, [], numbers, by simp, hnumbers, by simp [loop]⟩
      simp only [loop, finish]
      split <;> rfl
  | cons f fs ih =>
      obtain ⟨rest, hsome, hrest⟩ := strtok_of_fields_cons hfs
      obtain ⟨token, numbers, values⟩ := c
      obtain rfl : token = some (f, rest) := htoken.trans hsome
      obtain ⟨hend, filling, block, hfilling, hblock, hacts⟩ :=
        ih (c := ⟨strtok comma rest, .live, values ++ [atoi f]⟩) rfl (by simp) hrest
      refine ⟨hend, [.realloc numbers, .access .live] ++ filling, block, ?_, hblock, ?_⟩
      · simpa [Act.fillsArray, hnumbers] using hfilling
      · rw [List.append_assoc, List.map_cons, List.append_cons, ← hacts, ← List.append_assoc]
        rfl

/-- What fills the array neither sends nor closes nor frees. -/
theorem filling_apart {filling : List Act} (h : ∀ a ∈ filling, a.fillsArray = true) :
    ∀ a ∈ filling, a ≠ .close ∧ a.isSend = false ∧ a.frees = false ∧ a.usesFreed = false := by
  intro a ha
  have hfills := h a ha
  cases a <;> grind [Act.fillsArray, Act.isSend, Act.frees, Act.usesFreed]

theorem filling_text {filling : List Act} (h : ∀ a ∈ filling, a.fillsArray = true) :
    filling.filterMap Act.text? = [] := by
  rw [List.filterMap_eq_nil_iff]
  intro a ha
  have hfills := h a ha
  cases a <;> grind [Act.fillsArray, Act.text?]

/-- Filling the array first changes nothing. -/
theorem Proper.append_filling {filling acts : List Act} (h : Proper acts)
    (hfilling : ∀ a ∈ filling, a.fillsArray = true) : Proper (filling ++ acts) := by
  have hapart := filling_apart hfilling
  have hopen : ∀ a ∈ filling, ∀ b : Act, a = .close → b.isSend = false :=
    fun a ha b hclose => absurd hclose (hapart a ha).1
  constructor
  · rw [List.count_append, List.count_eq_zero.mpr fun hmem => (hapart _ hmem).1 rfl, Nat.zero_add]
    exact h.closed
  · rw [List.countP_append, List.countP_eq_zero.mpr fun a ha => by simp [(hapart a ha).2.1],
      Nat.zero_add]
    exact h.sent
  · rw [List.pairwise_append]
    exact ⟨List.pairwise_of_forall_mem_list fun a ha b _ => hopen a ha b, h.order,
      fun a ha b _ => hopen a ha b⟩
  · rw [List.countP_append, List.countP_eq_zero.mpr fun a ha => by simp [(hapart a ha).2.2.1],
      Nat.zero_add]
    exact h.freed
  · rw [List.forall_mem_append]
    exact ⟨fun a ha => (hapart a ha).2.2.2, h.used⟩

theorem proper_close : Proper [.close] := by
  constructor <;> simp [Act.isSend, Act.frees, Act.usesFreed]

theorem proper_finish (qsort : Qsort) {c : Conn} (h : c.numbers ≠ .freed) :
    Proper (finish qsort c).2 := by
  unfold finish
  split
  · exact proper_close
  · constructor
    · simp
    · simp [List.countP_cons, Act.isSend]
    · simp [Act.isSend]
    · by_cases hnull : c.numbers = .null <;> simp [Act.frees, hnull]
    · simp [Act.usesFreed, h]

/-! ## some `realloc` fails -/

@[simp] theorem token_loop (qsort : Qsort) (c : Conn) : (loop qsort c).1.token = c.token := by
  unfold loop finish
  split
  · rfl
  · split <;> rfl

theorem tokensLeft_strtok {c : Conn} {text : List UInt8} (h : c.token = strtok comma text) :
    tokensLeft c = (fields comma text).length := by
  rw [fields_eq_strtok, tokensLeft, h]
  cases strtok comma text <;> rfl

/-- A loop that ends closes the connection. -/
theorem close_mem_loop (qsort : Qsort) {c : Conn} (h : c.token = none) :
    Act.close ∈ (loop qsort c).2 := by
  rw [loop, h]
  show Act.close ∈ (finish qsort c).2
  unfold finish
  split <;> simp

theorem close_mem_step (qsort : Qsort) {c : Conn} (hc : c.token ≠ none) {success : Bool}
    (h : success = false ∨ (step qsort c success).1.token = none) :
    Act.close ∈ (step qsort c success).2 := by
  obtain ⟨token, numbers, values⟩ := c
  obtain ⟨⟨t, rest⟩, rfl⟩ := Option.ne_none_iff_exists'.mp hc
  cases success with
  | false => simp [step]
  | true =>
      have hend : strtok comma rest = none := by simpa [step] using h
      have hclose := close_mem_loop qsort (c := ⟨strtok comma rest, .live, values ++ [atoi t]⟩) hend
      simpa [step] using hclose

/-- However the `realloc`s go, a connection that ends is closed. -/
theorem close_mem_run (qsort : Qsort) {c : Conn} (hc : c.token ≠ none) {successes : List Bool}
    (h : (Transducer.run (step qsort) c successes).1.token = none) :
    Act.close ∈ (Transducer.run (step qsort) c successes).2 := by
  induction successes generalizing c with
  | nil => exact absurd h hc
  | cons success successes ih =>
      rw [Transducer.run_cons_snd, List.mem_append]
      by_cases hend : (step qsort c success).1.token = none
      · exact Or.inl (close_mem_step qsort hc (Or.inr hend))
      · exact Or.inr (ih hend h)

/-- **Run lemma**: a connection that ends with one close has had no `realloc` that
failed. -/
theorem success_of_closed_once (qsort : Qsort) {c : Conn} {successes : List Bool}
    (hend : (Transducer.run (step qsort) c successes).1.token = none)
    (honce : (Transducer.run (step qsort) c successes).2.count .close ≤ 1) :
    ∀ i < tokensLeft c, successes[i]? = some true := by
  induction successes generalizing c with
  | nil =>
      have hnone : c.token = none := hend
      simp [tokensLeft, hnone]
  | cons success successes ih =>
      rintro i hi
      obtain ⟨token, numbers, values⟩ := c
      cases token with
      | none => cases hi
      | some next =>
          rw [Transducer.run_cons_snd, List.count_append] at honce
          cases success with
          | false =>
              -- the token is still there: the connection is closed again
              have hfirst : Act.close ∈ (step qsort ⟨some next, numbers, values⟩ false).2 :=
                close_mem_step qsort (by simp) (Or.inl rfl)
              have hrest : (Transducer.run (step qsort) (step qsort ⟨some next, numbers, values⟩
                  false).1 successes).1.token = none := hend
              have hagain := close_mem_run qsort (by simp [step]) hrest
              rw [← List.count_pos_iff] at hfirst hagain
              omega
          | true =>
              have hnext : (step qsort ⟨some next, numbers, values⟩ true).1.token =
                  strtok comma next.2 := by simp [step]
              cases i with
              | zero => rfl
              | succ i =>
                  refine ih hend (by omega) i ?_
                  rw [tokensLeft_strtok hnext]
                  exact Nat.lt_of_succ_lt_succ hi

/-! ## a connection is handled -/

/-- The connection of a request that was read: what it holds before the first `realloc`. -/
def received (text : List UInt8) : Conn := ⟨strtok comma text, .null, []⟩

theorem start_data (qsort : Qsort) (buffer : Buf bufsize) {chunk : List UInt8}
    (h : chunk.length < bufsize) :
    start qsort buffer (.data chunk) = loop qsort (received (cstr chunk)) := by
  rw [start, text_receive buffer h, received]

/-- With every `realloc` a connection ends, and what it does is to fill the array and to
finish. -/
theorem handle_success (qsort : Qsort) (buffer : Buf bufsize) {ret : RecvRet}
    (hret : ret.Fits (bufsize - 1)) :
    let r := handle qsort buffer ret (List.replicate (fields comma (requestText ret)).length true)
    r.1.token = none ∧ ∃ filling numbers, (∀ a ∈ filling, a.fillsArray = true) ∧
      numbers ≠ .freed ∧
      r.2 = filling ++ (finish qsort ⟨none, numbers, parse (requestText ret)⟩).2 := by
  rw [parse_eq_fields]
  cases ret with
  | error => exact ⟨rfl, [], .null, by simp, by simp, rfl⟩
  | closed => exact ⟨rfl, [], .null, by simp, by simp, rfl⟩
  | data chunk =>
      simp only [handle, start_data qsort buffer (Nat.lt_of_le_pred (by decide) hret.2)]
      exact run_success qsort (c := received (cstr chunk)) rfl (by simp [received])

/-- A connection that ends with one close has had every `realloc`. -/
theorem success_of_handle (qsort : Qsort) (buffer : Buf bufsize) {ret : RecvRet}
    (hret : ret.Fits (bufsize - 1)) {successes : List Bool}
    (hend : (handle qsort buffer ret successes).1.token = none)
    (honce : (handle qsort buffer ret successes).2.count .close = 1) :
    ∀ i < (fields comma (requestText ret)).length, successes[i]? = some true := by
  cases ret with
  | error => exact fun i hi => absurd hi (Nat.not_lt_zero i)
  | closed => exact fun i hi => absurd hi (Nat.not_lt_zero i)
  | data chunk =>
      have hlt : chunk.length < bufsize := Nat.lt_of_le_pred (by decide) hret.2
      simp only [handle, start_data qsort buffer hlt, List.count_append] at hend honce
      have hall := success_of_closed_once qsort hend (by omega)
      rwa [tokensLeft_strtok (token_loop qsort _)] at hall

/-- **Allocation failures**: the handling of a connection ends, with one close, at most
one reply before it, and the array freed at most once and last, exactly if the `realloc`
calls for the fields of the request succeed. -/
theorem handled_iff (qsort : Qsort) (buffer : Buf bufsize) {ret : RecvRet}
    (hret : ret.Fits (bufsize - 1)) (success : Nat → Bool) :
    Handled qsort buffer ret success ↔
      ∀ i < (fields comma (requestText ret)).length, success i = true := by
  constructor
  · rintro ⟨n, hend, hproper⟩ i hi
    have hsome := success_of_handle qsort buffer hret hend hproper.closed i hi
    obtain ⟨hlt, hsucc⟩ := List.getElem?_eq_some_iff.mp hsome
    rwa [List.getElem_map, List.getElem_range] at hsucc
  · intro hall
    have htrue : (List.range (fields comma (requestText ret)).length).map success =
        List.replicate (fields comma (requestText ret)).length true := by
      rw [List.eq_replicate_iff, List.length_map, List.length_range]
      simpa using hall
    obtain ⟨hend, filling, block, hfilling, hblock, hacts⟩ := handle_success qsort buffer hret
    refine ⟨(fields comma (requestText ret)).length, ?_, ?_⟩
    · rw [htrue]
      exact hend
    · rw [htrue, hacts]
      exact (proper_finish qsort hblock).append_filling hfilling

/-- Two fields, and two `realloc`s that succeed. -/
theorem handled_two :
    Handled insertionSort (Buf.zero bufsize) (.data (ascii "2, 1")) fun i => i < 2 :=
  (handled_iff _ _ (by decide) _).mpr (by decide)

/-- The first `realloc` fails and the next succeeds: the connection is closed, then the
answer is sent on it, and it is closed again. -/
theorem failure_closes_twice :
    (handle insertionSort (Buf.zero bufsize) (.data (ascii "7")) [false, true]).2 =
        [.realloc .null, .free .null, .close, .realloc .null, .access .live, .access .live,
          .send (ascii "7"), .free .live, .close] ∧
      ¬Handled insertionSort (Buf.zero bufsize) (.data (ascii "7")) fun i => i = 1 := by
  constructor
  · rw [handle, start_data _ _ (by decide)]
    decide +kernel
  · rw [handled_iff _ _ (by decide)]
    decide

/-! ## the answer -/

theorem sent_finish (qsort : Qsort) (c : Conn) :
    (finish qsort c).2.filterMap Act.text? =
      if c.values.length = 0 then [] else [rebuild (qsort.sort c.values)] := by
  unfold finish
  split <;> rfl

/-- What is sent if every `realloc` succeeds is the answer to the request. -/
theorem sent_of_success (qsort : Qsort) (buffer : Buf bufsize) {ret : RecvRet}
    (hret : ret.Fits (bufsize - 1)) :
    (handle qsort buffer ret
        (List.replicate (fields comma (requestText ret)).length true)).2.filterMap Act.text? =
      (serve qsort buffer [ret]).toList := by
  have hserve : serve qsort buffer [ret] = answer qsort (requestText ret) := by
    cases ret with
    | data chunk =>
        rw [serve, text_receive buffer (Nat.lt_of_le_pred (by decide) hret.2), requestText]
    | _ =>
        rw [answer, parse_eq_fields]
        rfl
  obtain ⟨-, filling, block, hfilling, -, hacts⟩ := handle_success qsort buffer hret
  rw [hacts, List.filterMap_append, filling_text hfilling, sent_finish, hserve, answer,
    apply_ite Option.toList]
  rfl

end Reti.SortServer
