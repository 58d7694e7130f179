import Reti.Net
import Reti.Lib.CString
import Mathlib.Data.List.Induction

/-!
# Reti.OneWayChat.Session

The one-way TCP chat (`chat/chat_server.c` and `chat/chat_client.c`): a client sends
lines until one is `END`, and the child of the server that serves it prints what every
`read` returns until a whole `read` is `END`.

TCP keeps the bytes and their order, but not where one `write` ends and the next
begins; and once the client has closed, every `read` returns 0.
-/

namespace Reti.OneWayChat

open CStr

def bufferSize : Nat := 256

def endCmd : List UInt8 := ascii "END\n"

/-! ## the client -/

/-- What the client writes for the lines that `fgets` gives it: the strings, up to the
one that is `END`. -/
def clientLoop : List (List UInt8) → List (List UInt8)
  | [] => []
  | line :: rest => cstr line :: if cstr line = endCmd then [] else clientLoop rest

/-! ## the child of the server -/

/-- Where the child is: in the loop, returned from `main`, or stopped by `error`. -/
inductive Status where
  | running
  | returned
  | failed
  deriving DecidableEq, Repr

/-- The child: where it is, and the messages it has printed. -/
structure Child where
  status : Status
  printed : List (List UInt8)
  deriving DecidableEq, Repr

def Child.init : Child := ⟨.running, []⟩

/-- The string in `buffer` after `bzero` and `read`. -/
def text : RecvRet → List UInt8
  | .data chunk => ((Buf.zero bufferSize).fill chunk).text
  | _ => (Buf.zero bufferSize).text

/-- One iteration of `do … while (1)`.  A `read` that returns 0 is no error, and leaves
the empty string. -/
def iteration (c : Child) (ret : RecvRet) : Child :=
  match c.status with
  | .running =>
    if ret = .error then { c with status := .failed }
    else if text ret = endCmd then { c with status := .returned }
    else { c with printed := c.printed ++ [text ret] }
  | _ => c

/-- The first `n` iterations, with what the calls of `read` return. -/
def loop (c : Child) (reads : Nat → RecvRet) : Nat → Child
  | 0 => c
  | n + 1 => loop (iteration c (reads 0)) (fun k => reads (k + 1)) n

/-- A connection on which the stream arrives in the given chunks and is closed. -/
def reads (chunks : List (List UInt8)) (n : Nat) : RecvRet :=
  match chunks[n]? with
  | some chunk => .data chunk
  | none => .closed

/-- The child leaves its loop. -/
def Leaves (chunks : List (List UInt8)) : Prop :=
  ∃ n, (loop .init (reads chunks) n).status = .returned

/-- The child leaves its loop, and has printed the lines in order, however they were
divided up into messages. -/
def LeavesHaving (chunks lines : List (List UInt8)) : Prop :=
  ∃ n, (loop .init (reads chunks) n).status = .returned ∧
    (loop .init (reads chunks) n).printed.flatten = lines.flatten

/-! ## iterations -/

theorem iteration_of_not_running {c : Child} (h : c.status ≠ .running) (ret : RecvRet) :
    iteration c ret = c := by
  unfold iteration
  split
  · contradiction
  · rfl

/-- A chunk that is not `END` is printed. -/
theorem iteration_chunk {chunk : List UInt8} (h0 : 0 ∉ chunk) (hlen : chunk.length ≤ 255)
    (printed : List (List UInt8)) :
    iteration ⟨.running, printed⟩ (.data chunk) =
      if chunk = endCmd then ⟨.returned, printed⟩ else ⟨.running, printed ++ [chunk]⟩ := by
  have hfits : chunk.length ≤ bufferSize := Nat.le_succ_of_le hlen
  have htext : text (.data chunk) = chunk := by
    show ((Buf.zero bufferSize).fill chunk).text = chunk
    rw [Buf.text_zero_fill hfits, cstr_of_not_mem h0]
  simp [iteration, htext]

theorem iteration_closed (printed : List (List UInt8)) :
    iteration ⟨.running, printed⟩ .closed = ⟨.running, printed ++ [[]]⟩ := by
  have htext : text .closed = [] := by decide +kernel
  have hne : endCmd ≠ [] := by decide
  simp [iteration, htext, hne.symm]

theorem loop_of_not_running {c : Child} (h : c.status ≠ .running) (reads : Nat → RecvRet)
    (n : Nat) : loop c reads n = c := by
  induction n generalizing reads with
  | zero => rfl
  | succ n ih => rw [loop, iteration_of_not_running h, ih]

theorem loop_cons (c : Child) (chunk : List UInt8) (chunks : List (List UInt8)) (n : Nat) :
    loop c (reads (chunk :: chunks)) (n + 1) = loop (iteration c (.data chunk)) (reads chunks) n :=
  rfl

theorem loop_nil (c : Child) (n : Nat) :
    loop c (reads []) (n + 1) = loop (iteration c .closed) (reads []) n := rfl

/-! ## runs -/

/-- The chunks that `read` into the buffer can return of NUL-free text. -/
def Readable (chunks : List (List UInt8)) : Prop :=
  ∀ chunk ∈ chunks, chunk ≠ [] ∧ chunk.length ≤ 255 ∧ 0 ∉ chunk

theorem Readable.tail {chunk : List UInt8} {chunks : List (List UInt8)}
    (hc : Readable (chunk :: chunks)) : Readable chunks := (List.forall_mem_cons.mp hc).2

/-- **Step lemma**: a chunk that is not `END` is printed. -/
theorem loop_readable_cons {chunk : List UInt8} {chunks : List (List UInt8)}
    (hc : Readable (chunk :: chunks)) (h : endCmd ∉ chunk :: chunks)
    (rest printed : List (List UInt8)) (n : Nat) :
    loop ⟨.running, printed⟩ (reads (chunk :: rest)) (n + 1) =
      loop ⟨.running, printed ++ [chunk]⟩ (reads rest) n := by
  obtain ⟨-, hlen, h0⟩ := hc chunk List.mem_cons_self
  have hne : chunk ≠ endCmd := (List.ne_of_not_mem_cons h).symm
  rw [loop_cons, iteration_chunk h0 hlen, if_neg hne]

/-- **Run lemma**: without a chunk that is `END` the loop is never left. -/
theorem running_loop {chunks : List (List UInt8)} (hc : Readable chunks) (h : endCmd ∉ chunks)
    (printed : List (List UInt8)) (n : Nat) :
    (loop ⟨.running, printed⟩ (reads chunks) n).status = .running := by
  induction n generalizing chunks printed with
  | zero => rfl
  | succ n ih =>
      cases chunks with
      | nil =>
          rw [loop_nil, iteration_closed]
          exact ih hc h _
      | cons chunk chunks =>
          rw [loop_readable_cons hc h]
          exact ih hc.tail (List.not_mem_of_not_mem_cons h) _

/-- **Run lemma**: the first chunk that is `END` is where the loop is left, and the
chunks before it are what has been printed. -/
theorem returned_loop {before after : List (List UInt8)} (hc : Readable before)
    (h : endCmd ∉ before) (printed : List (List UInt8)) (n : Nat) :
    loop ⟨.running, printed⟩ (reads (before ++ endCmd :: after)) (before.length + 1 + n) =
      ⟨.returned, printed ++ before⟩ := by
  induction before generalizing printed with
  | nil =>
      have hend : iteration ⟨.running, printed⟩ (.data endCmd) = ⟨.returned, printed⟩ := by
        rw [iteration_chunk (by decide) (by decide), if_pos rfl]
      rw [List.length_nil, Nat.zero_add, Nat.add_comm, List.nil_append, loop_cons, hend,
        loop_of_not_running (by simp), List.append_nil]
  | cons chunk before ih =>
      have hcount : (chunk :: before).length + 1 + n = before.length + 1 + n + 1 := by
        rw [List.length_cons]
        omega
      rw [hcount, List.cons_append, loop_readable_cons hc h,
        ih hc.tail (List.not_mem_of_not_mem_cons h), List.append_assoc, List.singleton_append]

/-- Before that, the child is in its loop. -/
theorem running_before {before after : List (List UInt8)} (hc : Readable before)
    (h : endCmd ∉ before) (printed : List (List UInt8)) {n : Nat} (hn : n ≤ before.length) :
    (loop ⟨.running, printed⟩ (reads (before ++ after)) n).status = .running := by
  induction n generalizing before printed with
  | zero => rfl
  | succ n ih =>
      cases before with
      | nil => cases hn
      | cons chunk before =>
          rw [List.cons_append, loop_readable_cons hc h]
          exact ih hc.tail (List.not_mem_of_not_mem_cons h) _ (Nat.le_of_succ_le_succ hn)

/-- The child that has left its loop has printed what came before the first chunk that
is `END`. -/
theorem printed_of_returned {before after : List (List UInt8)} (hc : Readable before)
    (h : endCmd ∉ before) {n : Nat}
    (hn : (loop .init (reads (before ++ endCmd :: after)) n).status = .returned) :
    (loop .init (reads (before ++ endCmd :: after)) n).printed = before := by
  by_cases hle : n ≤ before.length
  · rw [Child.init, running_before hc h [] hle] at hn
    cases hn
  · obtain ⟨k, rfl⟩ := Nat.exists_eq_add_of_le (Nat.lt_of_not_le hle)
    rw [Child.init, returned_loop hc h, List.nil_append]

theorem leaves_iff {chunks : List (List UInt8)} (hc : Readable chunks) :
    Leaves chunks ↔ endCmd ∈ chunks := by
  constructor
  · rintro ⟨n, hn⟩
    by_contra h
    rw [Child.init, running_loop hc h] at hn
    cases hn
  · intro h
    obtain ⟨before, after, rfl, hbefore⟩ := List.eq_append_cons_of_mem h
    have hread : Readable before := fun c hmem => hc c (List.mem_append_left _ hmem)
    exact ⟨before.length + 1 + 0, by rw [Child.init, returned_loop hread hbefore]⟩

/-- The last chunk, and no other, is `END`. -/
def EndsAlone (chunks : List (List UInt8)) : Prop :=
  chunks.getLast? = some endCmd ∧ endCmd ∉ chunks.dropLast

instance (chunks : List (List UInt8)) : Decidable (EndsAlone chunks) :=
  inferInstanceAs (Decidable (_ ∧ _))

theorem endsAlone_iff {before after : List (List UInt8)} (h : endCmd ∉ before) :
    EndsAlone (before ++ endCmd :: after) ↔ after = [] := by
  constructor
  · rintro ⟨-, hfront⟩
    by_contra hne
    rw [List.dropLast_append_of_ne_nil (List.cons_ne_nil _ _), List.dropLast_cons_of_ne_nil hne]
      at hfront
    exact hfront (List.mem_append_right _ List.mem_cons_self)
  · rintro rfl
    exact ⟨List.getLast?_concat, by rwa [List.dropLast_concat]⟩

/-- The lines of the client have been printed when the loop is left exactly if `END`
comes alone, at the end. -/
theorem leavesHaving_iff {chunks lines : List (List UInt8)} (hc : Readable chunks)
    (hstream : chunks.flatten = lines.flatten ++ endCmd) :
    LeavesHaving chunks lines ↔ EndsAlone chunks := by
  by_cases h : endCmd ∈ chunks
  · obtain ⟨before, after, rfl, hbefore⟩ := List.eq_append_cons_of_mem h
    have hread : Readable before := fun c hmem => hc c (List.mem_append_left _ hmem)
    rw [List.flatten_append, List.flatten_cons] at hstream
    rw [endsAlone_iff hbefore]
    constructor
    · rintro ⟨n, hn, hprinted⟩
      rw [printed_of_returned hread hbefore hn] at hprinted
      rw [hprinted, List.append_cancel_left_eq, List.append_right_eq_self,
        List.flatten_eq_nil_iff] at hstream
      -- what is left of the stream is empty, and no chunk is
      rw [List.eq_nil_iff_forall_not_mem]
      intro c hmem
      exact (hc c (List.mem_append_right _ (List.mem_cons_of_mem _ hmem))).1 (hstream c hmem)
    · rintro rfl
      rw [List.flatten_nil, List.append_nil, List.append_cancel_right_eq] at hstream
      have hloop := @returned_loop before [] hread hbefore [] 0
      exact ⟨_, by rw [Child.init, hloop], by rw [Child.init, hloop, List.nil_append, hstream]⟩
  · constructor
    · rintro ⟨n, hn, -⟩
      exact absurd ((leaves_iff hc).mp ⟨n, hn⟩) h
    · rintro ⟨hlast, -⟩
      exact absurd (List.mem_of_getLast? hlast) h

/-! ## sessions -/

/-- The client sends its lines and `END`. -/
theorem clientLoop_end {lines : List (List UInt8)} (h : ∀ line ∈ lines, cstr line ≠ endCmd) :
    clientLoop (lines ++ [endCmd]) = lines.map cstr ++ [endCmd] := by
  induction lines with
  | nil => decide
  | cons line lines ih =>
      rw [List.cons_append, clientLoop, if_neg (h line List.mem_cons_self), List.map_cons,
        ih fun l hl => h l (List.mem_cons_of_mem line hl), List.cons_append]

/-- The network cuts the bytes a client has written into chunks of at most 255. -/
def Cut (written chunks : List (List UInt8)) : Prop :=
  chunks.flatten = written.flatten ∧ ∀ chunk ∈ chunks, chunk ≠ [] ∧ chunk.length ≤ 255

instance (written chunks : List (List UInt8)) : Decidable (Cut written chunks) :=
  inferInstanceAs (Decidable (_ ∧ _))

/-- What the client writes has no NUL in it. -/
theorem zero_not_mem_clientLoop (lines : List (List UInt8)) : 0 ∉ (clientLoop lines).flatten := by
  induction lines with
  | nil => simp [clientLoop]
  | cons line lines ih =>
      rw [clientLoop, List.flatten_cons, List.mem_append, not_or]
      refine ⟨zero_not_mem_cstr line, ?_⟩
      split
      · simp
      · exact ih

theorem readable_of_cut {lines chunks : List (List UInt8)} (h : Cut (clientLoop lines) chunks) :
    Readable chunks := by
  intro chunk hmem
  obtain ⟨hne, hlen⟩ := h.2 chunk hmem
  refine ⟨hne, hlen, fun h0 => zero_not_mem_clientLoop lines ?_⟩
  rw [← h.1]
  exact List.mem_flatten_of_mem hmem h0

/-- **End of a session**: for any lines and any cut, the child leaves its loop with the
lines printed when the client ends with `END` and closes exactly if `END` comes alone,
at the end; and it leaves it when the client closes without `END` exactly if some chunk
happens to be `END`. -/
theorem session_end_iff {lines chunks : List (List UInt8)}
    (h : ∀ line ∈ lines, cstr line ≠ endCmd) :
    (Cut (clientLoop (lines ++ [endCmd])) chunks →
        (LeavesHaving chunks (lines.map cstr) ↔ EndsAlone chunks)) ∧
      (Cut (clientLoop lines) chunks → (Leaves chunks ↔ endCmd ∈ chunks)) := by
  constructor
  · intro hcut
    refine leavesHaving_iff (readable_of_cut hcut) ?_
    rw [hcut.1, clientLoop_end h, List.flatten_append, List.flatten_singleton]
  · intro hcut
    exact leaves_iff (readable_of_cut hcut)

/-- Every line arrives by itself. -/
theorem session_end_alone :
    LeavesHaving [ascii "ciao\n", endCmd] ([ascii "ciao\n"].map cstr) :=
  ((@session_end_iff [ascii "ciao\n"] [ascii "ciao\n", endCmd] (by decide)).1 (by decide)).mpr
    (by decide)

/-- `END` arrives together with the line before it, or does not arrive: the loop goes
on for ever. -/
theorem session_end_missed :
    Cut (clientLoop [ascii "ciao\n", endCmd]) [ascii "ciao\nEND\n"] ∧
      ¬LeavesHaving [ascii "ciao\nEND\n"] [ascii "ciao\n"] ∧
      Cut (clientLoop [ascii "ciao\n"]) [ascii "ciao\n"] ∧ ¬Leaves [ascii "ciao\n"] := by
  have hmerged : ¬Leaves [ascii "ciao\nEND\n"] := by
    rw [leaves_iff (by unfold Readable; decide)]
    decide
  refine ⟨by decide, ?_, by decide, ?_⟩
  · rintro ⟨n, hn, -⟩
    exact hmerged ⟨n, hn⟩
  · rw [leaves_iff (by unfold Readable; decide)]
    decide

end Reti.OneWayChat
