import Reti.Net
import Reti.Lib.CString
import Reti.Lib.Transducer
import Mathlib.Logic.Function.Basic

/-!
# Reti.E1.Question

The server of the first exercise (`28_11/E1.c`).  Each client has a child that prints what
it sends first; after each client the parent asks at the terminal whether it is to end.

What is typed is compared with `yes`, but a line that is typed has its newline.  And the
variable that the loop tests is only ever cleared: nothing sets it before the loop.
-/

namespace Reti.E1

open CStr Transducer

def bufferSize : Nat := 256

def yes : List UInt8 := ascii "yes"

/-! ## the server -/

/-- Where the parent is: at `accept`, at `fgets`, or ended, well or not. -/
inductive Pc where
  | accepts
  | asks
  | returned
  | failed
  deriving DecidableEq, Repr

/-- The parent with its variable `loop`, what is left of the terminal's input, and the
children that have not read.  How often the question has been answered is not stored by the
program. -/
structure Sys where
  pc : Pc
  loop : Int
  lines : List (List UInt8)
  answered : Nat
  children : Nat → Bool

def Sys.init (loop : Int) (lines : List (List UInt8)) : Sys :=
  ⟨.accepts, loop, lines, 0, fun _ => false⟩

/-- What can happen next. -/
inductive Event where
  | accept (c : Nat) (forkOk : Bool)
  | acceptFailed
  | answer
  | read (c : Nat) (ret : RecvRet)
  deriving DecidableEq, Repr

inductive Output where
  | asked
  | shown (c : Nat) (text : List UInt8)
  deriving DecidableEq, Repr

/-- `buffer` after `bzero` and `fgets`. -/
def typed (line : Option (List UInt8)) : Buf bufferSize :=
  match line with
  | some l => (Buf.zero bufferSize).fill (l ++ [0])
  | none => Buf.zero bufferSize

/-- `buffer` after `bzero` and `read`, which leaves room for a NUL. -/
def received : RecvRet → Buf bufferSize
  | .data chunk => (Buf.zero bufferSize).fill (chunk.take (bufferSize - 1))
  | _ => Buf.zero bufferSize

/-- The answer is compared, and the loop goes on or ends. -/
def Sys.answer (s : Sys) : Sys :=
  let loop := if (typed s.lines.head?).text = yes then 0 else s.loop
  { s with
    pc := if loop = 1 then .accepts else .returned
    loop := loop
    lines := s.lines.tail
    answered := s.answered + 1 }

/-- One step.  A failed `fork` leaves the parent where it is, with nobody for the client. -/
def step (s : Sys) : Event → Sys × List Output
  | .accept c forkOk =>
    if s.pc = .accepts then
      ({ s with pc := .asks, children := Function.update s.children c forkOk }, [.asked])
    else (s, [])
  | .acceptFailed => if s.pc = .accepts then ({ s with pc := .failed }, []) else (s, [])
  | .answer => if s.pc = .asks then (s.answer, []) else (s, [])
  | .read c ret =>
    if s.children c then
      ({ s with children := Function.update s.children c false }, [.shown c (received ret).text])
    else (s, [])

/-! ## when the parent returns -/

/-- The variable did not hold 1 to begin with, or one of the first `n` answers was `yes`. -/
def Stops (loop : Int) (items : List (List UInt8)) (n : Nat) : Prop :=
  loop ≠ 1 ∨ yes ∈ (items.take n).map cstr

theorem text_typed {line : Option (List UInt8)} (h : ∀ l ∈ line, l.length < bufferSize) :
    (typed line).text = cstr (line.getD []) := by
  cases line with
  | none => exact Buf.text_zero bufferSize
  | some l =>
      exact Buf.text_fill_terminated_of_cstr _ (Nat.lt_of_le_of_lt (length_cstr_le l) (h l rfl))

/-- The invariant of the parent. -/
structure Inv (loop : Int) (items : List (List UInt8)) (s : Sys) : Prop where
  left : s.lines = items.drop s.answered
  going : s.loop = 1 ↔ ¬Stops loop items s.answered
  returned : s.pc = .returned ↔ 0 < s.answered ∧ Stops loop items s.answered

theorem inv_init (loop : Int) (items : List (List UInt8)) : Inv loop items (.init loop items) where
  left := rfl
  going := by simp [Sys.init, Stops]
  returned := by simp [Sys.init]

section

variable {loop : Int} {items : List (List UInt8)} {s : Sys}

/-- One more answer. -/
theorem stops_succ (n : Nat) :
    Stops loop items (n + 1) ↔ Stops loop items n ∨ items[n]?.map cstr = some yes := by
  rw [Stops, Stops, List.take_add_one, List.map_append, List.mem_append, or_assoc]
  cases items[n]? <;> simp [eq_comm]

theorem Inv.answer (h : Inv loop items s) (hitems : ∀ l ∈ items, l.length < bufferSize) :
    Inv loop items s.answer := by
  have hhead : s.lines.head? = items[s.answered]? := by rw [h.left, List.head?_drop]
  have hline : ∀ l ∈ s.lines.head?, l.length < bufferSize := fun l hl =>
    hitems l (List.mem_of_getElem? (hhead ▸ hl))
  have htext : (typed s.lines.head?).text = yes ↔ items[s.answered]?.map cstr = some yes := by
    rw [text_typed hline, hhead]
    cases items[s.answered]? with
    | none => exact iff_of_false (by decide) (by simp)
    | some l => simp
  have hgoing : s.answer.loop = 1 ↔ ¬Stops loop items (s.answered + 1) := by
    rw [stops_succ, not_or, ← h.going, ← htext]
    simp only [Sys.answer]
    split
    · rename_i hyes
      simp [hyes]
    · rename_i hno
      simp [hno]
  refine ⟨?_, hgoing, ?_⟩
  · simp only [Sys.answer]
    rw [← List.tail_drop, ← h.left]
  · have hpc : s.answer.pc = .returned ↔ s.answer.loop ≠ 1 := by
      simp only [Sys.answer]
      split <;> simp [*]
    rw [hpc, Ne, hgoing, not_not]
    exact (and_iff_right (Nat.succ_pos _)).symm

/-- **Step lemma**: every event keeps the invariant. -/
theorem inv_step (h : Inv loop items s) (hitems : ∀ l ∈ items, l.length < bufferSize)
    (e : Event) : Inv loop items (step s e).1 := by
  cases e with
  | accept c forkOk =>
      simp only [step]
      split
      · rename_i hpc
        have hnot := h.returned
        rw [hpc] at hnot
        exact ⟨h.left, h.going, by simpa using hnot⟩
      · exact h
  | acceptFailed =>
      simp only [step]
      split
      · rename_i hpc
        have hnot := h.returned
        rw [hpc] at hnot
        exact ⟨h.left, h.going, by simpa using hnot⟩
      · exact h
  | answer =>
      simp only [step]
      split
      · exact h.answer hitems
      · exact h
  | read c ret =>
      simp only [step]
      split
      · exact ⟨h.left, h.going, h.returned⟩
      · exact h

end

/-! ## what is typed makes no difference -/

/-- The same parent at the end of its input. -/
def Sys.mute (s : Sys) : Sys := { s with lines := [] }

/-- No line that is left says `yes`. -/
def NoYes (s : Sys) : Prop := ∀ l ∈ s.lines, l.length < bufferSize ∧ cstr l ≠ yes

theorem noYes_step {s : Sys} (h : NoYes s) (e : Event) : NoYes (step s e).1 := by
  have htail : ∀ l ∈ s.lines.tail, l.length < bufferSize ∧ cstr l ≠ yes := fun l hl =>
    h l (List.mem_of_mem_tail hl)
  cases e with
  | accept c forkOk => simp only [step]; split <;> exact h
  | acceptFailed => simp only [step]; split <;> exact h
  | answer =>
      simp only [step]
      split
      · exact htail
      · exact h
  | read c ret => simp only [step]; split <;> exact h

/-- An answer that is not `yes` is none. -/
theorem answer_mute {s : Sys} (h : NoYes s) : s.mute.answer = s.answer.mute := by
  have hno : (typed s.lines.head?).text ≠ yes := by
    have hlen : ∀ l ∈ s.lines.head?, l.length < bufferSize := fun l hl =>
      (h l (List.mem_of_mem_head? hl)).1
    rw [text_typed hlen]
    cases hhead : s.lines.head? with
    | none => decide
    | some l => exact (h l (List.mem_of_mem_head? hhead)).2
  have hmute : (typed s.mute.lines.head?).text ≠ yes := by
    show (typed none).text ≠ yes
    decide
  simp only [Sys.answer, if_neg hno, if_neg hmute]
  rfl

/-- **Step lemma**: with no `yes` to come, the parent does what it does at the end of its
input. -/
theorem step_mute {s : Sys} (h : NoYes s) (e : Event) :
    step s.mute e = ((step s e).1.mute, (step s e).2) := by
  cases e with
  | answer =>
      have hpc : s.mute.pc = s.pc := rfl
      simp only [step, hpc]
      split
      · rw [answer_mute h]
      · rfl
  | accept c forkOk =>
      have hpc : s.mute.pc = s.pc := rfl
      simp only [step, hpc]
      split <;> rfl
  | acceptFailed =>
      have hpc : s.mute.pc = s.pc := rfl
      simp only [step, hpc]
      split <;> rfl
  | read c ret =>
      have hchildren : s.mute.children = s.children := rfl
      simp only [step, hchildren]
      split <;> rfl

/-- A line that ends with its newline does not say `yes`, nor does one that fills the
array. -/
theorem cstr_ne_yes {input : List UInt8} (h0 : 0 ∉ input) (hwhole : WholeLines input) :
    ∀ l ∈ fgetsAll (bufferSize - 1) input, cstr l ≠ yes := by
  intro l hl hyes
  have hsub : ∀ b ∈ l, b ∈ input := fun b hb => by
    rw [← flatten_fgetsAll (n := bufferSize - 1) (by decide) input]
    exact List.mem_flatten_of_mem hl hb
  rw [cstr_of_not_mem fun h => h0 (hsub 0 h)] at hyes
  subst hyes
  exact absurd (hwhole.item hl) (by decide)

/-- **The question**: the parent has returned exactly if its variable did not hold 1 at the
start, or `yes` has been read, as an item of its own and without a newline, and it has asked
at all.  So if the operator ends every line, what is typed makes no difference: everything
goes as if nothing were typed. -/
theorem question (loop : Int) (input : List UInt8) (es : List Event) :
    let items := fgetsAll (bufferSize - 1) input
    let s := (run step (.init loop items) es).1
    (s.pc = .returned ↔ 0 < s.answered ∧ Stops loop items s.answered) ∧
      (0 ∉ input → WholeLines input →
        run step (.init loop []) es = (s.mute, (run step (.init loop items) es).2)) := by
  intro items s
  have hlen : ∀ l ∈ items, l.length < bufferSize := by
    intro l hl
    have hitem := fgetsItem_of_mem_fgetsAll (by decide) hl
    exact Nat.lt_trans (hitem.length_lt (by decide)) (by decide)
  have hstep : ∀ s e, Inv loop items s → Inv loop items (step s e).1 := fun _ e h =>
    inv_step h hlen e
  have hinv : Inv loop items s := run_inv_of_step hstep (inv_init loop items) es
  refine ⟨hinv.returned, fun h0 hwhole => ?_⟩
  have hinit : NoYes (.init loop items) := fun l hl => ⟨hlen l hl, cstr_ne_yes h0 hwhole l hl⟩
  have hkeep : ∀ s e, NoYes s → NoYes (step s e).1 := fun _ e h => noYes_step h e
  have hmute : ∀ s e, NoYes s → step s.mute e = ((step s e).1.mute, (step s e).2) :=
    fun _ e h => step_mute h e
  exact run_abs hkeep hmute hinit es

/-- The answer `yes` to the first of two clients. -/
theorem question_yes :
    run step (.init 1 []) [.accept 4 true, .answer, .accept 5 true] =
      ((run step (.init 1 (fgetsAll (bufferSize - 1) (ascii "yes\n")))
          [.accept 4 true, .answer, .accept 5 true]).1.mute,
        (run step (.init 1 (fgetsAll (bufferSize - 1) (ascii "yes\n")))
          [.accept 4 true, .answer, .accept 5 true]).2) :=
  (question 1 (ascii "yes\n") [.accept 4 true, .answer, .accept 5 true]).2 (by decide) (by decide)

end Reti.E1
