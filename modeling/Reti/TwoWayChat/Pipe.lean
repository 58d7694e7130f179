import Reti.TwoWayChat.Server
import Reti.Lib.Chunks
import Mathlib.Algebra.GroupWithZero.Nat

/-!
# Reti.TwoWayChat.Pipe

The pipe between the children and the broadcaster is a stream of bytes: the lines
are written one behind the other, and what one `read` returns is taken for a message
wherever it begins and ends.
-/

namespace Reti.TwoWayChat

open CStr Transducer

variable (format : Buf bufferSize → Buf bufferSize)

/-! ## lines and messages -/

/-- The line that a step writes to the pipe. -/
def Event.line? : Event → Option (List UInt8)
  | .recv _ (.data chunk) => some (line chunk)
  | _ => none

/-- The lines that the children write in a run. -/
def lines (es : List Event) : List (List UInt8) := es.filterMap Event.line?

def Event.size? : Event → Option Nat
  | .read n => some n
  | _ => none

/-- How many bytes each `read` of a run returns. -/
def reads (es : List Event) : List Nat := es.filterMap Event.size?

def Output.message? : Output → Option (List UInt8)
  | .message text => some text
  | .sent _ => none

/-- What the broadcaster takes for messages. -/
def messages (out : List Output) : List (List UInt8) := out.filterMap Output.message?

/-- What holds in a run: the messages and the pipe are the bytes of the lines, and
every message is as long as its `read`. -/
structure PipeInv (s : Sys) (es : List Event) (out : List Output) : Prop where
  stream : (messages out).flatten ++ s.pipe = (lines es).flatten
  nul : 0 ∉ s.pipe
  sizes : (messages out).map List.length = reads es

theorem zero_not_mem_line (chunk : List UInt8) : 0 ∉ line chunk := fun h =>
  zero_not_mem_cstr _ (List.dropLast_subset _ h)

/-- The text that is read is what was in the pipe. -/
theorem text_readBuffer {s : Sys} (hs : 0 ∉ s.pipe) {n : Nat} (hn : n ≤ bufferSize) :
    (s.readBuffer n).text = s.pipe.take n := by
  have hlen : (s.pipe.take n).length ≤ bufferSize := by
    rw [List.length_take]
    omega
  rw [Sys.readBuffer, Buf.text_zero_fill hlen, cstr_of_not_mem]
  exact fun h => hs (List.mem_of_mem_take h)

/-! ### what an event and its outputs add -/

theorem lines_append (es : List Event) (e : Event) :
    lines (es ++ [e]) = lines es ++ e.line?.toList := by
  cases h : e.line? <;> simp [lines, h]

theorem reads_append (es : List Event) (e : Event) :
    reads (es ++ [e]) = reads es ++ e.size?.toList := by
  cases h : e.size? <;> simp [reads, h]

theorem messages_append (out out' : List Output) :
    messages (out ++ out') = messages out ++ messages out' := List.filterMap_append

/-- The messages of a step: the text that is read, if the step is a `read`. -/
theorem messages_step_read (s : Sys) (n : Nat) :
    messages (step format s (.read n)).2 = [(s.readBuffer n).text] := by
  simp [messages, step, Output.message?]

/-- **Step lemma**. -/
theorem pipeInv_step {s : Sys} {es : List Event} {out : List Output} (h : PipeInv s es out)
    {e : Event} (he : Enabled s e) :
    PipeInv (step format s e).1 (es ++ [e]) (out ++ (step format s e).2) := by
  obtain ⟨hstream, hnul, hsizes⟩ := h
  constructor
  · rw [messages_append, lines_append, List.flatten_append, List.flatten_append, ← hstream]
    cases e with
    | accept connfd broadcasterForked childForked => simp [step, messages, Event.line?]
    | recv i ret =>
        cases ret with
        | error => simp [step, messages, Event.line?]
        | closed => simp [step, messages, Event.line?]
        | data chunk => simp [step, messages, Event.line?]
    | read n =>
        rw [messages_step_read, text_readBuffer hnul he.2.2.1]
        simp [step, Event.line?]
  · cases e with
    | accept connfd broadcasterForked childForked => exact hnul
    | recv i ret =>
        cases ret with
        | error => exact hnul
        | closed => exact hnul
        | data chunk =>
            show 0 ∉ s.pipe ++ line chunk
            rw [List.mem_append, not_or]
            exact ⟨hnul, zero_not_mem_line chunk⟩
    | read n => exact fun hmem => hnul (List.mem_of_mem_drop hmem)
  · rw [messages_append, reads_append, List.map_append, hsizes]
    cases e with
    | accept connfd broadcasterForked childForked => simp [step, messages, Event.size?]
    | recv i ret => cases ret <;> simp [step, messages, Event.size?]
    | read n =>
        have hlen := he.2.2.2
        rw [messages_step_read, text_readBuffer hnul he.2.2.1]
        simp [Event.size?, List.length_take, hlen]

theorem pipeInv_init : PipeInv Sys.init [] [] where
  stream := rfl
  nul := by decide
  sizes := rfl

/-- **Run lemma**. -/
theorem pipeInv_run {es : List Event} (hes : Along (step format) Enabled Sys.init es) :
    PipeInv (run (step format) Sys.init es).1 es (run (step format) Sys.init es).2 := by
  have hstep : ∀ s es out e, PipeInv s es out → Enabled s e →
      PipeInv (step format s e).1 (es ++ [e]) (out ++ (step format s e).2) :=
    fun _ _ _ _ h he => pipeInv_step format h he
  exact run_hist hstep pipeInv_init hes

/-! ## keeping lines apart -/

/-- The reads return the lines one by one: the first as many bytes as the first line
has, and so on; and no line has no bytes. -/
def LineByLine (sizes lengths : List Nat) : Prop :=
  sizes <+: lengths ∧ (sizes.sum = lengths.sum → sizes = lengths)

instance (sizes lengths : List Nat) : Decidable (LineByLine sizes lengths) :=
  inferInstanceAs (Decidable (_ ∧ _))

/-- Nothing is left in the pipe exactly if the reads have returned as many bytes as
the lines have. -/
theorem PipeInv.drained_iff {s : Sys} {es : List Event} {out : List Output}
    (h : PipeInv s es out) :
    s.pipe = [] ↔ (reads es).sum = ((lines es).map List.length).sum := by
  have hlen := congrArg List.length h.stream
  rw [List.length_append, List.length_flatten, List.length_flatten, h.sizes] at hlen
  rw [← List.length_eq_zero_iff]
  omega

/-- **Lines apart**: in any run, the messages are the first of the lines, and all of
them once nothing is left in the pipe, exactly if the reads return the lines one by
one. -/
theorem lines_apart_iff {es : List Event} (hes : Along (step format) Enabled Sys.init es) :
    (messages (run (step format) Sys.init es).2 <+: lines es ∧
        ((run (step format) Sys.init es).1.pipe = [] →
          messages (run (step format) Sys.init es).2 = lines es)) ↔
      LineByLine (reads es) ((lines es).map List.length) := by
  have h := pipeInv_run format hes
  rw [LineByLine, ← h.drained_iff, ← h.sizes, Chunks.prefix_iff_length h.stream]
  refine and_congr_right fun _ => imp_congr_right fun hpipe => ?_
  have hflat := h.stream
  rw [hpipe, List.append_nil] at hflat
  exact Chunks.eq_iff_length hflat

/-- Two clients who write, with reads of the given sizes at the end. -/
def twoLines (sizes : List Nat) : List Event :=
  [.accept 5 true true, .accept 5 false true, .recv 0 (.data (ascii "a\n")),
    .recv 1 (.data (ascii "bc\n"))] ++ sizes.map .read

/-- Reads that happen to stop where the lines do. -/
theorem lines_apart_two :
    messages (run (step id) Sys.init (twoLines [1, 2])).2 <+: lines (twoLines [1, 2]) ∧
      ((run (step id) Sys.init (twoLines [1, 2])).1.pipe = [] →
        messages (run (step id) Sys.init (twoLines [1, 2])).2 = lines (twoLines [1, 2])) :=
  (lines_apart_iff id (by decide +kernel)).mpr (by decide +kernel)

/-- One read takes both lines for one message. -/
theorem lines_merged :
    Along (step id) Enabled Sys.init (twoLines [3]) ∧
      lines (twoLines [3]) = [ascii "a", ascii "bc"] ∧
      messages (run (step id) Sys.init (twoLines [3])).2 = [ascii "abc"] := by
  decide +kernel

end Reti.TwoWayChat
