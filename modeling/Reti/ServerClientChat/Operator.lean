import Reti.Net
import Reti.Lib.Stdio
import Reti.Lib.Transducer
import Mathlib.Logic.Function.Basic

/-!
# Reti.ServerClientChat.Operator

The chat between the clients of a forking server and the person at its terminal
(`serverclient_chat.c`).  Each client has a child, which shows what the client sends and
answers with the next line of its standard input.

All children read from the one terminal, but each has a `stdin` of its own: what a `read` of
the terminal returns goes to the child that has called it, also the lines behind the first one
and the beginning of a line.  At the end of the input `fgets` leaves the buffer as it is, with
what the client has sent in it.
-/

namespace Reti.ServerClientChat

open CStr Transducer

def bufsize : Nat := 1024

/-! ## the children -/

/-- Where a child is in `client_handler`: at `read`, or at `fgets` with what it has received;
or it has returned, was killed by a signal, or has read on behind its buffer. -/
inductive Phase where
  | absent
  | reading
  | typing (buffer : Buf bufsize)
  | returned
  | killed
  | undefined
  deriving DecidableEq, Repr

structure Child where
  phase : Phase
  stdin : Stream
  deriving DecidableEq, Repr

/-- What becomes of a `write`: the text is sent; or it is not, and the result is not looked
at; or SIGPIPE ends the child. -/
inductive WriteRet where
  | written
  | failed
  | sigpipe
  deriving DecidableEq, Repr

/-- What a child does next.  `bytes` is what it finds in its variable, which it tests and never
sets.  `fetch` is a `read` of the terminal within `fgets`. -/
inductive Act where
  | connect (ret : WriteRet) (bytes : Int)
  | read (ret : RecvRet)
  | fetch
  | answer (ret : WriteRet)
  deriving DecidableEq, Repr

inductive Output where
  | greeted (text : List UInt8) (ret : WriteRet)
  | shown (text : List UInt8)
  | fetched (chunk : List UInt8)
  | answered (text : List UInt8) (ret : WriteRet)
  deriving DecidableEq, Repr

/-- `buffer` after `bzero` and `read`. -/
def received : RecvRet → Buf bufsize
  | .data chunk => (Buf.zero bufsize).fill chunk
  | _ => Buf.zero bufsize

/-- `buffer` after `fgets`, which stores nothing at the end of the input. -/
def typed (buffer : Buf bufsize) : Option (List UInt8) → Buf bufsize
  | some line => buffer.fill (line ++ [0])
  | none => buffer

/-- A step of a child, with the text that clients are greeted with and what the terminal has
got for the next `read`. -/
def Child.step (greeting : List UInt8) (terminal : Option (List UInt8)) (c : Child) :
    Act → Child × List Output
  | .connect ret bytes =>
    match c.phase with
    | .absent =>
      ({ c with
          phase := if ret = .sigpipe then .killed else if 0 < bytes then .reading else .returned },
        [.greeted ((Buf.zero bufsize).snprintf greeting).text ret])
    | _ => (c, [])
  | .read ret =>
    match c.phase with
    | .reading =>
      match (received ret).readString with
      | some text => ({ c with phase := .typing (received ret) }, [.shown text])
      | none => ({ c with phase := .undefined }, [])
    | _ => (c, [])
  | .fetch =>
    match c.phase with
    | .typing _ =>
      if c.stdin.Ready bufsize then (c, [])
      else
        ({ c with stdin := c.stdin.read (terminal.getD []) }, (terminal.map Output.fetched).toList)
    | _ => (c, [])
  | .answer ret =>
    match c.phase with
    | .typing buffer =>
      if c.stdin.Ready bufsize then
        let (line, stdin) := c.stdin.fgets bufsize
        (⟨if ret = .sigpipe then .killed else .reading, stdin⟩,
          [.answered (typed buffer line).text ret])
      else (c, [])
    | _ => (c, [])

/-! ## the terminal -/

/-- The children by the clients they have, and what the calls of `read` on the terminal will
return, an empty one where the end of the input is typed.  Behind them it has ended. -/
structure Sys where
  children : Nat → Child
  terminal : List (List UInt8)

def Sys.init (terminal : List (List UInt8)) : Sys := ⟨fun _ => ⟨.absent, .empty⟩, terminal⟩

/-- One of the children does something. -/
structure Event where
  client : Nat
  act : Act
  deriving DecidableEq, Repr

/-- What has been read from the terminal. -/
def fetched (log : List Output) : List (List UInt8) :=
  log.filterMap fun
    | .fetched chunk => some chunk
    | _ => none

/-- A child does something.  What it reads from the terminal is gone for the others. -/
def step (greeting : List UInt8) (s : Sys) (e : Event) : Sys × List (Nat × Output) :=
  let (child, out) := (s.children e.client).step greeting s.terminal.head? e.act
  (⟨Function.update s.children e.client child, s.terminal.drop (fetched out).length⟩,
    out.map fun o => (e.client, o))

/-! ## what is shown and answered -/

/-- The answers to a client, and what became of them. -/
def answers (log : List Output) : List (List UInt8 × WriteRet) :=
  log.filterMap fun
    | .answered text ret => some (text, ret)
    | _ => none

/-- What is shown of a client. -/
def shown (log : List Output) : List (List UInt8) :=
  log.filterMap fun
    | .shown text => some text
    | _ => none

section

variable (log log' : List Output)

theorem fetched_append : fetched (log ++ log') = fetched log ++ fetched log' :=
  List.filterMap_append

theorem answers_append : answers (log ++ log') = answers log ++ answers log' :=
  List.filterMap_append

theorem shown_append : shown (log ++ log') = shown log ++ shown log' := List.filterMap_append

end

/-- The answer in its turn: the next line, or what the client has sent if there is none. -/
def Fitting (lines heard : List (List UInt8)) (j : Nat) (text : List UInt8) : Prop :=
  (lines[j]?.map cstr).or heard[j]? = some text

instance (lines heard : List (List UInt8)) (j : Nat) (text : List UInt8) :
    Decidable (Fitting lines heard j text) := inferInstanceAs (Decidable (_ = _))

/-- A child has answered as often as it has heard its client, or is about to. -/
def InTurn (log : List Output) : Phase → Prop
  | .typing buffer =>
    (shown log).length = (answers log).length + 1 ∧ (shown log).getLast? = some buffer.text
  | _ => (shown log).length = (answers log).length

/-- What a child with its log keeps to. -/
structure Kept (log : List Output) (c : Child) : Prop where
  called : Stream.Called bufsize (fetched log).flatten (answers log).length c.stdin
  fitting : ∀ j a, (answers log)[j]? = some a →
    Fitting (fgetsAll bufsize (fetched log).flatten) (shown log) j a.1
  inTurn : InTurn log c.phase
  /-- SIGPIPE is raised by the last answer only. -/
  alive : (∀ a ∈ answers log, a.2 ≠ .sigpipe) ∨
    c.phase = .killed ∧ ∀ a ∈ (answers log).dropLast, a.2 ≠ .sigpipe

theorem kept_init : Kept [] ⟨.absent, .empty⟩ where
  called := Stream.called_empty bufsize
  fitting j a h := by simp [answers] at h
  inTurn := rfl
  alive := .inl fun a h => by cases h

/-! ## one child -/

section

variable {log : List Output} {c : Child}

/-- What the client sends later does not change an answer. -/
theorem Fitting.append {lines heard : List (List UInt8)} {j : Nat} {text : List UInt8}
    (h : Fitting lines heard j text) (more : List (List UInt8)) :
    Fitting lines (heard ++ more) j text := by
  rw [Fitting] at h ⊢
  cases hline : lines[j]? with
  | some line =>
      rw [hline] at h
      exact h
  | none =>
      simp only [hline, Option.map_none, Option.none_or] at h ⊢
      obtain ⟨hlt, -⟩ := List.getElem?_eq_some_iff.mp h
      rw [List.getElem?_append_left hlt, h]

/-- The child goes on without having read from the terminal or answered. -/
theorem Kept.goOn (h : Kept log c) {new : List Output} (hfetched : fetched new = [])
    (hanswers : answers new = []) (hphase : c.phase ≠ .killed) {phase : Phase}
    (hturn : InTurn (log ++ new) phase) : Kept (log ++ new) { c with phase := phase } := by
  have hfetched' : fetched (log ++ new) = fetched log := by
    rw [fetched_append, hfetched, List.append_nil]
  have hanswers' : answers (log ++ new) = answers log := by
    rw [answers_append, hanswers, List.append_nil]
  refine ⟨?_, fun j a hj => ?_, hturn, ?_⟩
  · rw [hfetched', hanswers']
    exact h.called
  · rw [hanswers'] at hj
    rw [hfetched', shown_append]
    exact (h.fitting j a hj).append _
  · rw [hanswers']
    exact .inl (h.alive.resolve_right fun hkilled => hphase hkilled.1)

/-- The child reads from the terminal. -/
theorem Kept.fetch (h : Kept log c) (hc : ¬c.stdin.Ready bufsize) (terminal : Option (List UInt8)) :
    Kept (log ++ (terminal.map Output.fetched).toList)
      { c with stdin := c.stdin.read (terminal.getD []) } := by
  have hended : c.stdin.ended = false := by
    rw [Stream.Ready, not_or, Bool.not_eq_true] at hc
    exact hc.1
  have hfetched : (fetched (log ++ (terminal.map Output.fetched).toList)).flatten =
      (fetched log).flatten ++ terminal.getD [] := by
    rw [fetched_append, List.flatten_append]
    cases terminal <;> simp [fetched]
  have hanswers : answers (log ++ (terminal.map Output.fetched).toList) = answers log := by
    rw [answers_append]
    cases terminal <;> exact List.append_nil _
  have hshown : shown (log ++ (terminal.map Output.fetched).toList) = shown log := by
    rw [shown_append]
    cases terminal <;> exact List.append_nil _
  obtain ⟨hcalled, hlines⟩ := h.called.read (by decide) hended (terminal.getD [])
  refine ⟨?_, fun j a hj => ?_, ?_, ?_⟩
  · rw [hfetched, hanswers]
    exact hcalled
  · rw [hanswers] at hj
    have hfitting := h.fitting j a hj
    rw [Fitting] at hfitting ⊢
    rw [hfetched, hshown, hlines j (List.getElem?_eq_some_iff.mp hj).1]
    exact hfitting
  · have hturn := h.inTurn
    unfold InTurn at hturn ⊢
    rw [hanswers, hshown]
    exact hturn
  · rw [hanswers]
    exact h.alive

/-- An answer: a line, or what the client has sent. -/
theorem text_typed (buffer : Buf bufsize) {line : Option (List UInt8)}
    (hline : ∀ l ∈ line, l.length < bufsize) :
    (typed buffer line).text = (line.map cstr).getD buffer.text := by
  cases line with
  | none => rfl
  | some l =>
      exact buffer.text_fill_terminated_of_cstr
        (Nat.lt_of_le_of_lt (length_cstr_le l) (hline l rfl))

/-- The next answer is the one for its turn. -/
theorem Kept.fitting_next (h : Kept log c) {buffer : Buf bufsize} (hc : c.phase = .typing buffer)
    (hready : c.stdin.Ready bufsize) :
    Fitting (fgetsAll bufsize (fetched log).flatten) (shown log) (answers log).length
      (typed buffer (c.stdin.fgets bufsize).1).text := by
  have hturn := h.inTurn
  rw [hc] at hturn
  obtain ⟨hlen, hlast⟩ := hturn
  obtain ⟨hline, -⟩ := h.called.fgets (by decide) hready
  have hshort : ∀ l ∈ (c.stdin.fgets bufsize).1, l.length < bufsize := fun l hl => by
    rw [hline] at hl
    exact (fgetsItem_of_mem_fgetsAll (by decide) (List.mem_of_getElem? hl)).length_lt (by decide)
  rw [Fitting, text_typed buffer hshort, ← hline]
  cases (c.stdin.fgets bufsize).1 with
  | some l => rfl
  | none =>
      rw [List.getLast?_eq_getElem?, hlen, Nat.add_sub_cancel] at hlast
      exact hlast

/-- The child answers. -/
theorem Kept.answer (h : Kept log c) {buffer : Buf bufsize} (hc : c.phase = .typing buffer)
    (hready : c.stdin.Ready bufsize) (ret : WriteRet) :
    Kept (log ++ [.answered (typed buffer (c.stdin.fgets bufsize).1).text ret])
      ⟨if ret = .sigpipe then .killed else .reading, (c.stdin.fgets bufsize).2⟩ := by
  have hturn := h.inTurn
  rw [hc] at hturn
  obtain ⟨hlen, -⟩ := hturn
  obtain ⟨-, hcalled⟩ := h.called.fgets (by decide) hready
  have hnext := h.fitting_next hc hready
  generalize (typed buffer (c.stdin.fgets bufsize).1).text = t at hnext ⊢
  have hfetched : fetched (log ++ [.answered t ret]) = fetched log := by
    rw [fetched_append]
    exact List.append_nil _
  have hanswers : answers (log ++ [.answered t ret]) = answers log ++ [(t, ret)] := by
    rw [answers_append]
    rfl
  have hshown : shown (log ++ [.answered t ret]) = shown log := by
    rw [shown_append]
    exact List.append_nil _
  have halive : ∀ a ∈ answers log, a.2 ≠ .sigpipe :=
    h.alive.resolve_right fun hkilled => by rw [hc] at hkilled; cases hkilled.1
  refine ⟨?_, fun j a hj => ?_, ?_, ?_⟩
  · rw [hfetched, hanswers, List.length_append, List.length_singleton]
    exact hcalled
  · rw [hfetched, hshown]
    rw [hanswers] at hj
    obtain hlt | hge := Nat.lt_or_ge j (answers log).length
    · rw [List.getElem?_append_left hlt] at hj
      exact h.fitting j a hj
    · obtain ⟨hlt, -⟩ := List.getElem?_eq_some_iff.mp hj
      rw [List.length_append, List.length_singleton] at hlt
      obtain rfl : j = (answers log).length := by omega
      rw [List.getElem?_concat_length] at hj
      obtain rfl := Option.some.inj hj
      exact hnext
  · have hlater : (shown (log ++ [.answered t ret])).length =
        (answers (log ++ [.answered t ret])).length := by
      rw [hshown, hanswers, hlen, List.length_append, List.length_singleton]
    split <;> exact hlater
  · rw [hanswers]
    by_cases hret : ret = .sigpipe
    · rw [List.dropLast_concat, if_pos hret]
      exact .inr ⟨rfl, halive⟩
    · simp only [List.forall_mem_append, List.forall_mem_singleton]
      exact .inl ⟨halive, hret⟩

/-- **Step lemma**: a child keeps to it, whatever it does. -/
theorem kept_step (greeting : List UInt8) (terminal : Option (List UInt8)) (h : Kept log c)
    (a : Act) :
    Kept (log ++ (c.step greeting terminal a).2) (c.step greeting terminal a).1 := by
  have hstay : Kept (log ++ []) c := by rwa [List.append_nil]
  have hturn := h.inTurn
  cases a with
  | connect ret bytes =>
      simp only [Child.step]
      split
      · rename_i hc
        refine h.goOn rfl rfl (by simp [hc]) ?_
        rw [hc] at hturn
        have hlen : (shown log).length = (answers log).length := hturn
        have hsame (text : List UInt8) : (shown (log ++ [.greeted text ret])).length =
            (answers (log ++ [.greeted text ret])).length := by
          rwa [shown_append, answers_append, List.length_append, List.length_append]
        split
        · exact hsame _
        · split <;> exact hsame _
      · exact hstay
  | read ret =>
      simp only [Child.step]
      split
      · rename_i hc
        rw [hc] at hturn
        have hlen : (shown log).length = (answers log).length := hturn
        split
        · rename_i text htext
          obtain ⟨rfl, -⟩ := (Buf.readString_eq_some_iff _).mp htext
          refine h.goOn rfl rfl (by simp [hc]) ?_
          have hshown : shown (log ++ [.shown (received ret).text]) =
              shown log ++ [(received ret).text] := shown_append _ _
          have hanswers : answers (log ++ [.shown (received ret).text]) = answers log := by
            rw [answers_append]
            exact List.append_nil _
          rw [InTurn, hshown, hanswers, List.length_append, hlen, List.length_singleton]
          exact ⟨rfl, List.getLast?_concat⟩
        · refine h.goOn rfl rfl (by simp [hc]) ?_
          rw [List.append_nil]
          exact hlen
      · exact hstay
  | fetch =>
      simp only [Child.step]
      split
      · split
        · exact hstay
        · rename_i hready
          exact h.fetch hready terminal
      · exact hstay
  | answer ret =>
      simp only [Child.step]
      split
      · rename_i buffer hc
        split
        · rename_i hready
          exact h.answer hc hready ret
        · exact hstay
      · exact hstay

end

/-! ## runs -/

/-- A child fetches what the terminal has got, or nothing. -/
theorem fetched_step (greeting : List UInt8) (terminal : Option (List UInt8)) (c : Child)
    (a : Act) : fetched (c.step greeting terminal a).2 = [] ∨
      fetched (c.step greeting terminal a).2 = terminal.toList := by
  cases a with
  | connect ret bytes =>
      simp only [Child.step]
      split <;> exact .inl rfl
  | read ret =>
      simp only [Child.step]
      split
      · split <;> exact .inl rfl
      · exact .inl rfl
  | fetch =>
      simp only [Child.step]
      split
      · split
        · exact .inl rfl
        · cases terminal <;> exact .inr rfl
      · exact .inl rfl
  | answer ret =>
      simp only [Child.step]
      split
      · split <;> exact .inl rfl
      · exact .inl rfl

/-- The invariant of the children and the terminal. -/
structure Inv (terminal : List (List UInt8)) (s : Sys) (log : List (Nat × Output)) : Prop where
  dealt : fetched (log.map Prod.snd) ++ s.terminal = terminal
  kept : ∀ c, Kept (own c log) (s.children c)

theorem inv_init (terminal : List (List UInt8)) : Inv terminal (.init terminal) [] where
  dealt := rfl
  kept _ := kept_init

/-- **Step lemma**: every event keeps the invariant. -/
theorem inv_step (greeting : List UInt8) {terminal : List (List UInt8)} {s : Sys}
    {log : List (Nat × Output)} (h : Inv terminal s log) (e : Event) :
    Inv terminal (step greeting s e).1 (log ++ (step greeting s e).2) := by
  have hfetched := fetched_step greeting s.terminal.head? (s.children e.client) e.act
  have hkept := kept_step greeting s.terminal.head? (h.kept e.client) e.act
  simp only [step]
  generalize (s.children e.client).step greeting s.terminal.head? e.act = next at hfetched hkept
  refine ⟨?_, fun c => ?_⟩
  · have hout : (next.2.map fun o => (e.client, o)).map Prod.snd = next.2 := by
      rw [List.map_map]
      exact List.map_id _
    rw [List.map_append, hout, fetched_append, List.append_assoc]
    obtain hnone | hhead := hfetched
    · rw [hnone]
      exact h.dealt
    · have hrest : s.terminal.head?.toList ++ s.terminal.drop s.terminal.head?.toList.length =
          s.terminal := by cases s.terminal <;> rfl
      rw [hhead, hrest]
      exact h.dealt
  · rw [own_append]
    by_cases hc : e.client = c
    · subst hc
      simpa using hkept
    · have hother := h.kept c
      rw [own_map_of_ne hc, List.append_nil]
      simpa [Function.update_of_ne (Ne.symm hc)] using hother

/-- **One terminal**: whatever the children do, in any order, what the calls of `read` on the
terminal return is dealt out to the children, each piece to one of them.  A client is answered
with the lines of what its own child has got, each once and in order, however the pieces were
cut; behind the last line an answer is what the client has sent in its turn.  No client is
answered more often than it is heard, or less often than once less, and nothing is answered
after SIGPIPE.  If the terminal gives out whole lines, the lines of a child are its pieces. -/
theorem answers_run (greeting : List UInt8) (terminal : List (List UInt8)) (es : List Event) :
    let log := (run (step greeting) (.init terminal) es).2
    fetched (log.map Prod.snd) <+: terminal ∧
      ∀ c, let mine := own c log
        (∀ j a, (answers mine)[j]? = some a →
          Fitting (fgetsAll bufsize (fetched mine).flatten) (shown mine) j a.1) ∧
        (answers mine).length ≤ (shown mine).length ∧
        (shown mine).length ≤ (answers mine).length + 1 ∧
        (∀ a ∈ (answers mine).dropLast, a.2 ≠ .sigpipe) ∧
        ((∀ piece ∈ terminal, WholeItem bufsize piece) →
          fgetsAll bufsize (fetched mine).flatten = fetched mine) := by
  intro log
  have hstep (s : Sys) (_ : List Event) (log : List (Nat × Output)) (e : Event)
      (h : Inv terminal s log) :
      Inv terminal (step greeting s e).1 (log ++ (step greeting s e).2) := inv_step greeting h e
  have hinv : Inv terminal _ log := run_hist_of_step hstep (inv_init terminal) es
  have hdealt : fetched (log.map Prod.snd) <+: terminal := ⟨_, hinv.dealt⟩
  refine ⟨hdealt, fun c => ?_⟩
  intro mine
  have hkept : Kept mine _ := hinv.kept c
  have hturn := hkept.inTurn
  refine ⟨hkept.fitting, ?_, ?_, ?_, fun hwhole => ?_⟩
  · unfold InTurn at hturn
    split at hturn <;> omega
  · unfold InTurn at hturn
    split at hturn <;> omega
  · obtain halive | hkilled := hkept.alive
    · exact fun a ha => halive a (List.dropLast_subset _ ha)
    · exact hkilled.2
  · have hmine : ∀ piece ∈ fetched mine, WholeItem bufsize piece := fun piece hpiece =>
      hwhole piece (hdealt.subset (((own_sublist c log).filterMap _).subset hpiece))
    have hall := fgetsAll_flatten_append (by decide) hmine []
    rwa [fgetsAll_nil, List.append_nil, List.append_nil] at hall

-- two lines in one piece: the second one waits for the client that has had the first
example :
    let chat (c : Nat) : List Event :=
      [⟨c, .read (.data (ascii "?"))⟩, ⟨c, .fetch⟩, ⟨c, .answer .written⟩]
    let es : List Event := [⟨0, .connect .written 1⟩, ⟨1, .connect .written 1⟩] ++
      chat 0 ++ chat 1 ++ chat 0
    let log := (run (step []) (.init [ascii "a\nb\n", ascii "c\n"]) es).2
    answers (own 0 log) = [(ascii "a\n", .written), (ascii "b\n", .written)] ∧
      answers (own 1 log) = [(ascii "c\n", .written)] := by
  decide +kernel

end Reti.ServerClientChat
