import Reti.OneWayChat.Session
import Reti.Lib.Transducer

/-!
# Reti.OneWayChat.Service

The parent of the one-way chat server (`chat/chat_server.c`): it accepts a client, forks a
child for it, waits until a child ends, and asks at its terminal whether to go on.  It
therefore serves one client after the other, and a client whose child never ends is its
last.
-/

namespace Reti.OneWayChat

open CStr Transducer

/-- What the calls of `read` on a connection return; behind them it is closed. -/
def readFrom (conn : List RecvRet) (n : Nat) : RecvRet := conn[n]?.getD .closed

/-! ## the processes -/

/-- Where the parent is: at `accept`, at `wait`, at `scanf`, or at its end. -/
inductive Pc where
  | accepting
  | waiting
  | asking
  | exited
  deriving DecidableEq, Repr

/-- A child with its connection and the iterations of its loop, and whether the parent has
waited for it. -/
structure Served where
  conn : List RecvRet
  turns : Nat
  child : Child
  waitedFor : Bool
  deriving DecidableEq, Repr

/-- The parent, its variable `end`, and its children in the order in which they were forked. -/
structure Server where
  pc : Pc
  stop : Int
  children : List Served
  deriving DecidableEq, Repr

def Server.init : Server := ⟨.accepting, -1, []⟩

/-- A message that a child has printed. -/
structure Print where
  child : Nat
  text : List UInt8
  deriving DecidableEq, Repr

/-- What happens next: `accept` returns a client or fails, and `fork` follows; a child goes
through its loop once; `wait` returns, if it can; `scanf` reads a number, or none. -/
inductive Event where
  | accept (conn : Option (List RecvRet)) (forkOk : Bool)
  | iterate (i : Nat)
  | wait
  | answer (n : Option Int)
  deriving DecidableEq, Repr

/-- One iteration of a child, and what it prints. -/
def Served.iterate (c : Served) : Served × List (List UInt8) :=
  let child := iteration c.child (readFrom c.conn c.turns)
  ({ c with turns := c.turns + 1, child := child },
    child.printed.drop c.child.printed.length)

/-- A child that has ended and that nobody has waited for. -/
def Served.ended (c : Served) : Bool := !c.waitedFor && c.child.status != .running

/-- `wait`: it takes a child that has ended, and fails if there is none to wait for.  It
blocks while a child is running. -/
def waitCall (s : Server) : Server :=
  if s.children.all Served.waitedFor then { s with pc := .asking }
  else
    match s.children.findIdx? Served.ended with
    | some i =>
      { s with
        pc := .asking
        children := s.children.modify i fun c => { c with waitedFor := true } }
    | none => s

def step (s : Server) : Event → Server × List Print
  | .accept conn forkOk =>
    if s.pc = .accepting then
      match conn with
      | some conn =>
        ({ s with
            pc := .waiting
            children := s.children ++ if forkOk then [⟨conn, 0, .init, false⟩] else [] }, [])
      | none => ({ s with pc := .exited }, [])
    else (s, [])
  | .iterate i =>
    match s.children[i]? with
    | some c =>
      if c.child.status = .running then
        ({ s with children := s.children.set i c.iterate.1 },
          c.iterate.2.map fun text => ⟨i, text⟩)
      else (s, [])
    | none => (s, [])
  | .wait => if s.pc = .waiting then (waitCall s, []) else (s, [])
  | .answer n =>
    if s.pc = .asking then
      let stop := n.getD s.stop
      ({ s with pc := if 0 ≤ stop then .accepting else .exited, stop := stop }, [])
    else (s, [])

/-! ## one child at a time -/

/-- What the children have printed, one after the other. -/
def transcript (children : List Served) : List Print :=
  children.zipIdx.flatMap fun p => p.1.child.printed.map fun text => ⟨p.2, text⟩

theorem transcript_append_singleton (front : List Served) (c : Served) :
    transcript (front ++ [c]) =
      transcript front ++ c.child.printed.map fun text => ⟨front.length, text⟩ := by
  simp [transcript, List.zipIdx_append]

/-- A child that has ended and that the parent has waited for. -/
def Finished (c : Served) : Prop := c.waitedFor = true ∧ c.child.status ≠ .running

/-- All children but the last one are finished, and the last one too unless the parent
waits. -/
structure Inv (s : Server) (out : List Print) : Prop where
  loop_eq : ∀ c ∈ s.children, c.child = loop .init (readFrom c.conn) c.turns
  ended : ∀ c ∈ s.children, c.waitedFor = true → Finished c
  front : ∀ c ∈ s.children.dropLast, Finished c
  all : s.pc ≠ .waiting → ∀ c ∈ s.children, Finished c
  out_eq : out = transcript s.children

/-- A child that is not finished is the last one. -/
theorem Inv.eq_last {s : Server} {out : List Print} (h : Inv s out) {i : Nat} {c : Served}
    (hi : s.children[i]? = some c) (hc : ¬Finished c) :
    s.pc = .waiting ∧ ∃ front, s.children = front ++ [c] ∧ i = front.length := by
  obtain ⟨hlt, hget⟩ := List.getElem?_eq_some_iff.mp hi
  have hpc : s.pc = .waiting := by
    by_contra hpc
    exact hc (h.all hpc c (hget ▸ List.getElem_mem hlt))
  have hne : s.children ≠ [] := List.ne_nil_of_length_pos (by omega)
  have hlast : i = s.children.length - 1 := by
    by_contra hi'
    have hmem : c ∈ s.children.dropLast := by
      rw [← hget, ← List.getElem_dropLast (i := i) (by rw [List.length_dropLast]; omega)]
      exact List.getElem_mem _
    exact hc (h.front c hmem)
  refine ⟨hpc, s.children.dropLast, ?_, by rw [List.length_dropLast, hlast]⟩
  subst hlast
  rw [← hget, ← List.getLast_eq_getElem hne, List.dropLast_append_getLast hne]

theorem inv_init : Inv .init [] := ⟨by simp [Server.init], by simp [Server.init],
  by simp [Server.init], by simp [Server.init], rfl⟩

/-- The parent goes on with all its children finished. -/
theorem Inv.parent {s : Server} {out : List Print} (h : Inv s out)
    (hall : ∀ c ∈ s.children, Finished c) (pc : Pc) (stop : Int) :
    Inv ⟨pc, stop, s.children⟩ (out ++ []) where
  loop_eq := h.loop_eq
  ended := h.ended
  front c hc := hall c ((List.dropLast_sublist _).subset hc)
  all _ := hall
  out_eq := by rw [List.append_nil, h.out_eq]

/-- A new child, or none. -/
theorem Inv.accept {s : Server} {out : List Print} (h : Inv s out)
    (hall : ∀ c ∈ s.children, Finished c) (conn : List RecvRet) :
    Inv { s with pc := .waiting, children := s.children ++ [⟨conn, 0, .init, false⟩] }
      (out ++ []) where
  loop_eq := by
    simp only [List.forall_mem_append, List.forall_mem_singleton]
    exact ⟨h.loop_eq, rfl⟩
  ended := by
    simp only [List.forall_mem_append, List.forall_mem_singleton]
    exact ⟨h.ended, by simp⟩
  front := by
    rw [List.dropLast_concat]
    exact hall
  all hpc := absurd rfl hpc
  out_eq := by simp [transcript_append_singleton, h.out_eq, Child.init]

theorem loop_succ (c : Child) (reads : Nat → RecvRet) (n : Nat) :
    loop c reads (n + 1) = iteration (loop c reads n) (reads n) := by
  induction n generalizing c reads with
  | zero => rfl
  | succ n ih => rw [loop, ih]; rfl

theorem printed_iteration (c : Child) (ret : RecvRet) :
    c.printed ++ (iteration c ret).printed.drop c.printed.length = (iteration c ret).printed := by
  unfold iteration
  split
  · split
    · simp
    · split <;> simp
  · simp

/-- The last child goes through its loop. -/
theorem Inv.iterate {s : Server} {out : List Print} (h : Inv s out) {i : Nat} {c : Served}
    (hi : s.children[i]? = some c) (hrun : c.child.status = .running) :
    Inv { s with children := s.children.set i c.iterate.1 }
      (out ++ c.iterate.2.map fun text => ⟨i, text⟩) := by
  have hc : ¬Finished c := fun hf => hf.2 hrun
  obtain ⟨hpc, front, hchildren, rfl⟩ := h.eq_last hi hc
  have hloop := h.loop_eq
  have hended := h.ended
  have hfront := h.front
  rw [hchildren, List.dropLast_concat] at hfront
  simp only [hchildren, List.forall_mem_append, List.forall_mem_singleton] at hloop hended
  have hset : s.children.set front.length c.iterate.1 = front ++ [c.iterate.1] := by
    simp [hchildren]
  rw [hset]
  refine ⟨?_, ?_, ?_, fun hne => absurd hpc hne, ?_⟩
  · simp only [List.forall_mem_append, List.forall_mem_singleton]
    refine ⟨hloop.1, ?_⟩
    rw [Served.iterate, loop_succ, ← hloop.2]
  · simp only [List.forall_mem_append, List.forall_mem_singleton]
    exact ⟨hended.1, fun hw => absurd (hended.2 hw) hc⟩
  · rw [List.dropLast_concat]
    exact hfront
  · rw [h.out_eq, hchildren, transcript_append_singleton, transcript_append_singleton,
      List.append_assoc, ← List.map_append]
    simp only [Served.iterate, printed_iteration]

/-- `wait` returns when the last child is finished. -/
theorem Inv.wait {s : Server} {out : List Print} (h : Inv s out) :
    Inv (waitCall s) (out ++ []) := by
  unfold waitCall
  split
  · rename_i hwaited
    have hall : ∀ c ∈ s.children, Finished c := fun c hc =>
      h.ended c hc (List.all_eq_true.mp hwaited c hc)
    exact h.parent hall .asking s.stop
  · split
    · rename_i i hfind
      obtain ⟨hlt, hc, -⟩ := List.findIdx?_eq_some_iff_getElem.mp hfind
      generalize hget : s.children[i] = c at hc
      have hi : s.children[i]? = some c := by rw [List.getElem?_eq_getElem hlt, hget]
      simp only [Served.ended, Bool.and_eq_true, Bool.not_eq_true', bne_iff_ne] at hc
      have hnot : ¬Finished c := fun hf => by simp [hf.1] at hc
      obtain ⟨-, front, hchildren, rfl⟩ := h.eq_last hi hnot
      have hmodify : s.children.modify front.length (fun c => { c with waitedFor := true }) =
          front ++ [{ c with waitedFor := true }] := by
        have hlast : front.length < (front ++ [c]).length := by simp
        rw [hchildren, List.modify_eq_take_cons_drop hlast]
        simp
      have hloop := h.loop_eq
      have hfront := h.front
      rw [hchildren, List.dropLast_concat] at hfront
      simp only [hchildren, List.forall_mem_append, List.forall_mem_singleton] at hloop
      have hall : ∀ c' ∈ front ++ [{ c with waitedFor := true }], Finished c' := by
        simp only [List.forall_mem_append, List.forall_mem_singleton]
        exact ⟨hfront, rfl, hc.2⟩
      rw [hmodify]
      refine ⟨?_, fun c' hc' _ => hall c' hc', ?_, fun _ => hall, ?_⟩
      · simp only [List.forall_mem_append, List.forall_mem_singleton]
        exact hloop
      · rw [List.dropLast_concat]
        exact hfront
      · rw [List.append_nil, h.out_eq, hchildren, transcript_append_singleton,
          transcript_append_singleton]
    · rw [List.append_nil]
      exact h

/-- **Step lemma**. -/
theorem inv_step {s : Server} {out : List Print} (h : Inv s out) (e : Event) :
    Inv (step s e).1 (out ++ (step s e).2) := by
  have hself : Inv s (out ++ []) := by rwa [List.append_nil]
  cases e with
  | accept conn forkOk =>
      by_cases hpc : s.pc = .accepting
      · have hall := h.all (by simp [hpc])
        cases conn with
        | none =>
            simp only [step, if_pos hpc]
            exact h.parent hall .exited s.stop
        | some conn =>
            simp only [step, if_pos hpc]
            cases forkOk with
            | true => exact h.accept hall conn
            | false =>
                have hnone := h.parent hall .waiting s.stop
                simpa using hnone
      · simp only [step, if_neg hpc]
        exact hself
  | iterate i =>
      cases hi : s.children[i]? with
      | none =>
          simp only [step, hi]
          exact hself
      | some c =>
          by_cases hrun : c.child.status = .running
          · simp only [step, hi, if_pos hrun]
            exact h.iterate hi hrun
          · simp only [step, hi, if_neg hrun]
            exact hself
  | wait =>
      by_cases hpc : s.pc = .waiting
      · rw [step, if_pos hpc]
        exact h.wait
      · rw [step, if_neg hpc]
        exact hself
  | answer n =>
      by_cases hpc : s.pc = .asking
      · rw [step, if_pos hpc]
        exact h.parent (h.all (by simp [hpc])) _ _
      · rw [step, if_neg hpc]
        exact hself

theorem inv_run (es : List Event) : Inv (run step .init es).1 (run step .init es).2 := by
  have hstep (s : Server) (_ : List Event) (out : List Print) (e : Event) (h : Inv s out) :
      Inv (step s e).1 (out ++ (step s e).2) := inv_step h e
  exact run_hist_of_step hstep inv_init es

/-! ## what the clients make of it -/

/-- This `read` takes the child out of its loop. -/
def Ends (ret : RecvRet) : Prop := ret = .error ∨ text ret = endCmd

instance (ret : RecvRet) : Decidable (Ends ret) := inferInstanceAs (Decidable (_ ∨ _))

/-- What the first `n` calls of `read` leave in the buffer. -/
def texts (reads : Nat → RecvRet) (n : Nat) : List (List UInt8) :=
  (List.range n).map fun i => text (reads i)

theorem iteration_of_ends {ret : RecvRet} (h : Ends ret) (printed : List (List UInt8)) :
    (iteration ⟨.running, printed⟩ ret).status ≠ .running ∧
      (iteration ⟨.running, printed⟩ ret).printed = printed := by
  by_cases herror : ret = .error
  · simp [iteration, herror]
  · have hend : text ret = endCmd := h.resolve_left herror
    simp [iteration, herror, hend]

theorem iteration_of_not_ends {ret : RecvRet} (h : ¬Ends ret) (printed : List (List UInt8)) :
    iteration ⟨.running, printed⟩ ret = ⟨.running, printed ++ [text ret]⟩ := by
  obtain ⟨herror, hend⟩ := not_or.mp h
  simp [iteration, herror, hend]

/-- **Run lemma**: the loop prints what it reads, up to the first `read` that ends it. -/
theorem loop_cases (reads : Nat → RecvRet) (n : Nat) :
    (∀ i < n, ¬Ends (reads i)) ∧ loop .init reads n = ⟨.running, texts reads n⟩ ∨
      (loop .init reads n).status ≠ .running ∧
        ∃ m, Ends (reads m) ∧ (∀ i < m, ¬Ends (reads i)) ∧
          (loop .init reads n).printed = texts reads m := by
  induction n with
  | zero => exact .inl ⟨fun i hi => absurd hi (Nat.not_lt_zero i), rfl⟩
  | succ n ih =>
      rw [loop_succ]
      obtain ⟨hgoes, hloop⟩ | ⟨hleft, hended⟩ := ih
      · rw [hloop]
        by_cases h : Ends (reads n)
        · obtain ⟨hstatus, hprinted⟩ := iteration_of_ends h (texts reads n)
          exact .inr ⟨hstatus, n, h, hgoes, hprinted⟩
        · refine .inl ⟨fun i hi => ?_, ?_⟩
          · obtain hlt | rfl := Nat.lt_succ_iff_lt_or_eq.mp hi
            · exact hgoes i hlt
            · exact h
          · rw [iteration_of_not_ends h, texts, texts, List.range_succ, List.map_append,
              List.map_singleton]
      · rw [iteration_of_not_running hleft]
        exact .inr ⟨hleft, hended⟩

/-- **Service**: in every run, the clients are served one after the other: what has been
printed is, child by child, what the loop of each child prints for its own connection.  For
every client but the last one, some `read` has failed or has left `END` in the buffer, and
what was printed for it is what the calls of `read` before the first such one have left
there.  A client for which that never happens, also because it has left, is the last one that
is ever served. -/
theorem service (es : List Event) :
    let children := (run step .init es).1.children
    (run step .init es).2 = transcript children ∧
      (∀ c ∈ children, c.child = loop .init (readFrom c.conn) c.turns) ∧
      (∀ c ∈ children.dropLast, ∃ n, Ends (readFrom c.conn n) ∧
        (∀ i < n, ¬Ends (readFrom c.conn i)) ∧ c.child.printed = texts (readFrom c.conn) n) ∧
      ∀ c ∈ children, (∀ n, ¬Ends (readFrom c.conn n)) → c ∉ children.dropLast := by
  intro children
  have h : Inv (run step .init es).1 (run step .init es).2 := inv_run es
  have hended : ∀ c ∈ children.dropLast, ∃ n, Ends (readFrom c.conn n) ∧
      (∀ i < n, ¬Ends (readFrom c.conn i)) ∧ c.child.printed = texts (readFrom c.conn) n := by
    intro c hc
    have hloop := h.loop_eq c ((List.dropLast_sublist _).subset hc)
    have hleft := (h.front c hc).2
    obtain ⟨-, hrunning⟩ | ⟨-, hend⟩ := loop_cases (readFrom c.conn) c.turns
    · rw [hloop, hrunning] at hleft
      exact absurd rfl hleft
    · rw [hloop]
      exact hend
  refine ⟨h.out_eq, h.loop_eq, hended, fun c _ hnever hc => ?_⟩
  obtain ⟨n, hn, -⟩ := hended c hc
  exact hnever n hn

end Reti.OneWayChat
