import Reti.ForkServer.System

/-!
# Reti.ForkServer.Clients

Which process of a forking server takes in the clients.  The children are harmless: each
has closed the listening socket, or ends after its client, so that a server accepts what its
parent would accept alone.
-/

namespace Reti.ForkServer

open Descriptors Transducer

/-! ## the parent alone -/

/-- The process that takes a step. -/
def Event.pid : Event → Nat
  | .accept pid _ _ => pid
  | .served pid _ => pid

/-- The process that a server starts with. -/
def Process.start (table : Table) : Process := ⟨.accepting, table, 0⟩

/-- The parent without its children. -/
def alone (p : Program) (limit listenFd : Nat) (s : Process) : Event → Process × List Accepted
  | .accept _ arrives forkOk =>
    match s.pc with
    | .accepting =>
      ((acceptBody p limit listenFd s arrives forkOk).1,
        (acceptCall limit listenFd s.table arrives).toList.map fun c => ⟨0, c.1⟩)
    | _ => (s, [])
  | .served _ _ => (s, [])

/-- A child never comes back to `accept` with the listening socket. -/
def Program.Confined (p : Program) : Prop :=
  p.childCloses = true ∨ p.childExits = true ∨ p.closesListen = true

/-- The servers. -/
def servers : List Program :=
  [chatTcpGold, chatServerTcp, serverclientChat, mpDice, tcpState, smallCapper, modular, timeCount,
    multiClient]

theorem confined_of_mem {p : Program} (hp : p ∈ servers) : p.Confined := by
  have hall : ∀ p ∈ servers, p.childCloses || p.childExits || p.closesListen := by decide
  simpa [Program.Confined, or_assoc] using hall p hp

/-- The parent is never in the handler. -/
def Idle (s : Process) : Prop := ∀ conn, s.pc ≠ .serving conn

/-- A child without the listening socket, or one that will not keep it. -/
def Harmless (p : Program) (listenFd : Nat) (s : Process) : Prop :=
  listenFd ∉ s.table ∨ s.pc ≠ .accepting ∧ (p.childExits = true ∨ p.closesListen = true)

section

variable {p : Program} {limit listenFd : Nat}

theorem closeAll_subset (t : Table) (conn : Option Nat) : closeAll p listenFd t conn ⊆ t := by
  have hlisten : (if p.closesListen then close t listenFd else t) ⊆ t := by
    split
    · exact Finset.erase_subset _ _
    · exact Finset.Subset.refl t
  cases conn with
  | none => exact hlisten
  | some fd =>
      simp only [closeAll]
      split
      · exact (Finset.erase_subset _ _).trans hlisten
      · exact hlisten

theorem not_mem_closeAll (h : p.closesListen = true) (t : Table) (conn : Option Nat) :
    listenFd ∉ closeAll p listenFd t conn := by
  cases conn with
  | none => simp [closeAll, h, close]
  | some fd => simp only [closeAll, h, close]; split <;> simp

theorem parentNext_idle (t : Table) (conn : Option Nat) (clients : Nat) :
    Idle (parentNext p listenFd t conn clients) := by
  intro c
  simp only [parentNext]
  split <;> simp

theorem child_harmless (hp : p.Confined) (t : Table) (conn : Option Nat) (clients : Nat) :
    Harmless p listenFd (child p listenFd t conn clients) := by
  by_cases hcloses : p.childCloses = true
  · exact .inl (by simp [child, hcloses, close])
  · exact .inr ⟨by simp [child], hp.resolve_left hcloses⟩

theorem forkCall_idle (hp : p.Confined) (s : Process) (t : Table) (conn : Option Nat)
    (forkOk : Bool) :
    Idle (forkCall p listenFd s t conn forkOk).1 ∧
      ∀ c ∈ (forkCall p listenFd s t conn forkOk).2, Harmless p listenFd c := by
  unfold forkCall
  split
  · refine ⟨parentNext_idle t conn _, fun c hc => ?_⟩
    obtain rfl := List.mem_singleton.mp hc
    exact child_harmless hp t conn _
  · split
    · exact ⟨by simp [Idle], by simp⟩
    · exact ⟨parentNext_idle t conn _, by simp⟩

theorem Harmless.of_not_mem {s : Process} (h : listenFd ∉ s.table) : Harmless p listenFd s :=
  .inl h

/-- A process without the listening socket stays without it. -/
theorem forkCall_harmless (s : Process) {t : Table} (ht : listenFd ∉ t) (conn : Option Nat)
    (forkOk : Bool) : Harmless p listenFd (forkCall p listenFd s t conn forkOk).1 := by
  have hnext : listenFd ∉ closeAll p listenFd t conn := fun h => ht (closeAll_subset t conn h)
  unfold forkCall
  split
  · exact .of_not_mem hnext
  · split
    · exact .of_not_mem ht
    · exact .of_not_mem hnext

theorem idle_keeps (hp : p.Confined) : Keeps p limit listenFd Idle (Harmless p listenFd) := by
  refine ⟨fun s arrives forkOk hs _ => ?_, fun s conn returns hs hpc => absurd hpc (hs conn)⟩
  unfold acceptBody
  split
  · exact forkCall_idle hp s _ _ forkOk
  · split
    · exact ⟨by simp [Idle], by simp⟩
    · exact ⟨hs, by simp⟩
    · exact forkCall_idle hp s _ _ forkOk

/-- A child at `accept` has no listening socket. -/
theorem Harmless.not_mem {s : Process} (h : Harmless p listenFd s) (hpc : s.pc = .accepting) :
    listenFd ∉ s.table := h.resolve_right fun hr => hr.1 hpc

theorem harmless_keeps (hp : p.Confined) :
    Keeps p limit listenFd (Harmless p listenFd) (Harmless p listenFd) := by
  constructor
  · intro s arrives forkOk hs hpc
    have hfd := hs.not_mem hpc
    rw [acceptBody, acceptCall_of_closed hfd]
    cases p.acceptFails with
    | exits => exact ⟨.of_not_mem hfd, by simp⟩
    | retries => exact ⟨.of_not_mem hfd, by simp⟩
    | goesOn =>
        exact ⟨forkCall_harmless s hfd none forkOk, (forkCall_idle hp s s.table none forkOk).2⟩
  · intro s conn returns hs hpc
    unfold servedBody
    split
    · exact hs.imp id fun h => ⟨by simp, h.2⟩
    · rename_i hback
      refine .of_not_mem ?_
      cases hs with
      | inl hfd => exact fun h => hfd (closeAll_subset s.table conn h)
      | inr hlater => exact not_mem_closeAll (hlater.2.resolve_left fun h => hback (.inl h)) _ _

/-- What is known in a run. -/
def Inv (p : Program) (listenFd : Nat) (s : Sys) : Prop := Known Idle (Harmless p listenFd) s

/-- The parent, as seen from outside. -/
def parent (s : Sys) : Process := s.headD (.start ∅)

theorem head?_eq {s : Sys} (hs : Inv p listenFd s) : s[0]? = some (parent s) := by
  obtain ⟨proc, hhead, -⟩ := hs.parent
  rw [← List.head?_eq_getElem?, hhead, parent, List.headD_eq_head?_getD, hhead, Option.getD_some]

theorem parent_set {s : Sys} (hs : Inv p listenFd s) (proc : Process) (children : List Process) :
    parent (s.set 0 proc ++ children) = proc := by
  obtain ⟨first, hhead, -⟩ := hs.parent
  obtain ⟨rest, rfl⟩ := List.head?_eq_some_iff.mp hhead
  rfl

theorem parent_set_succ {s : Sys} (hs : Inv p listenFd s) (k : Nat) (proc : Process)
    (children : List Process) : parent (s.set (k + 1) proc ++ children) = parent s := by
  obtain ⟨first, hhead, -⟩ := hs.parent
  obtain ⟨rest, rfl⟩ := List.head?_eq_some_iff.mp hhead
  rfl

theorem harmless_of_getElem? {s : Sys} (hs : Inv p listenFd s) {k : Nat} {proc : Process}
    (h : s[k + 1]? = some proc) : Harmless p listenFd proc :=
  hs.children proc (List.mem_of_getElem? (by simpa using h))

/-- A step of the parent. -/
theorem step_own {s : Sys} (hs : Inv p listenFd s) {e : Event} (he : e.pid = 0) :
    parent (step p limit listenFd s e).1 = (alone p limit listenFd (parent s) e).1 ∧
      (step p limit listenFd s e).2 = (alone p limit listenFd (parent s) e).2 := by
  have hhead := head?_eq hs
  have hidle : Idle (parent s) := by
    obtain ⟨proc, hproc, hidle⟩ := hs.parent
    rwa [parent, List.headD_eq_head?_getD, hproc, Option.getD_some]
  cases e with
  | accept pid arrives forkOk =>
      obtain rfl : pid = 0 := he
      cases hpc : (parent s).pc with
      | accepting =>
          rw [step_accept hhead hpc, parent_set hs]
          simp only [alone, hpc, and_self]
      | serving conn => exact absurd hpc (hidle conn)
      | exited => simp only [step, alone, hhead, hpc, and_self]
  | served pid returns =>
      obtain rfl : pid = 0 := he
      cases hpc : (parent s).pc with
      | accepting => simp only [step, alone, hhead, hpc, and_self]
      | serving conn => exact absurd hpc (hidle conn)
      | exited => simp only [step, alone, hhead, hpc, and_self]

/-- A step of a child. -/
theorem step_other {s : Sys} (hs : Inv p listenFd s) {e : Event} (he : e.pid ≠ 0) :
    parent (step p limit listenFd s e).1 = parent s ∧ (step p limit listenFd s e).2 = [] := by
  obtain ⟨k, hk⟩ := Nat.exists_eq_succ_of_ne_zero he
  obtain h | ⟨pid, proc, arrives, forkOk, rfl, hproc, hpc⟩ |
    ⟨pid, proc, conn, returns, rfl, hproc, hpc⟩ := step_cases (p := p) s e
  · exact h ▸ ⟨rfl, rfl⟩
  · obtain rfl : pid = k + 1 := hk
    have hfd := (harmless_of_getElem? hs hproc).not_mem hpc
    rw [step_accept hproc hpc, parent_set_succ hs, acceptCall_of_closed hfd]
    exact ⟨rfl, rfl⟩
  · obtain rfl : pid = k + 1 := hk
    rw [step_served hproc hpc, ← List.append_nil (s.set _ _), parent_set_succ hs]
    exact ⟨rfl, rfl⟩

variable (p limit listenFd) in
/-- **Inversion**: the parent at `accept`, or no step. -/
theorem alone_cases (s : Process) (e : Event) :
    alone p limit listenFd s e = (s, []) ∨
      ∃ pid arrives forkOk, e = .accept pid arrives forkOk ∧ s.pc = .accepting ∧
        alone p limit listenFd s e = ((acceptBody p limit listenFd s arrives forkOk).1,
          (acceptCall limit listenFd s.table arrives).toList.map fun c => ⟨0, c.1⟩) := by
  cases e with
  | accept pid arrives forkOk =>
      cases hpc : s.pc with
      | accepting => exact .inr ⟨pid, arrives, forkOk, rfl, rfl, by simp only [alone, hpc]⟩
      | serving conn => exact .inl (by simp only [alone, hpc])
      | exited => exact .inl (by simp only [alone, hpc])
  | served pid returns => exact .inl rfl

theorem alone_pid (s : Process) (e : Event) : ∀ a ∈ (alone p limit listenFd s e).2, a.pid = 0 := by
  obtain hstuck | ⟨_, arrives, forkOk, -, -, hstep⟩ := alone_cases p limit listenFd s e
  · simp [hstuck]
  · rw [hstep]
    intro a ha
    obtain ⟨c, -, rfl⟩ := List.mem_map.mp ha
    rfl

theorem inv_init (table : Table) : Inv p listenFd (Sys.init table) :=
  ⟨⟨_, rfl, by simp [Idle]⟩, by simp [Sys.init]⟩

/-- The children cannot be told from outside. -/
theorem unwinding (hp : p.Confined) :
    Unwinding (step p limit listenFd) (Inv p listenFd) (fun _ _ => True) parent
      (fun e => e.pid == 0) (fun _ => true) (alone p limit listenFd) where
  inv _ e hs _ := known_step (idle_keeps hp) (harmless_keeps hp) hs e
  own_view _ _ hs _ he := (step_own hs (by simpa using he)).1
  own_see _ _ hs _ he := by
    rw [List.filter_true]
    exact (step_own hs (by simpa using he)).2
  other_view _ _ hs _ he := (step_other hs (by simpa using he)).1
  other_see _ _ hs _ he := by rw [(step_other hs (by simpa using he)).2, List.filter_nil]

variable (limit listenFd) in
/-- **Run lemma**: the clients of a run, and the parent after it, are those of the parent
alone. -/
theorem run_alone (hp : p.Confined) (table : Table) (es : List Event) :
    (run (step p limit listenFd) (.init table) es).2 =
        (run (alone p limit listenFd) (.start table) (es.filter fun e => e.pid == 0)).2 ∧
      parent (run (step p limit listenFd) (.init table) es).1 =
        (run (alone p limit listenFd) (.start table) (es.filter fun e => e.pid == 0)).1 := by
  have hes : Along (step p limit listenFd) (fun _ _ => True) (.init table) es :=
    along_events_iff.mpr fun _ _ => trivial
  have hsee := (unwinding hp).run_see (inv_init table) hes
  rw [List.filter_true] at hsee
  exact ⟨hsee, (unwinding hp).run_view (inv_init table) hes⟩

end

/-- In every server, whatever the order of the steps of parent and children, the clients
that are accepted are those that the parent would have accepted without children, with the
same descriptors; no child accepts any. -/
theorem accepted_by_parent (p : Program) (hp : p ∈ servers) (limit listenFd : Nat) (table : Table)
    (es : List Event) :
    (run (step p limit listenFd) (.init table) es).2 =
        (run (alone p limit listenFd) (.start table) (es.filter fun e => e.pid == 0)).2 ∧
      ∀ a ∈ (run (step p limit listenFd) (.init table) es).2, a.pid = 0 := by
  have halone := (run_alone limit listenFd (confined_of_mem hp) table es).1
  exact ⟨halone, halone ▸ forall_run_of_step alone_pid _ _⟩

theorem accepted_by_parent_forked :
    mpDice ∈ servers ∧
      (run (step mpDice 8 3) (.init {0, 1, 2, 3})
        [.accept 0 true true, .served 1 true, .accept 1 true true]).2 = [⟨0, 4⟩] := by
  have hp : mpDice ∈ servers := by decide
  have hrun := (accepted_by_parent mpDice hp 8 3 {0, 1, 2, 3}
    [.accept 0 true true, .served 1 true, .accept 1 true true]).1
  exact ⟨hp, hrun.trans (by decide)⟩

end Reti.ForkServer
