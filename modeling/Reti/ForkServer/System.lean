import Reti.Lib.Descriptors
import Reti.Lib.Transducer

/-!
# Reti.ForkServer.System

The TCP servers that fork a child for every client, as far as their processes, their
descriptors and their way around `accept` go.  All of them run one loop and differ in a few
places: what they do when a call fails, which descriptors parent and child close, and
whether a child that has served its client exits or falls through to the head of the loop.
A `Program` says what a server does in these places.

The processes of a server take their steps in any order.  What a child does for its client
is one step, which ends in the handler or with a return from it, or does not come at all.
-/

namespace Reti.ForkServer

open Descriptors

/-! ## the servers -/

/-- What a process does after an `accept` that has failed: exit, call it again, or go on as
if it had not failed. -/
inductive Reaction where
  | exits
  | retries
  | goesOn
  deriving DecidableEq, Repr

/-- The loop of a server.  `forkExits` tells whether a failed `fork` is noticed.
`closesConn` and `closesListen` are the closings at the end of the body, which a child that
has not exited runs like the parent; `childCloses` is the closing of the listening socket by
a new child, `childExits` the exit after the handler, and `most` the number of clients after
which the loop is left. -/
structure Program where
  acceptFails : Reaction
  forkExits : Bool
  closesConn : Bool
  closesListen : Bool
  childCloses : Bool
  childExits : Bool
  most : Option Nat
  deriving DecidableEq, Repr

/-- `chat_TCP_gold/src/ds.c`. -/
def chatTcpGold : Program := ⟨.retries, false, false, false, false, true, none⟩

/-- `_old/chat/chat_server_tcp.c`. -/
def chatServerTcp : Program := ⟨.exits, true, false, false, true, false, none⟩

/-- `serverclient_chat.c`. -/
def serverclientChat : Program := ⟨.exits, true, true, false, true, false, none⟩

/-- `mp_dice/mp_dice_ds.c`. -/
def mpDice : Program := ⟨.exits, true, true, true, false, false, none⟩

/-- `TCP_state/sv_tcpstate.c`. -/
def tcpState : Program := ⟨.goesOn, false, true, false, true, true, none⟩

/-- `sv_smallcapper.c`; its test of `fork` never fails. -/
def smallCapper : Program := ⟨.exits, false, true, false, true, true, none⟩

/-- `modular/sv_modular.c`. -/
def modular : Program := ⟨.exits, false, true, false, true, true, none⟩

/-- `Client-Server-TCP/server_tcp_simple.c`. -/
def timeCount : Program := ⟨.exits, false, true, false, true, true, none⟩

/-- `multiclient/sv_multi.c`. -/
def multiClient : Program := ⟨.exits, false, false, false, false, true, some 10⟩

/-! ## processes -/

/-- Where a process is: at `accept`, in the handler with the connection it serves, which is
missing if `accept` has failed and the program went on, or at its end. -/
inductive Pc where
  | accepting
  | serving (conn : Option Nat)
  | exited
  deriving DecidableEq, Repr

/-- A process, with the clients it has forked a child for. -/
structure Process where
  pc : Pc
  table : Table
  clients : Nat
  deriving DecidableEq

/-- The processes, the parent first and each child where it has been added. -/
abbrev Sys := List Process

/-- A client that has been accepted: by which process, and with which descriptor. -/
structure Accepted where
  pid : Nat
  fd : Nat
  deriving DecidableEq, Repr

/-- What can happen next: `accept` finds a client for process `pid`, or fails, and `fork`
follows; or the process comes to the end of the handler, and returns from it or is ended
there. -/
inductive Event where
  | accept (pid : Nat) (arrives forkOk : Bool)
  | served (pid : Nat) (returns : Bool)
  deriving DecidableEq, Repr

section

-- the limit of descriptors, and the descriptor of the listening socket
variable (p : Program) (limit listenFd : Nat)

/-- `accept`: it needs the listening socket, a client and a free descriptor. -/
def acceptCall (t : Table) (arrives : Bool) : Option (Nat × Table) :=
  if listenFd ∈ t ∧ arrives then allocate limit t else none

/-- The closings at the end of the body. -/
def closeAll (t : Table) (conn : Option Nat) : Table :=
  let t := if p.closesListen then close t listenFd else t
  match conn with
  | some fd => if p.closesConn then close t fd else t
  | none => t

/-- The parent at the end of the body, with the clients it has forked for. -/
def parentNext (t : Table) (conn : Option Nat) (clients : Nat) : Process :=
  ⟨if p.most = some clients then .exited else .accepting, closeAll p listenFd t conn, clients⟩

/-- A new child. -/
def child (t : Table) (conn : Option Nat) (clients : Nat) : Process :=
  ⟨.serving conn, if p.childCloses then close t listenFd else t, clients⟩

/-- `fork` and what follows, with the table after `accept`: the process and its child, if
there is one. -/
def forkCall (s : Process) (t : Table) (conn : Option Nat) (forkOk : Bool) :
    Process × List Process :=
  if forkOk then (parentNext p listenFd t conn (s.clients + 1), [child p listenFd t conn s.clients])
  else if p.forkExits then (⟨.exited, t, s.clients⟩, [])
  else (parentNext p listenFd t conn (s.clients + 1), [])

/-- A process at `accept`: what becomes of it, and its child. -/
def acceptBody (s : Process) (arrives forkOk : Bool) : Process × List Process :=
  match acceptCall limit listenFd s.table arrives with
  | some (fd, t) => forkCall p listenFd s t (some fd) forkOk
  | none =>
    match p.acceptFails with
    | .exits => (⟨.exited, s.table, s.clients⟩, [])
    | .retries => (s, [])
    | .goesOn => forkCall p listenFd s s.table none forkOk

/-- A child after the handler. -/
def servedBody (s : Process) (conn : Option Nat) (returns : Bool) : Process :=
  if p.childExits ∨ returns = false then ⟨.exited, s.table, s.clients⟩
  else ⟨.accepting, closeAll p listenFd s.table conn, s.clients⟩

/-- One step of one process. -/
def step (s : Sys) : Event → Sys × List Accepted
  | .accept pid arrives forkOk =>
    match s[pid]? with
    | some proc =>
      match proc.pc with
      | .accepting =>
        let (proc', children) := acceptBody p limit listenFd proc arrives forkOk
        let client := acceptCall limit listenFd proc.table arrives
        (s.set pid proc' ++ children, client.toList.map fun c => ⟨pid, c.1⟩)
      | _ => (s, [])
    | none => (s, [])
  | .served pid returns =>
    match s[pid]? with
    | some proc =>
      match proc.pc with
      | .serving conn => (s.set pid (servedBody p listenFd proc conn returns), [])
      | _ => (s, [])
    | none => (s, [])

end

/-- The server is started: one process, at `accept`. -/
def Sys.init (table : Table) : Sys := [⟨.accepting, table, 0⟩]

/-! ## what a step can do -/

section

variable {p : Program} {limit listenFd : Nat}

theorem acceptCall_eq_some {t t' : Table} {arrives : Bool} {fd : Nat}
    (h : acceptCall limit listenFd t arrives = some (fd, t')) :
    listenFd ∈ t ∧ fd = lowest t ∧ fd < limit ∧ fd ∉ t ∧ t' = insert fd t := by
  unfold acceptCall at h
  split at h
  · rename_i hl
    exact ⟨hl.1, allocate_eq_some h⟩
  · cases h

theorem acceptCall_of_closed {t : Table} (h : listenFd ∉ t) (arrives : Bool) :
    acceptCall limit listenFd t arrives = none := if_neg fun hl => h hl.1

/-- What is known of the parent, and of every child. -/
structure Known (P Q : Process → Prop) (s : Sys) : Prop where
  parent : ∃ proc, s.head? = some proc ∧ P proc
  children : ∀ proc ∈ s.tail, Q proc

/-- A process that keeps what is known of it, through either of its steps. -/
structure Keeps (p : Program) (limit listenFd : Nat) (P Q : Process → Prop) : Prop where
  accept : ∀ s arrives forkOk, P s → s.pc = .accepting →
    P (acceptBody p limit listenFd s arrives forkOk).1 ∧
      ∀ c ∈ (acceptBody p limit listenFd s arrives forkOk).2, Q c
  served : ∀ s conn returns, P s → s.pc = .serving conn → P (servedBody p listenFd s conn returns)

/-- A step of a process that is at `accept`. -/
theorem step_accept {s : Sys} {pid : Nat} {proc : Process} (hproc : s[pid]? = some proc)
    (hpc : proc.pc = .accepting) (arrives forkOk : Bool) :
    step p limit listenFd s (.accept pid arrives forkOk) =
      (s.set pid (acceptBody p limit listenFd proc arrives forkOk).1 ++
          (acceptBody p limit listenFd proc arrives forkOk).2,
        (acceptCall limit listenFd proc.table arrives).toList.map fun c => ⟨pid, c.1⟩) := by
  simp only [step, hproc, hpc]

theorem step_served {s : Sys} {pid : Nat} {proc : Process} (hproc : s[pid]? = some proc)
    {conn : Option Nat} (hpc : proc.pc = .serving conn) (returns : Bool) :
    step p limit listenFd s (.served pid returns) =
      (s.set pid (servedBody p listenFd proc conn returns), []) := by
  simp only [step, hproc, hpc]

/-- **Inversion**: a step is one of these two, or none. -/
theorem step_cases (s : Sys) (e : Event) :
    step p limit listenFd s e = (s, []) ∨
      (∃ pid proc arrives forkOk, e = .accept pid arrives forkOk ∧ s[pid]? = some proc ∧
        proc.pc = .accepting) ∨
      ∃ pid proc conn returns, e = .served pid returns ∧ s[pid]? = some proc ∧
        proc.pc = .serving conn := by
  cases e with
  | accept pid arrives forkOk =>
      cases hproc : s[pid]? with
      | none => exact .inl (by simp only [step, hproc])
      | some proc =>
          cases hpc : proc.pc with
          | accepting => exact .inr (.inl ⟨pid, proc, arrives, forkOk, rfl, hproc, hpc⟩)
          | serving conn => exact .inl (by simp only [step, hproc, hpc])
          | exited => exact .inl (by simp only [step, hproc, hpc])
  | served pid returns =>
      cases hproc : s[pid]? with
      | none => exact .inl (by simp only [step, hproc])
      | some proc =>
          cases hpc : proc.pc with
          | accepting => exact .inl (by simp only [step, hproc, hpc])
          | serving conn => exact .inr (.inr ⟨pid, proc, conn, returns, rfl, hproc, hpc⟩)
          | exited => exact .inl (by simp only [step, hproc, hpc])

variable {P Q : Process → Prop}

/-- One process takes a step, and may add others. -/
theorem Known.set {s : Sys} (hs : Known P Q s) {pid : Nat} {proc proc' : Process}
    (hproc : s[pid]? = some proc) {children : List Process}
    (hP : P proc → P proc' ∧ ∀ c ∈ children, Q c) (hQ : Q proc → Q proc' ∧ ∀ c ∈ children, Q c) :
    Known P Q (s.set pid proc' ++ children) := by
  obtain ⟨⟨parent, hhead, hparent⟩, htail⟩ := hs
  obtain ⟨rest, rfl⟩ : ∃ rest, s = parent :: rest := List.head?_eq_some_iff.mp hhead
  cases pid with
  | zero =>
      obtain rfl : parent = proc := by simpa using hproc
      obtain ⟨hproc', hchildren⟩ := hP hparent
      refine ⟨⟨proc', by simp, hproc'⟩, fun c hc => ?_⟩
      cases List.mem_append.mp hc with
      | inl hold => exact htail c hold
      | inr hnew => exact hchildren c hnew
  | succ k =>
      have hmem : proc ∈ rest := List.mem_of_getElem? (by simpa using hproc)
      obtain ⟨hproc', hchildren⟩ := hQ (htail proc hmem)
      refine ⟨⟨parent, by simp, hparent⟩, fun c hc => ?_⟩
      cases List.mem_append.mp hc with
      | inl hold =>
          cases List.mem_or_eq_of_mem_set hold with
          | inl h => exact htail c h
          | inr h => exact h ▸ hproc'
      | inr hnew => exact hchildren c hnew

/-- **Step lemma**: what is known of the parent and of the children, each step keeps. -/
theorem known_step (hP : Keeps p limit listenFd P Q) (hQ : Keeps p limit listenFd Q Q) {s : Sys}
    (hs : Known P Q s) (e : Event) : Known P Q (step p limit listenFd s e).1 := by
  obtain h | ⟨pid, proc, arrives, forkOk, rfl, hproc, hpc⟩ |
    ⟨pid, proc, conn, returns, rfl, hproc, hpc⟩ := step_cases s e
  · rwa [h]
  · rw [step_accept hproc hpc]
    exact hs.set hproc (fun h => hP.accept proc arrives forkOk h hpc)
      fun h => hQ.accept proc arrives forkOk h hpc
  · rw [step_served hproc hpc, ← List.append_nil (s.set _ _)]
    exact hs.set hproc (fun h => ⟨hP.served proc conn returns h hpc, by simp⟩)
      fun h => ⟨hQ.served proc conn returns h hpc, by simp⟩

end

end Reti.ForkServer
