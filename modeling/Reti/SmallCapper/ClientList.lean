import Reti.Net
import Reti.Lib.CString
import Reti.Lib.LinkedNodes
import Reti.Lib.Transducer

/-!
# Reti.SmallCapper.ClientList

The parent of the capitalising server (`sv_smallcapper.c`): its system calls, the test
after each of them, and the list of clients it builds.

`assertf` exits if its argument is negative.  It is handed what `bind` and `accept` return,
but for `socket` and `fork` the value of a comparison, which is never negative.
-/

namespace Reti.SmallCapper

open CStr LinkedNodes Transducer

/-! ## the parent -/

/-- The system call the parent is about to make; `listen` and `close` are not tested. -/
inductive Pc where
  | socket
  | bind
  | accept
  | fork
  | exited
  deriving DecidableEq, Repr

/-- How a system call comes out: it fails, or it returns a number that is not negative and,
if it is `accept`, an address. -/
inductive Outcome where
  | fails
  | returns (n : Nat) (client : SockaddrIn)
  deriving DecidableEq, Repr

/-- What the call returns to the parent.  A child has a positive `pid`. -/
def Pc.ret : Pc → Outcome → Int
  | _, .fails => -1
  | .fork, .returns n _ => n + 1
  | .bind, .returns _ _ => 0
  | _, .returns n _ => n

/-- A child process, and the client whose connection it serves. -/
structure Child where
  pid : Int
  client : SockaddrIn
  deriving DecidableEq, Repr

/-- The parent before a system call, with the nodes of its list.  The program does not store
`accepted`, the addresses that `accept` has returned, in order. -/
structure Server where
  pc : Pc
  heap : Heap SockaddrIn
  head : Option Nat
  client : SockaddrIn
  children : List Child
  accepted : List SockaddrIn
  deriving DecidableEq, Repr

def Server.init : Server := ⟨.socket, [], none, default, [], []⟩

/-- What `assertf` prints before it exits. -/
structure Failure where
  message : List UInt8
  condition : Int
  deriving DecidableEq, Repr

/-- The value of a comparison. -/
def comparison (b : Bool) : Int := if b then 1 else 0

/-- `assertf(condition, message)`, and what the parent is if it goes on. -/
def assertf (s : Server) (condition : Int) (message : List UInt8) (next : Server) :
    Server × List Failure :=
  if condition < 0 then ({ s with pc := .exited }, [⟨message, condition⟩]) else (next, [])

/-- The client `accept` has returned, at the end of the list. -/
def addNode (s : Server) (client : SockaddrIn) : Server :=
  { s with
    pc := .fork
    client := client
    heap := (append s.heap s.head client).1
    head := (append s.heap s.head client).2
    accepted := s.accepted ++ [client] }

/-- The parent after `fork`: it closes `connfd` and goes back to `accept`. -/
def afterFork (s : Server) (pid : Int) : Server :=
  { s with
    pc := .accept
    children := if 0 < pid then s.children ++ [⟨pid, s.client⟩] else s.children }

def step (s : Server) (o : Outcome) : Server × List Failure :=
  match s.pc with
  | .socket =>
    assertf s (comparison (0 ≤ s.pc.ret o)) (ascii "socket() failed") { s with pc := .bind }
  | .bind => assertf s (s.pc.ret o) (ascii "Error on binding.") { s with pc := .accept }
  | .accept =>
    match o with
    | .fails => assertf s (-1) (ascii "accept() failed") s
    | .returns connfd client => assertf s connfd (ascii "accept() failed") (addNode s client)
  | .fork =>
    assertf s (comparison (0 ≤ s.pc.ret o)) (ascii "fork() failed") (afterFork s (s.pc.ret o))
  | .exited => (s, [])

/-- The addresses in the list, from its head on. -/
def Server.hosts (s : Server) : List SockaddrIn := values s.heap s.head

/-! ## what is expected of a step -/

/-- A failed call ends the parent; and if it is back at `accept`, its list holds the clients
accepted so far, and each of them has been handed to one child. -/
structure Right (s : Server) (o : Outcome) : Prop where
  stops : s.pc ≠ .exited → o = .fails → (step s o).1.pc = .exited
  hosts : (step s o).1.pc = .accept → (step s o).1.hosts = (step s o).1.accepted
  served : (step s o).1.pc = .accept →
    (step s o).1.children.map Child.client = (step s o).1.accepted

/-- The call is one whose failure `assertf` is told of, or it does not fail. -/
def Told (s : Server) (o : Outcome) : Prop := o = .fails → s.pc ≠ .socket ∧ s.pc ≠ .fork

/-! ## the tests -/

theorem assertf_of_nonneg {condition : Int} (h : 0 ≤ condition) (s next : Server)
    (message : List UInt8) : assertf s condition message next = (next, []) :=
  if_neg (Int.not_lt.mpr h)

theorem assertf_of_neg {condition : Int} (h : condition < 0) (s next : Server)
    (message : List UInt8) :
    assertf s condition message next = ({ s with pc := .exited }, [⟨message, condition⟩]) :=
  if_pos h

/-- Handed a comparison, `assertf` goes on whatever it comes out as. -/
theorem assertf_comparison (s next : Server) (b : Bool) (message : List UInt8) :
    assertf s (comparison b) message next = (next, []) := by
  refine assertf_of_nonneg ?_ s next message
  cases b <;> decide

/-! ## the list -/

/-- The client that is accepted and not yet handed to a child. -/
def Server.pending (s : Server) : List SockaddrIn := if s.pc = .fork then [s.client] else []

/-- The list holds the accepted clients, and all but the pending one have a child. -/
structure ListInv (s : Server) : Prop where
  chain : Chain s.heap s.head s.accepted
  served : s.children.map Child.client ++ s.pending = s.accepted

theorem listInv_init : ListInv Server.init := ⟨.null, rfl⟩

theorem ListInv.served_of_ne_fork {s : Server} (hs : ListInv s) (hpc : s.pc ≠ .fork) :
    s.children.map Child.client = s.accepted := by
  have hserved := hs.served
  rwa [Server.pending, if_neg hpc, List.append_nil] at hserved

theorem ListInv.served_of_fork {s : Server} (hs : ListInv s) (hpc : s.pc = .fork) :
    s.children.map Child.client ++ [s.client] = s.accepted := by
  have hserved := hs.served
  rwa [Server.pending, if_pos hpc] at hserved

theorem listInv_addNode {s : Server} (hs : ListInv s) (hpc : s.pc = .accept)
    (client : SockaddrIn) : ListInv (addNode s client) where
  chain := hs.chain.append client
  served := by simp [addNode, Server.pending, hs.served_of_ne_fork (by simp [hpc])]

theorem listInv_afterFork {s : Server} (hs : ListInv s) (hpc : s.pc = .fork) {pid : Int}
    (hpid : 0 < pid) : ListInv (afterFork s pid) where
  chain := hs.chain
  served := by simpa [afterFork, Server.pending, hpid] using hs.served_of_fork hpc

/-- A call that adds nothing and hands over nothing. -/
theorem listInv_pc {s : Server} (hs : ListInv s) (hpc : s.pc ≠ .fork) {pc : Pc}
    (hpc' : pc ≠ .fork) : ListInv { s with pc := pc } where
  chain := hs.chain
  served := by simp [Server.pending, hpc', hs.served_of_ne_fork hpc]

/-- **Step lemma**: a call whose failure is noticed keeps the list. -/
theorem listInv_step {s : Server} (hs : ListInv s) {o : Outcome} (ho : Told s o) :
    ListInv (step s o).1 := by
  cases hpc : s.pc with
  | socket =>
      simp only [step, hpc, assertf_comparison]
      exact listInv_pc hs (by simp [hpc]) (by simp)
  | bind =>
      simp only [step, hpc, assertf]
      split <;> exact listInv_pc hs (by simp [hpc]) (by simp)
  | accept =>
      cases o with
      | fails =>
          simp only [step, hpc, assertf_of_neg (by decide : (-1 : Int) < 0)]
          exact listInv_pc hs (by simp [hpc]) (by simp)
      | returns connfd client =>
          simp only [step, hpc, assertf_of_nonneg (Int.natCast_nonneg connfd)]
          exact listInv_addNode hs hpc client
  | fork =>
      cases o with
      | fails => exact absurd hpc (ho rfl).2
      | returns n client =>
          have hpid : 0 < Pc.fork.ret (.returns n client) := by
            simp only [Pc.ret]
            omega
          simp only [step, hpc, assertf_comparison]
          exact listInv_afterFork hs hpc hpid
  | exited =>
      simp only [step, hpc]
      exact hs

/-- **Step lemma**: a step is as expected exactly if `assertf` is told of a failure. -/
theorem right_iff_told {s : Server} (hs : ListInv s) (o : Outcome) : Right s o ↔ Told s o := by
  constructor
  · intro h hfails
    subst hfails
    constructor
    · intro hpc
      have hstop := h.stops (by simp [hpc]) rfl
      simp [step, hpc, assertf_comparison] at hstop
    · intro hpc
      have hstop := h.stops (by simp [hpc]) rfl
      simp [step, hpc, assertf_comparison, afterFork] at hstop
  · intro h
    have hinv := listInv_step hs h
    refine ⟨fun hrun hfails => ?_, fun _ => hinv.chain.values_eq,
      fun hpc => hinv.served_of_ne_fork (by simp [hpc])⟩
    subst hfails
    obtain ⟨hsocket, hfork⟩ := h rfl
    cases hpc : s.pc with
    | socket => exact absurd hpc hsocket
    | fork => exact absurd hpc hfork
    | bind => simp [step, hpc, Pc.ret, assertf]
    | accept => simp [step, hpc, assertf]
    | exited => exact absurd hpc hrun

/-! ## any sequence of outcomes -/

/-- **Client list**: in every run each failed call ends the parent, and at each return to
`accept` the list holds the clients accepted so far, each with one child, exactly if no
`socket` and no `fork` of the run fails. -/
theorem along_right_iff (os : List Outcome) :
    Along step Right Server.init os ↔ Along step Told Server.init os := by
  have hstep : ∀ s o, ListInv s → Told s o → ListInv (step s o).1 :=
    fun _ _ hs ho => listInv_step hs ho
  exact along_iff_along hstep (fun s o hs => right_iff_told hs o) listInv_init os

/-- A client is accepted, `fork` fails, and the parent is back at `accept` with a client in
its list that no child serves. -/
theorem fork_failure_unnoticed :
    let os := [.returns 3 default, .returns 0 default, .returns 4 ⟨2, 1, 1, 0⟩, .fails]
    let s := (run step Server.init os).1
    s.pc = .accept ∧ s.hosts = [⟨2, 1, 1, 0⟩] ∧ s.children = [] ∧
      ¬Along step Right Server.init os := by
  refine ⟨by decide, by decide, by decide, ?_⟩
  intro h
  have hlast := h.2.2.2.1.stops (by decide) rfl
  exact absurd hlast (by decide)

end Reti.SmallCapper
