import Reti.Net
import Reti.Lib.LinkedNodes
import Reti.Lib.Transducer

/-!
# Reti.Modular.ClientList

The parent of the modular TCP server (`sv_modular.c`): it puts every client in front of its
list, prints the list and how many clients there are, forks and closes the connection.  The
count is declared inside the loop.
-/

namespace Reti.Modular

open LinkedNodes Transducer

/-- What the program keeps of a client. -/
structure Client where
  address : SockaddrIn
  socket : Nat
  deriving DecidableEq, Repr

/-- A line that the parent prints: an address, or the number of clients. -/
inductive Line where
  | host (addr : UInt32)
  | connected (clients : Nat)
  deriving DecidableEq, Repr

/-- The parent, which `die` ends. -/
structure Parent where
  heap : Heap Client
  head : Option Nat
  running : Bool
  deriving DecidableEq, Repr

def Parent.init : Parent := ⟨[], none, true⟩

/-- The line for one node. -/
def hostLine (client : Client) : Line := .host client.address.sinAddr

/-- The loop over the list, and the line after it. -/
def listing (heap : Heap Client) (head : Option Nat) : List Line :=
  (values heap head).map hostLine ++ [.connected (0 + 1)]

/-- One turn of the loop, with what `accept` has returned.  What `fork` returns makes no
difference to the parent. -/
def turn (s : Parent) (client : Option Client) : Parent × List Line :=
  if s.running then
    match client with
    | some client =>
      let (heap, head) := push s.heap s.head client
      (⟨heap, head, true⟩, listing heap head)
    | none => ({ s with running := false }, [])
  else (s, [])

/-! ## the list -/

/-- The clients of a run: those before `accept` fails. -/
def accepted : List (Option Client) → List Client
  | some client :: rets => client :: accepted rets
  | _ => []

/-- What is printed for clients that come after others, in front of which they are put. -/
def listings (before : List Client) : List Client → List Line
  | [] => []
  | client :: clients =>
    (client :: before).map hostLine ++ .connected 1 :: listings (client :: before) clients

/-- The list of the parent holds these clients, and there are no other nodes. -/
def Holds (s : Parent) (clients : List Client) : Prop :=
  Linked s.heap s.head clients ∧ clients.length = s.heap.length

theorem turn_some {s : Parent} {clients : List Client} (hs : Holds s clients)
    (hrunning : s.running = true) (client : Client) :
    (turn s (some client)).1.running = true ∧ Holds (turn s (some client)).1 (client :: clients) ∧
      (turn s (some client)).2 = (client :: clients).map hostLine ++ [.connected 1] := by
  have hlinked := hs.1.push client
  have hlen : (client :: clients).length = (push s.heap s.head client).1.length := by
    simp [push, hs.2]
  rw [turn, if_pos hrunning]
  refine ⟨rfl, ⟨hlinked, hlen⟩, ?_⟩
  simp only [listing, values, hlinked.walk_eq (Nat.le_of_eq hlen)]

/-- **Run lemma**: the clients that come are listed behind one another. -/
theorem turns_run {s : Parent} {clients : List Client} (hs : Holds s clients)
    (hrunning : s.running = true) (rets : List (Option Client)) :
    Holds (run turn s rets).1 ((accepted rets).reverse ++ clients) ∧
      (run turn s rets).2 = listings clients (accepted rets) := by
  induction rets generalizing s clients with
  | nil => exact ⟨hs, rfl⟩
  | cons ret rets ih =>
      cases ret with
      | none =>
          have hdead : turn s none = ({ s with running := false }, []) := if_pos hrunning
          have hrest : run turn { s with running := false } rets =
              ({ s with running := false }, []) := run_stuck (fun _ => rfl) rets
          rw [run_cons_fst, run_cons_snd, hdead, hrest]
          exact ⟨hs, rfl⟩
      | some client =>
          obtain ⟨hrunning', hs', hout⟩ := turn_some hs hrunning client
          obtain ⟨hlast, hrest⟩ := ih hs' hrunning'
          rw [run_cons_fst, run_cons_snd, hout, hrest]
          refine ⟨?_, by simp [accepted, listings]⟩
          rwa [accepted, List.reverse_cons, List.append_assoc, List.singleton_append]

/-- Whatever `accept` returns, after every client the parent prints the addresses of all
clients so far, the last one first, and always the same count; `getNode` finds the clients
in this order, null behind the last, and must not be asked for more. -/
theorem listings_run (rets : List (Option Client)) :
    (run turn .init rets).2 = listings [] (accepted rets) ∧
      (∀ index ≤ (accepted rets).length, ∃ p,
        getNode (run turn .init rets).1.heap index (run turn .init rets).1.head = some p ∧
          deref (run turn .init rets).1.heap p = (accepted rets).reverse[index]? ∧
            (p = none ↔ index = (accepted rets).length)) ∧
      ∀ index > (accepted rets).length,
        getNode (run turn .init rets).1.heap index (run turn .init rets).1.head = none := by
  have hinit : Holds .init [] := ⟨.null, rfl⟩
  obtain ⟨⟨hlinked, -⟩, hout⟩ := turns_run hinit rfl rets
  rw [List.append_nil] at hlinked
  refine ⟨hout, fun index hindex => ?_, fun index hindex => ?_⟩
  · simpa only [List.length_reverse] using hlinked.getNode_eq (by rwa [List.length_reverse])
  · exact hlinked.getNode_eq_none (by rwa [List.length_reverse])

end Reti.Modular
