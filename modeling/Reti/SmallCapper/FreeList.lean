import Reti.SmallCapper.ClientList

/-!
# Reti.SmallCapper.FreeList

What a child of the capitalising server does with the list it has inherited: it frees it
node by node.  The list a child gets is the parent's at `fork`, with all the clients that
came before.
-/

namespace Reti.SmallCapper

open LinkedNodes Transducer

/-- `freeList(head)` in a child of the parent: the memory afterwards, if no node is read or
freed that is gone. -/
def freeHosts (s : Server) : Option (Mem SockaddrIn) :=
  freeList (s.heap.map some) s.heap.length s.head

/-- The nodes of the parent are its list, which holds the accepted clients. -/
def AllListed (s : Server) : Prop := Full s.heap s.head s.accepted

theorem allListed_assertf {s next : Server} (hs : AllListed s) (hnext : AllListed next)
    {condition : Int} {message : List UInt8} : AllListed (assertf s condition message next).1 := by
  unfold assertf
  split
  · exact hs
  · exact hnext

/-- **Step lemma**: only `accept` adds a node, and it adds it to the list. -/
theorem allListed_step {s : Server} (hs : AllListed s) (o : Outcome) : AllListed (step s o).1 := by
  have hbind : AllListed { s with pc := .bind } := hs
  have haccept : AllListed { s with pc := .accept } := hs
  have hafter : AllListed (afterFork s (s.pc.ret o)) := hs
  unfold step
  cases hpc : s.pc with
  | socket => exact allListed_assertf hs hbind
  | bind => exact allListed_assertf hs haccept
  | accept =>
      cases o with
      | fails => exact allListed_assertf hs hs
      | returns connfd client =>
          have hnext : AllListed (addNode s client) := hs.append client
          exact allListed_assertf hs hnext
  | fork => exact allListed_assertf hs (hpc ▸ hafter)
  | exited => exact hs

/-- Whatever calls of the parent have failed, the list holds all accepted clients in their
order, and a child frees each node of it once, reads none that it has freed, and leaves
none. -/
theorem freeHosts_run (os : List Outcome) :
    (run step Server.init os).1.hosts = (run step Server.init os).1.accepted ∧
      freeHosts (run step Server.init os).1 =
        some (List.replicate (run step Server.init os).1.accepted.length none) := by
  have hstep (s : Server) (o : Outcome) (hs : AllListed s) : AllListed (step s o).1 :=
    allListed_step hs o
  have hinit : AllListed Server.init := Full.nil
  have hfull : AllListed (run step Server.init os).1 := run_inv_of_step hstep hinit os
  refine ⟨hfull.1.values_eq, ?_⟩
  rw [freeHosts, hfull.freeList_eq, hfull.2]

end Reti.SmallCapper
