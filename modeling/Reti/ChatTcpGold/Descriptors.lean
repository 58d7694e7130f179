import Reti.ChatTcpGold.Invariant
import Reti.ForkServer.Tables

/-!
# Reti.ChatTcpGold.Descriptors

What the TCP chat relies on when it names its clients by their descriptors: `accept` never
returns the same one twice, nor 0.  That is so because no process of this server ever closes
a connection while the parent could still accept.
-/

namespace Reti.ChatTcpGold

open Transducer

/-- The descriptors that `accept` returns in some events. -/
def acceptedIn (es : List Event) : List Nat :=
  es.filterMap fun
    | .accept fd _ _ => some fd
    | _ => none

/-- `accept` returns a descriptor. -/
def Event.Accepts : Event → Prop
  | .accept _ _ _ => True
  | _ => False

instance : (e : Event) → Decidable e.Accepts
  | .accept _ _ _ => inferInstanceAs (Decidable True)
  | .acceptFailed => inferInstanceAs (Decidable False)
  | .recv _ _ _ => inferInstanceAs (Decidable False)
  | .hangup _ => inferInstanceAs (Decidable False)
  | .eof _ => inferInstanceAs (Decidable False)

theorem accepted_step_eq (s : State) (e : Event) :
    (step s e).1.accepted = s.accepted ++ acceptedIn [e] := by
  cases e with
  | accept fd forkOk stack => rfl
  | acceptFailed => exact (List.append_nil _).symm
  | hangup c => exact (List.append_nil _).symm
  | recv c chunk broken =>
      rw [step]
      split <;> exact (List.append_nil _).symm
  | eof c =>
      rw [step]
      split <;> exact (List.append_nil _).symm

/-- Descriptors that are all different are possible ones. -/
theorem along_of_nodup {s : State} {es : List Event}
    (hn : (s.accepted ++ acceptedIn es).Nodup) (h0 : 0 ∉ acceptedIn es)
    (hes : Along step (fun s e => e.Accepts ∨ e.Possible s) s es) :
    Along step (fun s e => e.Possible s) s es := by
  induction es generalizing s with
  | nil => trivial
  | cons e es ih =>
      obtain ⟨he, hrest⟩ := hes
      have hsplit : acceptedIn (e :: es) = acceptedIn [e] ++ acceptedIn es :=
        List.filterMap_append (l := [e])
      rw [hsplit] at hn h0
      refine ⟨?_, ih ?_ (fun h => h0 (List.mem_append_right _ h)) hrest⟩
      · obtain haccepts | hpossible := he
        · cases e with
          | accept fd forkOk stack =>
              rw [← List.append_assoc] at hn
              have hnew := (List.nodup_append.mp (List.nodup_append.mp hn).1).2.2
              refine ⟨fun hfd => h0 ?_, fun hmem => ?_⟩
              · rw [hfd]
                exact List.mem_append_left _ List.mem_cons_self
              · exact hnew fd hmem fd List.mem_cons_self rfl
          | acceptFailed => cases haccepts
          | recv c chunk broken => cases haccepts
          | hangup c => cases haccepts
          | eof c => cases haccepts
        · exact hpossible
      · rwa [accepted_step_eq, List.append_assoc]

/-- **The descriptors**: take any interleaving of the processes of the server, started with
0 open.  Events of the chat with the descriptors that `accept` returns there are a run as
soon as everything else in them is possible. -/
theorem run_of_forked (limit listenFd : Nat) {table : Descriptors.Table} (h0 : 0 ∈ table)
    (fs : List ForkServer.Event) {es : List Event}
    (hfds : acceptedIn es =
      (run (ForkServer.step ForkServer.chatTcpGold limit listenFd) (.init table) fs).2.map
        ForkServer.Accepted.fd)
    (hes : Along step (fun s e => e.Accepts ∨ e.Possible s) State.init es) : Run es := by
  obtain ⟨_, -, hnodup, hfresh⟩ :=
    ForkServer.grown_run (p := ForkServer.chatTcpGold) (by decide) limit listenFd table fs
  refine along_of_nodup (hfds ▸ hnodup) (fun hmem => ?_) hes
  rw [hfds] at hmem
  obtain ⟨a, ha, hzero⟩ := List.mem_map.mp hmem
  exact (hfresh a ha).1 (hzero ▸ h0)

/-- Two clients, of which the first leaves before the second comes. -/
theorem run_of_forked_two :
    Run [.accept 4 true blank, .eof 4, .accept 5 true blank] := by
  have h0 : 0 ∈ ({0, 1, 2, 3} : Descriptors.Table) := by decide
  refine run_of_forked 1024 3 h0 [.accept 0 true true, .served 1 true, .accept 0 true true] ?_ ?_
  · decide +kernel
  · decide +kernel

end Reti.ChatTcpGold
