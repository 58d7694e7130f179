import Reti.ChatTcpGold.Server
import Reti.Lib.SlotArray

/-!
# Reti.ChatTcpGold.Invariant

What the arrays of the processes hold in every reachable state: the parent's
array the clients accepted so far, as far as there are slots, and a child's
array those accepted up to its own client.  Nothing that happens later in one
process reaches the array of another.
-/

namespace Reti.ChatTcpGold

open CStr SlotArray

/-- The invariant of the server's processes. -/
structure Inv (s : State) : Prop where
  accepted_nodup : s.accepted.Nodup
  accepted_ne_zero : 0 ∉ s.accepted
  parent : s.clients.fds = slots maxClients 0 s.accepted
  disconnected_accepted : ∀ c ∈ s.disconnected, c ∈ s.accepted
  /-- The copy of a running child stops at its own client. -/
  copy : ∀ c child, s.children c = some child → child.running →
    ∃ p, p ++ [c] <+: s.accepted ∧ child.clients.fds = slots maxClients 0 (p ++ [c])
  running : ∀ c, s.Serves c → c ∉ s.disconnected

theorem inv_init : Inv State.init where
  accepted_nodup := List.nodup_nil
  accepted_ne_zero := List.not_mem_nil
  parent := rfl
  disconnected_accepted := by
    intro c hc
    cases hc
  copy := by
    intro c child hc
    cases hc
  running := by
    rintro c ⟨child, hc, -⟩
    cases hc

/-! ## one step -/

/-- A descriptor with a running child belongs to an accepted client. -/
theorem Inv.accepted_of_serves {s : State} (hs : Inv s) {c : Nat} (hc : s.Serves c) :
    c ∈ s.accepted := by
  obtain ⟨child, hchild, hrun⟩ := hc
  obtain ⟨p, hp, -⟩ := hs.copy c child hchild hrun
  exact hp.subset (by simp)

theorem fds_take {s : State} (hs : Inv s) (fd : Nat) :
    (s.clients.take fd).fds = slots maxClients 0 (s.accepted ++ [fd]) := by
  show s.clients.fds.replace 0 fd = _
  rw [hs.parent, replace_slots hs.accepted_ne_zero]

/-- A child takes the place of the one of `c`, the other processes stay as they are. -/
theorem Inv.update_child {s : State} (hs : Inv s) {c : Nat} {d : Child}
    (hcopy : d.running →
      ∃ p, p ++ [c] <+: s.accepted ∧ d.clients.fds = slots maxClients 0 (p ++ [c]))
    (hdis : d.running → c ∉ s.disconnected) :
    Inv { s with children := Function.update s.children c (some d) } where
  accepted_nodup := hs.accepted_nodup
  accepted_ne_zero := hs.accepted_ne_zero
  parent := hs.parent
  disconnected_accepted := hs.disconnected_accepted
  copy := by
    intro c' child' hchild' hrun'
    by_cases hc : c' = c
    · subst hc
      have heq : d = child' := by simpa using hchild'
      subst heq
      exact hcopy hrun'
    · exact hs.copy c' child' (by simpa [Function.update_of_ne hc] using hchild') hrun'
  running := by
    rintro c' ⟨child', hchild', hrun'⟩
    by_cases hc : c' = c
    · subst hc
      have heq : d = child' := by simpa using hchild'
      subst heq
      exact hdis hrun'
    · exact hs.running c' ⟨child', by simpa [Function.update_of_ne hc] using hchild', hrun'⟩

/-- The parent's part of `accept`: the new client is at the end of its array. -/
theorem Inv.take_slot {s : State} (hs : Inv s) {fd : Nat} (h0 : fd ≠ 0) (hnew : fd ∉ s.accepted) :
    Inv { s with clients := s.clients.take fd, accepted := s.accepted ++ [fd] } where
  accepted_nodup := by
    show (s.accepted ++ [fd]).Nodup
    rw [List.nodup_append]
    refine ⟨hs.accepted_nodup, List.nodup_singleton fd, ?_⟩
    intro a ha b hb hab
    exact hnew (List.mem_singleton.mp hb ▸ hab ▸ ha)
  accepted_ne_zero := by
    show 0 ∉ s.accepted ++ [fd]
    simpa [hs.accepted_ne_zero] using Ne.symm h0
  parent := fds_take hs fd
  disconnected_accepted := fun c hc => List.mem_append_left _ (hs.disconnected_accepted c hc)
  copy := by
    intro c child hchild hrun
    obtain ⟨p, hp, hcopy⟩ := hs.copy c child hchild hrun
    exact ⟨p, hp.trans (List.prefix_append _ _), hcopy⟩
  running := hs.running

/-- After `accept` the parent's array has the new client at its end, and so has
the copy the new child starts with. -/
theorem inv_accept {s : State} (hs : Inv s) {fd : Nat} (h0 : fd ≠ 0) (hnew : fd ∉ s.accepted)
    (forkOk : Bool) (stack : Message) : Inv (acceptClient s fd forkOk stack) := by
  have hparent := hs.take_slot h0 hnew
  cases forkOk with
  | false => exact hparent
  | true =>
      exact hparent.update_child (fun _ => ⟨s.accepted, List.prefix_refl _, fds_take hs fd⟩)
        fun _ hdis => hnew (hs.disconnected_accepted fd hdis)

/-- A child that has changed nothing but its struct, or has been killed, keeps
the invariant. -/
theorem inv_handleChunk {s : State} (hs : Inv s) {c : Nat} {child : Child}
    (hchild : s.children c = some child) (hrun : child.running) (chunk : List UInt8)
    (broken : List Nat) : Inv (handleChunk s c child chunk broken).1 :=
  hs.update_child (fun _ => hs.copy c child hchild hrun)
    fun _ => hs.running c ⟨child, hchild, hrun⟩

/-- A client without a running child can be counted as disconnected. -/
theorem Inv.disconnect {s : State} (hs : Inv s) {c : Nat} (hc : c ∈ s.accepted)
    (hexit : ¬s.Serves c) :
    Inv { s with gone := c :: s.gone, disconnected := c :: s.disconnected } where
  accepted_nodup := hs.accepted_nodup
  accepted_ne_zero := hs.accepted_ne_zero
  parent := hs.parent
  disconnected_accepted := by
    intro c' hc'
    cases List.mem_cons.mp hc' with
    | inl h => exact h ▸ hc
    | inr h => exact hs.disconnected_accepted c' h
  copy := hs.copy
  running := by
    intro c' hserves hdis
    cases List.mem_cons.mp hdis with
    | inl h => exact hexit (h ▸ hserves)
    | inr h => exact hs.running c' hserves h

/-- A child that has exited no longer counts; the parent's array has not
changed. -/
theorem inv_handleEof {s : State} (hs : Inv s) {c : Nat} (hc : c ∈ s.accepted) (child : Child) :
    Inv (handleEof s c child) := by
  have hexit := hs.update_child (c := c) (d := ⟨child.clients.clear c, child.msg, false⟩)
    (fun h => by cases h) (fun h => by cases h)
  refine hexit.disconnect hc ?_
  rintro ⟨child', hchild', hrun'⟩
  have heq : Child.mk (child.clients.clear c) child.msg false = child' := by
    simpa using hchild'
  rw [← heq] at hrun'
  cases hrun'

/-- **Step lemma**: every possible event keeps the invariant. -/
theorem inv_step {s : State} (hs : Inv s) {e : Event} (he : e.Possible s) : Inv (step s e).1 := by
  cases e with
  | accept fd forkOk stack => exact inv_accept hs he.1 he.2 forkOk stack
  | acceptFailed => exact hs
  | recv c chunk broken =>
      obtain ⟨⟨child, hchild, hrun⟩, -⟩ := he
      simp only [step, hchild]
      exact inv_handleChunk hs hchild hrun chunk broken
  | hangup c =>
      exact ⟨hs.accepted_nodup, hs.accepted_ne_zero, hs.parent, hs.disconnected_accepted, hs.copy,
        hs.running⟩
  | eof c =>
      have hc := hs.accepted_of_serves he
      obtain ⟨child, hchild, -⟩ := he
      simp only [step, hchild]
      exact inv_handleEof hs hc child

/-! ## runs -/

/-- A run of possible events from the start of the server. -/
def Run (es : List Event) : Prop :=
  Transducer.Along step (fun s e => e.Possible s) State.init es

instance (es : List Event) : Decidable (Run es) :=
  inferInstanceAs (Decidable (Transducer.Along _ _ _ _))

/-- The state after a run. -/
def after (es : List Event) : State := (Transducer.run step State.init es).1

/-- **Run lemma**: the invariant holds after every run. -/
theorem inv_after {es : List Event} (h : Run es) : Inv (after es) := by
  have hstep : ∀ s e, Inv s → Event.Possible s e → Inv (step s e).1 :=
    fun _ _ hs he => inv_step hs he
  exact Transducer.run_inv hstep inv_init h

theorem run_append_singleton {es : List Event} {e : Event} :
    Run (es ++ [e]) ↔ Run es ∧ e.Possible (after es) := by
  unfold Run
  rw [Transducer.along_append]
  simp [Transducer.Along, after]

theorem after_append_singleton (es : List Event) (e : Event) :
    after (es ++ [e]) = (step (after es) e).1 := by
  unfold after
  rw [Transducer.run_append_fst]
  rfl

end Reti.ChatTcpGold
