import Reti.ChatTcpGold.Broadcast

/-!
# Reti.ChatTcpGold.Release

Slots are never given back.  The loop of `handle_client` that zeroes a client's
slot runs in the child and zeroes the child's copy, just before the child exits;
the parent, which looks for a free slot when it accepts, is not told.

It makes no difference when a client is taken to have left: when its child has
seen it, or when the client has closed its end of the connection.
-/

namespace Reti.ChatTcpGold

open CStr SlotArray

/-- The descriptors in the parent's array. -/
def State.occupied (s : State) : List Nat := s.clients.fds.filter (· ≠ 0)

/-- The accepted clients that have not disconnected. -/
def State.remaining (s : State) : List Nat := s.accepted.filter (· ∉ s.disconnected)

/-- The occupied slots are the accepted clients that have not disconnected, each
in one slot. -/
def SlotsExact (s : State) : Prop := s.occupied.Perm s.remaining

instance (s : State) : Decidable (SlotsExact s) := inferInstanceAs (Decidable (List.Perm _ _))

/-- A client's child sees that the client has disconnected. -/
def Event.Disconnects : Event → Prop
  | eof _ => True
  | _ => False

instance : (e : Event) → Decidable e.Disconnects
  | .accept .. => inferInstanceAs (Decidable False)
  | .acceptFailed => inferInstanceAs (Decidable False)
  | .recv .. => inferInstanceAs (Decidable False)
  | .hangup _ => inferInstanceAs (Decidable False)
  | .eof _ => inferInstanceAs (Decidable True)

/-- A client closes its connection, or its child sees that it has. -/
def Event.Leaves : Event → Prop
  | hangup _ => True
  | eof _ => True
  | _ => False

instance : (e : Event) → Decidable e.Leaves
  | .accept .. => inferInstanceAs (Decidable False)
  | .acceptFailed => inferInstanceAs (Decidable False)
  | .recv .. => inferInstanceAs (Decidable False)
  | .hangup _ => inferInstanceAs (Decidable True)
  | .eof _ => inferInstanceAs (Decidable True)

/-! ## one step -/

/-- A list of the clients that have left, and the events that add to it. -/
structure Counting (left : State → List Nat) (Leaves : Event → Prop) : Prop where
  init : left State.init = []
  stays : ∀ s e, ¬Leaves e → left (step s e).1 = left s
  leaves : ∀ s e, Inv s → e.Possible s → Leaves e →
    (step s e).1.clients = s.clients ∧ ∃ c ∈ s.accepted, c ∈ left (step s e).1

theorem counting_disconnected : Counting State.disconnected Event.Disconnects where
  init := rfl
  stays s e he := by
    cases e with
    | recv c chunk broken =>
        simp only [step]
        split <;> rfl
    | eof c => exact absurd trivial he
    | _ => rfl
  leaves s e hs hpos he := by
    cases e with
    | eof c =>
        have hc := hs.accepted_of_serves hpos
        obtain ⟨child, hchild, -⟩ := hpos
        simp only [step, hchild]
        exact ⟨rfl, c, hc, List.mem_cons_self⟩
    | _ => cases he

theorem counting_gone : Counting State.gone Event.Leaves where
  init := rfl
  stays s e he := by
    cases e with
    | recv c chunk broken =>
        simp only [step]
        split <;> rfl
    | hangup c => exact absurd trivial he
    | eof c => exact absurd trivial he
    | _ => rfl
  leaves s e hs hpos he := by
    cases e with
    | hangup c => exact ⟨rfl, c, hpos, List.mem_cons_self⟩
    | eof c =>
        have hc := hs.accepted_of_serves hpos
        obtain ⟨child, hchild, -⟩ := hpos
        simp only [step, hchild]
        exact ⟨rfl, c, hc, List.mem_cons_self⟩
    | _ => cases he

/-- A client that is accepted gets a slot if and only if fewer than `MAX_CLIENTS`
were ever accepted before it, connected or not. -/
theorem mem_occupied_accept_iff {s : State} (hs : Inv s) {fd : Nat} (h0 : fd ≠ 0)
    (hnew : fd ∉ s.accepted) (forkOk : Bool) (stack : Message) :
    fd ∈ (acceptClient s fd forkOk stack).occupied ↔ s.accepted.length < maxClients := by
  have hs' := inv_accept hs h0 hnew forkOk stack
  have hidx : (s.accepted ++ [fd]).idxOf fd = s.accepted.length := by
    rw [List.idxOf_append_of_notMem hnew]
    simp
  rw [State.occupied, hs'.parent, filter_slots hs'.accepted_ne_zero]
  show fd ∈ (s.accepted ++ [fd]).take maxClients ↔ _
  rw [List.mem_take_iff_idxOf_lt (by simp), hidx]

/-! ## runs -/

/-- **Step lemma**: nobody who was accepted is forgotten. -/
theorem accepted_step (s : State) (e : Event) : s.accepted <+: (step s e).1.accepted := by
  cases e with
  | accept fd forkOk stack => exact List.prefix_append _ _
  | recv c chunk broken =>
      simp only [step]
      split <;> exact List.prefix_refl _
  | eof c =>
      simp only [step]
      split <;> exact List.prefix_refl _
  | _ => exact List.prefix_refl _

/-- The clients accepted so far are a prefix of those accepted in the end. -/
theorem accepted_grows {fs es : List Event} (h : fs <+: es) :
    (after fs).accepted <+: (after es).accepted := by
  obtain ⟨gs, rfl⟩ := h
  have hstep : ∀ s e, (after fs).accepted <+: s.accepted →
      (after fs).accepted <+: (step s e).1.accepted := fun s e hs => hs.trans (accepted_step s e)
  rw [after, after, Transducer.run_append_fst]
  exact Transducer.run_inv_of_step hstep (List.prefix_refl _) gs

theorem run_initial {fs es : List Event} (h : fs <+: es) (hes : Run es) : Run fs := by
  obtain ⟨gs, rfl⟩ := h
  exact (Transducer.along_append.mp hes).1

section

variable {left : State → List Nat} {Leaves : Event → Prop} (h : Counting left Leaves)
include h

/-- As long as nobody leaves the list stays empty. -/
theorem Counting.left_after {es : List Event} (hno : ∀ e ∈ es, ¬Leaves e) :
    left (after es) = [] := by
  induction es using List.reverseRecOn with
  | nil => exact h.init
  | append_singleton es e ih =>
      rw [after_append_singleton, h.stays _ _ (hno e (by simp)),
        ih fun e' he' => hno e' (List.mem_append_left _ he')]

/-- Then everybody who has been accepted is there. -/
theorem Counting.filter_accepted {es : List Event} (hno : ∀ e ∈ es, ¬Leaves e) :
    (after es).accepted.filter (· ∉ left (after es)) = (after es).accepted := by
  simp [h.left_after hno]

/-- The first one to leave is still in its slot afterwards. -/
theorem Counting.nobody_leaves {es : List Event} (hes : Run es)
    (hexact : ∀ fs, fs <+: es → (after fs).occupied.Perm
      ((after fs).accepted.filter (· ∉ left (after fs)))) : ∀ e ∈ es, ¬Leaves e := by
  induction es using List.reverseRecOn with
  | nil => simp
  | append_singleton es e ih =>
      obtain ⟨hrun, hpos⟩ := run_append_singleton.mp hes
      have hno := ih hrun fun fs hfs => hexact fs (hfs.trans (List.prefix_append _ _))
      rw [List.forall_mem_append, List.forall_mem_singleton]
      refine ⟨hno, fun he => ?_⟩
      obtain ⟨hclients, c, hc, hleft⟩ := h.leaves _ _ (inv_after hrun) hpos he
      have hbefore := hexact es (List.prefix_append _ _)
      have hafter := hexact _ (List.prefix_refl _)
      rw [h.filter_accepted hno] at hbefore
      rw [after_append_singleton, State.occupied, hclients] at hafter
      have hmem := (hbefore.symm.trans hafter).mem_iff.mp hc
      simp [hleft] at hmem

/-- In a run the occupied slots of the parent are the accepted clients that have not left in
every state, and every client accepted while fewer than `MAX_CLIENTS` of the others are there
gets a slot, if and only if in that run nobody leaves and at most `MAX_CLIENTS` are
accepted. -/
theorem Counting.given_back_iff {es : List Event} (hes : Run es) :
    ((∀ fs, fs <+: es → (after fs).occupied.Perm
        ((after fs).accepted.filter (· ∉ left (after fs)))) ∧
      ∀ fs fd forkOk stack, fs ++ [.accept fd forkOk stack] <+: es →
        ((after fs).accepted.filter (· ∉ left (after fs))).length < maxClients →
          fd ∈ (after (fs ++ [.accept fd forkOk stack])).occupied) ↔
      (∀ e ∈ es, ¬Leaves e) ∧ (after es).accepted.length ≤ maxClients := by
  constructor
  · rintro ⟨hexact, -⟩
    have hno := h.nobody_leaves hes hexact
    have hall := (hexact es (List.prefix_refl es)).length_eq
    rw [h.filter_accepted hno] at hall
    refine ⟨hno, ?_⟩
    rw [← hall, ← (after es).clients.length_eq]
    exact List.length_filter_le _ _
  · rintro ⟨hno, hcap⟩
    have hstays {fs : List Event} (hfs : fs <+: es) :=
      h.filter_accepted fun e he => hno e (hfs.subset he)
    refine ⟨fun fs hfs => ?_, fun fs fd forkOk stack hfs hroom => ?_⟩
    · have hs := inv_after (run_initial hfs hes)
      have hfit := (accepted_grows hfs).length_le.trans hcap
      rw [hstays hfs, State.occupied, hs.parent, filter_slots hs.accepted_ne_zero,
        List.take_of_length_le hfit]
    · obtain ⟨hrun, h0, hnew⟩ := run_append_singleton.mp (run_initial hfs hes)
      rw [hstays ((List.prefix_append fs _).trans hfs)] at hroom
      rw [after_append_singleton]
      exact (mem_occupied_accept_iff (inv_after hrun) h0 hnew forkOk stack).mpr hroom

end

/-- **Release of slots**: in a run the occupied slots of the parent are the
accepted clients that have not disconnected in every state, and every client
accepted while fewer than `MAX_CLIENTS` of the others remain gets a slot, if and
only if in that run nobody disconnects and at most `MAX_CLIENTS` are accepted. -/
theorem slots_given_back_iff {es : List Event} (hes : Run es) :
    ((∀ fs, fs <+: es → SlotsExact (after fs)) ∧
      ∀ fs fd forkOk stack, fs ++ [.accept fd forkOk stack] <+: es →
        (after fs).remaining.length < maxClients →
          fd ∈ (after (fs ++ [.accept fd forkOk stack])).occupied) ↔
      (∀ e ∈ es, ¬e.Disconnects) ∧ (after es).accepted.length ≤ maxClients :=
  counting_disconnected.given_back_iff hes

/-- Three clients, one of which says something before the last one comes. -/
theorem slots_given_back_three :
    let es : List Event := [.accept 4 true blank, .accept 5 false blank,
      .recv 4 blank.mem.bytes [], .accept 6 true blank]
    (∀ fs, fs <+: es → SlotsExact (after fs)) ∧
      ∀ fs fd forkOk stack, fs ++ [.accept fd forkOk stack] <+: es →
        (after fs).remaining.length < maxClients →
          fd ∈ (after (fs ++ [.accept fd forkOk stack])).occupied :=
  (slots_given_back_iff (by decide +kernel)).mpr (by decide +kernel)

/-- The sixth client gets no slot although the first five have disconnected. -/
theorem sixth_without_slot :
    let fs : List Event :=
      [4, 5, 6, 7, 8].flatMap fun fd => [.accept fd true blank, .hangup fd, .eof fd]
    Run (fs ++ [.accept 9 true blank]) ∧
      (after fs).remaining = [] ∧
      9 ∉ (after (fs ++ [.accept 9 true blank])).occupied ∧
      ¬SlotsExact (after (fs ++ [.accept 9 true blank])) := by
  decide +kernel

/-- The same of the clients that are connected: also one whose child was killed by SIGPIPE, or
was never forked, keeps its slot when it leaves. -/
theorem slots_of_connected_iff {es : List Event} (hes : Run es) :
    ((∀ fs, fs <+: es → (after fs).occupied.Perm (after fs).connected) ∧
      ∀ fs fd forkOk stack, fs ++ [.accept fd forkOk stack] <+: es →
        (after fs).connected.length < maxClients →
          fd ∈ (after (fs ++ [.accept fd forkOk stack])).occupied) ↔
      (∀ e ∈ es, ¬e.Leaves) ∧ (after es).accepted.length ≤ maxClients :=
  counting_gone.given_back_iff hes

end Reti.ChatTcpGold
