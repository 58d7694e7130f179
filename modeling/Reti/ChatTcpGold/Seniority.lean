import Reti.ChatTcpGold.Broadcast
import Reti.ChatTcpGold.Release

/-!
# Reti.ChatTcpGold.Seniority

What the clients of the TCP chat are sent in a whole run, in which all of them may talk.

The children know nothing of each other, and still no two clients are sent the same lines in
different orders: each line goes to the first clients in the order of acceptance, up to its
writer, or up to one that breaks the loop off.  So whoever came earlier is sent everything
that a later one is sent.
-/

namespace Reti.ChatTcpGold

open CStr Transducer

/-! ## what is said and what is sent -/

/-- A struct that a child has received, whose child it is, and where it is sent to. -/
structure Said where
  writer : Nat
  msg : Message
  fds : List Nat
  deriving DecidableEq, Repr

def Said.sends (x : Said) : List Sent := x.fds.map fun fd => ⟨fd, x.msg⟩

/-- What is said in a step. -/
def saying (s : State) : Event → List Said
  | .recv c chunk broken =>
    match s.children c with
    | some child =>
      [⟨c, child.msg.fill chunk, (child.clients.fds.filter (· ≠ 0)).takeWhile (· ∉ broken)⟩]
    | none => []
  | _ => []

/-- The server, with what is said in place of what is sent. -/
def narrate (s : State) (e : Event) : State × List Said := ((step s e).1, saying s e)

/-- All that has been said in a run. -/
def said (es : List Event) : List Said := (run narrate State.init es).2

/-- What a client has been sent in a run. -/
def inbox (d : Nat) (es : List Event) : List Message :=
  ((run step State.init es).2.filter fun p => p.fd = d).map Sent.msg

theorem step_eq_narrate (s : State) (e : Event) :
    step s e = ((narrate s e).1, (narrate s e).2.flatMap Said.sends) := by
  cases e with
  | recv c chunk broken =>
      cases hchild : s.children c with
      | none => simp [narrate, saying, step, hchild]
      | some child =>
          simp [narrate, saying, step, hchild, handleChunk, broadcastMessage, broadcastLoop_fst,
            Said.sends]
  | accept fd forkOk stack => rfl
  | acceptFailed => rfl
  | hangup c => rfl
  | eof c => cases hchild : s.children c <;> simp [narrate, saying, step, hchild]

theorem after_eq_narrate (es : List Event) : after es = (run narrate State.init es).1 := by
  rw [after, run_expand step_eq_narrate]

/-! ## the hearers -/

/-- The clients whose descriptors are in the copy of `clients` that the child of `c` has:
those accepted up to `c` that have got a slot. -/
def State.hearers (s : State) (c : Nat) : List Nat :=
  (s.accepted.take (s.accepted.idxOf c + 1)).take maxClients

/-- The copy holds the hearers. -/
theorem fds_of_serves {s : State} (hs : Inv s) {c : Nat} {child : Child}
    (hchild : s.children c = some child) (hrun : child.running) :
    child.clients.fds.filter (· ≠ 0) = s.hearers c := by
  obtain ⟨p, hp, hcopy⟩ := hs.copy c child hchild hrun
  have hcp : c ∉ p := by
    have hn : (p ++ [c]).Nodup := hs.accepted_nodup.sublist hp.sublist
    exact fun h => (List.nodup_append.mp hn).2.2 c h c (List.mem_singleton_self c) rfl
  have hidx : s.accepted.idxOf c = p.length := by
    rw [← hp.idxOf_eq_of_mem (by simp), List.idxOf_append_of_notMem hcp]
    simp
  have hprefix : s.accepted.take (s.accepted.idxOf c + 1) = p ++ [c] := by
    rw [hidx, List.prefix_iff_eq_take.mp hp, List.length_append, List.length_singleton]
  have hzero : 0 ∉ p ++ [c] := fun h => hs.accepted_ne_zero (hp.subset h)
  rw [hcopy, SlotArray.filter_slots hzero, State.hearers, hprefix]

/-- Different descriptors are sent a message once each. -/
theorem filter_sent {fds : List Nat} (hn : fds.Nodup) (m : Message) (d : Nat) :
    (fds.map fun fd => (⟨fd, m⟩ : Sent)).filter (fun p => p.fd = d) =
      if d ∈ fds then [⟨d, m⟩] else [] := by
  split
  · rename_i hd
    exact (filter_sent_iff hn m d).mpr hd
  · rename_i hd
    rw [List.filter_map, List.map_eq_nil_iff, List.filter_eq_nil_iff]
    intro fd hfd hfdd
    exact hd (of_decide_eq_true hfdd ▸ hfd)

/-- Who hears a client does not change when others come. -/
theorem hearers_of_grown {s t : State} (h : s.accepted <+: t.accepted) {c : Nat}
    (hc : c ∈ s.accepted) : t.hearers c = s.hearers c := by
  obtain ⟨rest, hrest⟩ := h
  have hlt : s.accepted.idxOf c + 1 ≤ s.accepted.length := List.idxOf_lt_length_of_mem hc
  rw [State.hearers, State.hearers, ← hrest, List.idxOf_append_of_mem hc,
    List.take_append_of_le_length hlt]

/-- The loop of `broadcast_message` is not broken off. -/
def Event.Unbroken : Event → Prop
  | .recv _ _ broken => broken = []
  | _ => True

instance : (e : Event) → Decidable e.Unbroken
  | .recv _ _ broken => inferInstanceAs (Decidable (broken = []))
  | .accept _ _ _ => inferInstanceAs (Decidable True)
  | .acceptFailed => inferInstanceAs (Decidable True)
  | .hangup _ => inferInstanceAs (Decidable True)
  | .eof _ => inferInstanceAs (Decidable True)

/-- A client hears those that have not come before it, if it has got a slot. -/
theorem mem_hearers_iff {s : State} {c : Nat} (hc : c ∈ s.accepted) (d : Nat) :
    d ∈ s.hearers c ↔
      s.accepted.idxOf d ≤ s.accepted.idxOf c ∧ s.accepted.idxOf d < maxClients := by
  rw [State.hearers, List.take_take]
  by_cases hd : d ∈ s.accepted
  · rw [List.mem_take_iff_idxOf_lt hd]
    omega
  · have hlast : s.accepted.idxOf d = s.accepted.length := List.idxOf_eq_length_iff.mpr hd
    have hlt := List.idxOf_lt_length_of_mem hc
    refine iff_of_false (fun h => hd (List.mem_of_mem_take h)) fun h => ?_
    omega

/-- What has been said came from clients and went to the first of their hearers, to all of
them if no loop was broken off. -/
def Ranked (s : State) (es : List Event) (log : List Said) : Prop :=
  ∀ x ∈ log, x.writer ∈ s.accepted ∧ x.fds <+: s.hearers x.writer ∧
    ((∀ e ∈ es, e.Unbroken) → x.fds = s.hearers x.writer)

theorem ranked_saying {s : State} (hs : Inv s) {e : Event} (he : e.Possible s) :
    Ranked s [e] (saying s e) := by
  intro x hx
  cases e with
  | recv c chunk broken =>
      obtain ⟨hserves, -⟩ := he
      have hc := hs.accepted_of_serves hserves
      obtain ⟨child, hchild, hrun⟩ := hserves
      simp only [saying, hchild, List.mem_singleton] at hx
      subst hx
      rw [fds_of_serves hs hchild hrun]
      refine ⟨hc, List.takeWhile_prefix _, fun hall => ?_⟩
      have hbroken : broken = [] := hall _ (List.mem_singleton_self _)
      exact List.takeWhile_eq_self_iff.mpr (by simp [hbroken])
  | accept fd forkOk stack => cases hx
  | acceptFailed => cases hx
  | hangup c => cases hx
  | eof c => cases hx

/-- **Step lemma**: what has been said stays as it is, whoever comes. -/
theorem ranked_step {s : State} (hs : Inv s) {es : List Event} {log : List Said}
    (h : Ranked s es log) {e : Event} (he : e.Possible s) :
    Ranked (narrate s e).1 (es ++ [e]) (log ++ (narrate s e).2) := by
  have hgrows : s.accepted <+: (narrate s e).1.accepted := accepted_step s e
  intro x hx
  have hbefore : x.writer ∈ s.accepted ∧ x.fds <+: s.hearers x.writer ∧
      ((∀ e' ∈ es ++ [e], e'.Unbroken) → x.fds = s.hearers x.writer) := by
    obtain hx | hx := List.mem_append.mp hx
    · obtain ⟨hc, hfirst, hfull⟩ := h x hx
      exact ⟨hc, hfirst, fun hall => hfull fun e' he' => hall e' (List.mem_append_left _ he')⟩
    · obtain ⟨hc, hfirst, hfull⟩ := ranked_saying hs he x hx
      exact ⟨hc, hfirst, fun hall => hfull fun e' he' => hall e' (List.mem_append_right _ he')⟩
  rw [hearers_of_grown hgrows hbefore.1]
  exact ⟨hgrows.subset hbefore.1, hbefore.2⟩

/-- **Run lemma**: everything that is said in a run is. -/
theorem ranked_said {es : List Event} (hes : Run es) : Ranked (after es) es (said es) := by
  have hstep (s : State) (es : List Event) (log : List Said) (e : Event)
      (h : Inv s ∧ Ranked s es log) (he : e.Possible s) :
      Inv (narrate s e).1 ∧ Ranked (narrate s e).1 (es ++ [e]) (log ++ (narrate s e).2) :=
    ⟨inv_step h.1 he, ranked_step h.1 h.2 he⟩
  have hinit : Inv State.init ∧ Ranked State.init [] [] := ⟨inv_init, fun x hx => by cases hx⟩
  have hsame : ∀ s e, (step s e).1 = (narrate s e).1 := fun _ _ => rfl
  have hall : Along narrate (fun s e => e.Possible s) State.init es :=
    (along_congr_step hsame).mp hes
  obtain ⟨-, hranked⟩ := run_hist hstep hinit hall
  rw [after_eq_narrate]
  exact hranked

/-! ## what one client is sent -/

/-- Each line is sent to a client once or not at all. -/
theorem filter_flatMap_sends {log : List Said} (hlog : ∀ x ∈ log, x.fds.Nodup) (d : Nat) :
    ((log.flatMap Said.sends).filter fun p => p.fd = d).map Sent.msg =
      (log.filter fun x => d ∈ x.fds).map Said.msg := by
  induction log with
  | nil => rfl
  | cons x log ih =>
      have hrest := ih fun y hy => hlog y (List.mem_cons_of_mem x hy)
      rw [List.flatMap_cons, List.filter_append, List.map_append, hrest,
        Said.sends, filter_sent (hlog x List.mem_cons_self)]
      by_cases hd : d ∈ x.fds <;> simp [hd]

theorem inbox_eq {es : List Event} (hes : Run es) (d : Nat) :
    inbox d es = ((said es).filter fun x => d ∈ x.fds).map Said.msg := by
  rw [inbox, run_expand step_eq_narrate]
  refine filter_flatMap_sends (fun x hx => ?_) d
  obtain ⟨-, hfirst, -⟩ := ranked_said hes x hx
  have hsub : x.fds.Sublist (after es).accepted :=
    hfirst.sublist.trans ((List.take_sublist _ _).trans (List.take_sublist _ _))
  exact (inv_after hes).accepted_nodup.sublist hsub

theorem filter_sublist_filter {l : List α} {p q : α → Bool} (h : ∀ x ∈ l, p x → q x) :
    (l.filter p).Sublist (l.filter q) := by
  have hboth : l.filter p = (l.filter q).filter p := by
    rw [List.filter_filter]
    refine List.filter_congr fun x hx => ?_
    cases hp : p x with
    | false => rfl
    | true => rw [h x hx hp, Bool.and_self]
  rw [hboth]
  exact List.filter_sublist

end Reti.ChatTcpGold
