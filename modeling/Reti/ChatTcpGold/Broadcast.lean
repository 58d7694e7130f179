import Reti.ChatTcpGold.Invariant

/-!
# Reti.ChatTcpGold.Broadcast

Whom a message reaches.  The child that receives it sends it to the slots of its
own copy of `clients`, which `fork` made when the child's client was accepted.
Clients accepted later are not in it, so a message goes up the order of
acceptance and never down.

The loop also stops for good where `send` raises SIGPIPE, which happens for a
client that has closed its connection and whose slot is still taken in the copy.
-/

namespace Reti.ChatTcpGold

open CStr SlotArray

/-- The clients that are connected: accepted, and they have not closed their end. -/
def State.connected (s : State) : List Nat := s.accepted.filter (· ∉ s.gone)

/-- What the loop of `broadcast_message` sends: the message to the taken slots, up
to the first that breaks it off. -/
theorem broadcastLoop_fst (msg : Message) (broken fds : List Nat) :
    (broadcastLoop msg broken fds).1 =
      ((fds.filter (· ≠ 0)).takeWhile (· ∉ broken)).map fun fd => ⟨fd, msg⟩ := by
  induction fds with
  | nil => rfl
  | cons fd fds ih =>
      by_cases h0 : fd = 0
      · rw [broadcastLoop, if_neg (by simpa using h0), List.filter_cons_of_neg (by simpa using h0),
          ih]
      · by_cases hb : fd ∈ broken
        · simp [broadcastLoop, h0, hb]
        · simp [broadcastLoop, h0, hb, ih]

/-- A list without repetitions sends to `d` once or not at all. -/
theorem filter_sent_iff {l : List Nat} (hl : l.Nodup) (m : Message) (d : Nat) :
    (l.map fun fd => (⟨fd, m⟩ : Sent)).filter (fun p => p.fd = d) = [⟨d, m⟩] ↔ d ∈ l := by
  have hcount : (l.map fun fd => (⟨fd, m⟩ : Sent)).filter (fun p => p.fd = d) =
      List.replicate (l.count d) ⟨d, m⟩ := by
    rw [List.filter_map, ← List.map_replicate (f := fun fd => (⟨fd, m⟩ : Sent))]
    congr 1
    rw [← List.filter_beq]
    rfl
  rw [hcount]
  constructor
  · intro h
    have hlen := congrArg List.length h
    rw [List.length_replicate, List.length_singleton] at hlen
    exact List.count_pos_iff.mp (by omega)
  · intro h
    rw [List.count_eq_one_of_mem hl h]
    rfl

/-- The sends of a child that receives a whole message: to the clients accepted
up to its own, in order, until one breaks the loop off. -/
theorem step_recv_snd {s : State} (hs : Inv s) (hcap : s.accepted.length ≤ maxClients) {c : Nat}
    (hc : s.Serves c) (m : Message) (broken : List Nat) :
    (step s (.recv c m.mem.bytes broken)).2 =
      ((s.accepted.take (s.accepted.idxOf c + 1)).takeWhile (· ∉ broken)).map
        fun fd => ⟨fd, m⟩ := by
  obtain ⟨child, hchild, hrun⟩ := hc
  obtain ⟨p, hp, hcopy⟩ := hs.copy c child hchild hrun
  have hcp : c ∉ p := by
    have hn : (p ++ [c]).Nodup := hs.accepted_nodup.sublist hp.sublist
    exact fun h => (List.nodup_append.mp hn).2.2 c h c (List.mem_singleton_self c) rfl
  have hidx : s.accepted.idxOf c = p.length := by
    rw [← hp.idxOf_eq_of_mem (by simp), List.idxOf_append_of_notMem hcp]
    simp
  have hprefix : s.accepted.take (s.accepted.idxOf c + 1) = p ++ [c] := by
    rw [hidx, List.prefix_iff_eq_take.mp hp, List.length_append, List.length_singleton]
  have hzero : 0 ∉ p ++ [c] := fun h => hs.accepted_ne_zero (hp.subset h)
  have hlen : (p ++ [c]).length ≤ maxClients := hp.length_le.trans hcap
  simp only [step, hchild, handleChunk, Message.fill_whole, broadcastMessage]
  rw [broadcastLoop_fst, hcopy, filter_slots hzero, List.take_of_length_le hlen, hprefix]

/-- **Broadcast**: after any run in which at most `MAX_CLIENTS` clients have been
accepted, a message that a child receives whole is sent once to each client
connected at that moment if and only if each of these was accepted no later than
the child's own client and before every client whose connection breaks off the
loop. -/
theorem broadcast_reaches_room_iff {es : List Event} (hes : Run es)
    (hcap : (after es).accepted.length ≤ maxClients) {c : Nat} {m : Message} {broken : List Nat}
    (hrecv : (Event.recv c m.mem.bytes broken).Possible (after es)) :
    (∀ d ∈ (after es).connected,
        ((step (after es) (.recv c m.mem.bytes broken)).2.filter fun p => p.fd = d) = [⟨d, m⟩]) ↔
      ∀ d ∈ (after es).connected,
        (after es).accepted.idxOf d ≤ (after es).accepted.idxOf c ∧
          ∀ x ∈ broken, (after es).accepted.idxOf d < (after es).accepted.idxOf x := by
  have hs := inv_after hes
  rw [step_recv_snd hs hcap hrecv.1]
  have hn : (((after es).accepted.take ((after es).accepted.idxOf c + 1)).takeWhile
      (· ∉ broken)).Nodup :=
    hs.accepted_nodup.sublist ((List.takeWhile_sublist _).trans (List.take_sublist _ _))
  refine forall₂_congr fun d hd => ?_
  rw [filter_sent_iff hn, mem_takeWhile_take_iff (List.mem_of_mem_filter hd), Nat.lt_succ_iff]

/-- The client that was accepted last reaches the first. -/
theorem broadcast_reaches_room_second :
    ((step (after [.accept 4 true blank, .accept 5 true blank])
      (.recv 5 blank.mem.bytes [])).2.filter fun p => p.fd = 4) = [⟨4, blank⟩] :=
  (broadcast_reaches_room_iff (by decide) (by decide) (by decide +kernel)).mpr (by decide +kernel)
    4 (by decide)

/-- The client that was accepted first does not reach the second. -/
theorem first_not_heard_by_second :
    Run [.accept 4 true blank, .accept 5 true blank] ∧
      (Event.recv 4 blank.mem.bytes []).Possible
        (after [.accept 4 true blank, .accept 5 true blank]) ∧
      5 ∈ (after [.accept 4 true blank, .accept 5 true blank]).connected ∧
      ((step (after [.accept 4 true blank, .accept 5 true blank])
        (.recv 4 blank.mem.bytes [])).2.filter fun p => p.fd = 5) = [] := by
  decide +kernel

end Reti.ChatTcpGold
