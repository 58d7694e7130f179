import Reti.ChatUdp.Transcript

/-!
# Reti.ChatUdp.FirstWriters

Whom the two UDP chat servers know, and whom they ever send anything to.  Neither is told:
the rosters are the endpoints of the first datagrams, as many as there is room for, and
nothing is sent to an endpoint that has not written before.
-/

namespace Reti.SameRoom

open Transducer

/-- What a datagram says in the forum, and who says it. -/
def Arrival.spoken (a : Arrival) : SockaddrIn × List UInt8 := (a.src, a.datagram.payload)

/-- The endpoints that have written, each once and in order, as many as a roster holds. -/
def firstWriters (as : List Arrival) : List (UInt32 × UInt16) :=
  Forum.firstSpeakers SockaddrIn.endpoint Room.capacity (as.map Arrival.spoken)

theorem mem_of_mem_firstWriters {as : List Arrival} {k : UInt32 × UInt16}
    (hk : k ∈ firstWriters as) : k ∈ as.map fun a => a.src.endpoint := by
  obtain ⟨m, hm, hkey⟩ := Forum.mem_of_mem_firstSpeakers hk
  obtain ⟨a, ha, rfl⟩ := List.mem_map.mp hm
  exact List.mem_map.mpr ⟨a, ha, hkey⟩

/-! ## the server with the log file -/

namespace Logged

open ChatUdpServer

/-- Every datagram enters its sender in the roster, also a history request. -/
theorem room_iteration (s : Server) (a : Arrival) :
    room (iteration s a.logged).1 =
      (Forum.step SockaddrIn.endpoint Room.capacity (room s) a.spoken).1 := by
  rw [room, clients_iteration]
  exact map_addClient s.clients a.src

/-- **Step lemma**: what is sent goes to the roster, or to the sender. -/
theorem dst_iteration (s : Server) (a : Arrival) :
    ∀ p ∈ (iteration s a.logged).2, p.dst ∈ room (iteration s a.logged).1 ∨ p.dst = a.src := by
  intro p hp
  rw [room, clients_iteration]
  simp only [iteration] at hp
  split at hp
  · refine Or.inr ?_
    simp only [sendHistory] at hp
    split at hp
    · obtain ⟨line, -, rfl⟩ := List.mem_map.mp hp
      rfl
    · cases hp
  · obtain ⟨c, hc, rfl⟩ := List.mem_map.mp hp
    exact Or.inl (List.mem_map_of_mem (List.mem_filter.mp hc).1)

/-- What is known of the roster and of what has been sent. -/
structure Sent (s : Server) (as : List Arrival) (out : List Packet) : Prop where
  room_eq : (room s).map SockaddrIn.endpoint = firstWriters as
  written : ∀ p ∈ out, p.dst.endpoint ∈ as.map fun a => a.src.endpoint

theorem sent_iteration {s : Server} {as : List Arrival} {out : List Packet} (h : Sent s as out)
    (a : Arrival) :
    Sent (iteration s a.logged).1 (as ++ [a]) (out ++ (iteration s a.logged).2) := by
  have hroom : (room (iteration s a.logged).1).map SockaddrIn.endpoint =
      firstWriters (as ++ [a]) := by
    rw [room_iteration, Forum.firstSpeakers_append_singleton h.room_eq, firstWriters,
      List.map_append, List.map_singleton]
  refine ⟨hroom, fun p hp => ?_⟩
  cases List.mem_append.mp hp with
  | inl hold => simp [h.written p hold]
  | inr hnew =>
      cases dst_iteration s a p hnew with
      | inl hin =>
          refine mem_of_mem_firstWriters ?_
          rw [← hroom]
          exact List.mem_map_of_mem hin
      | inr hself => simp [hself]

/-- **Run lemma**. -/
theorem sent_run (log : List UInt8) (clientAddr : SockaddrIn) (as : List Arrival) :
    Sent (run iteration (.init log clientAddr) (as.map Arrival.logged)).1 as
      (run iteration (.init log clientAddr) (as.map Arrival.logged)).2 := by
  induction as using List.reverseRecOn with
  | nil => exact ⟨by simp [firstWriters, room, Server.init], by simp⟩
  | append_singleton as a ih =>
      rw [List.map_append, run_append_fst, run_append_snd]
      simpa using sent_iteration ih a

end Logged

/-! ## both -/

/-- **First writers**: after any datagrams, whatever is in them and whether or not the log
file can be opened, both rosters are the first hundred endpoints that have written.  The
server with the log file has sent to nobody who had not written to it, the other one to
nobody outside of its roster. -/
theorem first_writers (log : List UInt8) (clientAddr client : SockaddrIn)
    (msgBuffer : ChatUdp.Message) (as : List Arrival) :
    let s := run ChatUdpServer.iteration (.init log clientAddr) (as.map Arrival.logged)
    let t := run ChatUdp.iteration (.init client msgBuffer) (as.map Arrival.inline)
    (Logged.room s.1).map SockaddrIn.endpoint = firstWriters as ∧
      (Inline.room t.1).map SockaddrIn.endpoint = firstWriters as ∧
      (∀ p ∈ s.2, p.dst.endpoint ∈ as.map fun a => a.src.endpoint) ∧
      ∀ p ∈ t.2, p.dst.endpoint ∈ firstWriters as := by
  intro s t
  have hlogged := Logged.sent_run log clientAddr as
  have hbuffer : ChatUdp.BufferInv (.init client msgBuffer) := Or.inr rfl
  have hrun := ChatUdp.forum_run hbuffer (as.map Arrival.datagram)
  have has : (as.map Arrival.datagram).map Recv.got = as.map Arrival.inline := by
    rw [List.map_map]
    rfl
  rw [has] at hrun
  have hfirst : Forum.firstSpeakers SockaddrIn.endpoint Room.capacity
      ((as.map Arrival.datagram).map ChatUdp.spoken) = firstWriters as := by
    rw [List.map_map, firstWriters]
    apply Forum.firstSpeakers_congr
    intro a
    rfl
  have hspeakers : (run (Forum.step SockaddrIn.endpoint Room.capacity) ([] : List SockaddrIn)
      ((as.map Arrival.datagram).map ChatUdp.spoken)).1.map SockaddrIn.endpoint = _ :=
    Forum.map_key_run _
  have hroom : (Inline.room t.1).map SockaddrIn.endpoint = firstWriters as := by
    rw [← hfirst, ← hspeakers]
    exact congrArg (fun r => r.1.map SockaddrIn.endpoint) hrun.symm
  refine ⟨hlogged.room_eq, hroom, hlogged.written, fun p hp => ?_⟩
  have hheard : (p.dst, p.text) ∈ (run (Forum.step SockaddrIn.endpoint ChatUdp.maxClients)
      (ChatUdp.Server.init client msgBuffer).room
        ((as.map Arrival.datagram).map ChatUdp.spoken)).2 := by
    rw [hrun]
    exact List.mem_map_of_mem hp
  have hin := Forum.mem_of_mem_run hheard
  rw [hrun] at hin
  rw [← hroom]
  exact List.mem_map_of_mem hin

end Reti.SameRoom
