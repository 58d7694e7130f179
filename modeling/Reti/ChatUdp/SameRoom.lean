import Reti.ChatUdp.Server
import Reti.ChatUdpServer.Server

/-!
# Reti.ChatUdp.SameRoom

The two UDP chat servers keep the same room.  `chatUDP_server.c` has a function
for each part of the roster and answers history requests; `sv_chat.c` does
everything inline.  `Room` says what a room is: whoever writes enters it, as long
as there is room, and the others get the message.  Both loops simulate it.
-/

namespace Reti.SameRoom

open CStr Transducer

/-! ## the room -/

/-- The addresses of the people in the room, in the order in which they came. -/
abbrev Room := List SockaddrIn

namespace Room

/-- As many as both servers have room for. -/
def capacity : Nat := 100

/-- Somebody writes: they are in the room if there is a place. -/
def enter (room : Room) (a : SockaddrIn) : Room :=
  KeyTable.join SockaddrIn.endpoint capacity room a

/-- Everybody but the person who writes. -/
def others (room : Room) (a : SockaddrIn) : List SockaddrIn :=
  room.filter fun b => ¬b.endpoint = a.endpoint

/-- One message, with the people it goes to. -/
def message (room : Room) (a : SockaddrIn) : Room × List SockaddrIn :=
  (room.enter a, (room.enter a).others a)

end Room

/-! ## the server with the log file -/

/-- A datagram that is no request for the log. -/
def IsMessage (d : Datagram) : Prop := ¬ChatUdpServer.historyCmd <+: d.payload

instance (d : Datagram) : Decidable (IsMessage d) := inferInstanceAs (Decidable (¬_))

namespace Logged

open ChatUdpServer

def room (s : Server) : Room := s.clients.map Client.addr

theorem map_addClient (clients : List Client) (a : SockaddrIn) :
    (addClient clients a).map Client.addr = Room.enter (clients.map Client.addr) a := by
  rw [addClient_eq_join]
  exact KeyTable.map_join (fun _ => rfl) maxClients clients ⟨a⟩

theorem dst_broadcastMessage (clients : List Client) (msg : List UInt8) (a : SockaddrIn) :
    (broadcastMessage clients msg a).map Packet.dst = Room.others (clients.map Client.addr) a := by
  simp [broadcastMessage, Room.others, isSameClient_eq, List.filter_map, Function.comp_def]

/-- The test of the loop, also for a datagram that fills the buffer or is cut off
by it. -/
theorem isRequest_iff (d : Datagram) :
    strncmpEq (receive (.got d)).bytes historyCmd 8 = true ↔ historyCmd <+: d.payload := by
  have hlen : historyCmd.length = 8 := by decide
  have hnul : (0 : UInt8) ∉ historyCmd := by decide
  have hfits : historyCmd.length ≤ maxMsgLen := by decide
  rw [← hlen, strncmpEq_iff hnul]
  exact Buf.prefix_bytes_zero_fill_iff hnul hfits

/-- **Step lemma**: a message acts on the room and goes to the others in it. -/
theorem message_iteration (s : Server) {d : Datagram} (hd : IsMessage d) (fopenOk : Bool) :
    Room.message (room s) d.src =
      (room (iteration s ⟨.got d, fopenOk⟩).1,
        (iteration s ⟨.got d, fopenOk⟩).2.map Packet.dst) := by
  have hbranch : ¬strncmpEq (receive (.got d)).bytes historyCmd 8 = true := by
    rwa [isRequest_iff]
  have hroom : room (iteration s ⟨.got d, fopenOk⟩).1 = Room.enter (room s) d.src := by
    rw [room, clients_iteration]
    exact map_addClient s.clients d.src
  have hsent : (iteration s ⟨.got d, fopenOk⟩).2 =
      broadcastMessage (addClient s.clients d.src) (receive (.got d)).text d.src := by
    simp only [iteration]
    rw [if_neg hbranch]
    rfl
  rw [hroom, hsent, dst_broadcastMessage, map_addClient]
  rfl

end Logged

/-! ## the server without -/

namespace Inline

open ChatUdp

def room (s : Server) : Room := s.clients.map ClientInfo.addr

theorem map_register (clients : List ClientInfo) (a : SockaddrIn) :
    (register clients a).map ClientInfo.addr = Room.enter (clients.map ClientInfo.addr) a := by
  rw [register_eq_join]
  exact KeyTable.map_join (fun _ => rfl) maxClients clients ⟨a⟩

theorem dst_forward (clients : List ClientInfo) (msg : Message) (a : SockaddrIn) :
    (forward clients msg a).map Packet.dst = Room.others (clients.map ClientInfo.addr) a := by
  simp only [forward, Room.others, isClient_eq, decide_eq_true_eq, List.filter_map, List.map_map]
  rfl

/-- **Step lemma**: every datagram acts on the room and goes to the others in it. -/
theorem message_iteration (s : Server) (d : Datagram) :
    Room.message (room s) d.src =
      (room (iteration s (.got d)).1, (iteration s (.got d)).2.map Packet.dst) := by
  have hroom : room (iteration s (.got d)).1 = Room.enter (room s) d.src :=
    map_register s.clients d.src
  have hdst : (iteration s (.got d)).2.map Packet.dst =
      Room.others (Room.enter (room s) d.src) d.src := by
    show (forward (register s.clients d.src) (s.received (.got d)) d.src).map Packet.dst = _
    rw [dst_forward, map_register]
    rfl
  rw [hroom, hdst, Room.message]

end Inline

/-! ## both -/

/-- What both servers meet: a datagram, and whether the one with the log file can
open it. -/
structure Arrival where
  datagram : Datagram
  fopenOk : Bool
  deriving DecidableEq, Repr

def Arrival.logged (a : Arrival) : ChatUdpServer.Event := ⟨.got a.datagram, a.fopenOk⟩

def Arrival.inline (a : Arrival) : Recv := .got a.datagram

def Arrival.src (a : Arrival) : SockaddrIn := a.datagram.src

/-- **Run lemma**: the server with the log file simulates the room. -/
theorem Logged.run_message (s : ChatUdpServer.Server) {as : List Arrival}
    (has : ∀ a ∈ as, IsMessage a.datagram) :
    run Room.message (Logged.room s) (as.map Arrival.src) =
      (Logged.room (run ChatUdpServer.iteration s (as.map Arrival.logged)).1,
        (run ChatUdpServer.iteration s (as.map Arrival.logged)).2.map Packet.dst) := by
  have hstep : ∀ (s : ChatUdpServer.Server) (a : Arrival), IsMessage a.datagram →
      Room.message (Logged.room s) a.src =
        (Logged.room (ChatUdpServer.iteration s a.logged).1,
          (ChatUdpServer.iteration s a.logged).2.map Packet.dst) := fun s a ha =>
    Logged.message_iteration s ha a.fopenOk
  exact run_simulates hstep s has

/-- **Run lemma**: so does the other one. -/
theorem Inline.run_message (s : ChatUdp.Server) (as : List Arrival) :
    run Room.message (Inline.room s) (as.map Arrival.src) =
      (Inline.room (run ChatUdp.iteration s (as.map Arrival.inline)).1,
        (run ChatUdp.iteration s (as.map Arrival.inline)).2.map Packet.dst) := by
  have hstep : ∀ (s : ChatUdp.Server) (a : Arrival), True →
      Room.message (Inline.room s) a.src =
        (Inline.room (ChatUdp.iteration s a.inline).1,
          (ChatUdp.iteration s a.inline).2.map Packet.dst) := fun s a _ =>
    Inline.message_iteration s a.datagram
  exact run_simulates hstep s fun _ _ => trivial

/-- **The two servers agree**: after any messages, whether or not the log file
could be opened, they have the same addresses in the same order; the next message
leaves them so, and both send it to the same addresses in the same order. -/
theorem same_room (log : List UInt8) (clientAddr client : SockaddrIn)
    (msgBuffer : ChatUdp.Message) (as : List Arrival) (has : ∀ a ∈ as, IsMessage a.datagram)
    (a : Arrival) (ha : IsMessage a.datagram) :
    let s := (run ChatUdpServer.iteration (.init log clientAddr) (as.map Arrival.logged)).1
    let t := (run ChatUdp.iteration (.init client msgBuffer) (as.map Arrival.inline)).1
    let s' := ChatUdpServer.iteration s a.logged
    let t' := ChatUdp.iteration t a.inline
    Logged.room s = Inline.room t ∧ Logged.room s'.1 = Inline.room t'.1 ∧
      s'.2.map Packet.dst = t'.2.map Packet.dst := by
  intro s t s' t'
  have hroom : Logged.room s = Inline.room t :=
    congrArg Prod.fst ((Logged.run_message (.init log clientAddr) has).symm.trans
      (Inline.run_message (.init client msgBuffer) as))
  have hs' : Room.message (Logged.room s) a.src = (Logged.room s'.1, s'.2.map Packet.dst) :=
    Logged.message_iteration s ha a.fopenOk
  have ht' : Room.message (Inline.room t) a.src = (Inline.room t'.1, t'.2.map Packet.dst) :=
    Inline.message_iteration t a.datagram
  have hnext : (Logged.room s'.1, s'.2.map Packet.dst) =
      (Inline.room t'.1, t'.2.map Packet.dst) := by
    rw [← hs', ← ht', hroom]
  exact ⟨hroom, congrArg Prod.fst hnext, congrArg Prod.snd hnext⟩

/-- Two people and the log file that cannot be opened: the second one's message. -/
theorem same_room_two :
    let as : List Arrival := [⟨⟨⟨2, 1, 1, 0⟩, ascii "ciao"⟩, false⟩]
    let s := (run ChatUdpServer.iteration (.init [] default) (as.map Arrival.logged)).1
    let t := (run ChatUdp.iteration (.init default .zero) (as.map Arrival.inline)).1
    let a : Arrival := ⟨⟨⟨2, 2, 1, 0⟩, ascii "ehi"⟩, true⟩
    Logged.room s = Inline.room t ∧
      Logged.room (ChatUdpServer.iteration s a.logged).1 =
        Inline.room (ChatUdp.iteration t a.inline).1 ∧
      (ChatUdpServer.iteration s a.logged).2.map Packet.dst =
        (ChatUdp.iteration t a.inline).2.map Packet.dst :=
  same_room [] default default .zero [⟨⟨⟨2, 1, 1, 0⟩, ascii "ciao"⟩, false⟩] (by decide)
    ⟨⟨⟨2, 2, 1, 0⟩, ascii "ehi"⟩, true⟩ (by decide)

end Reti.SameRoom
