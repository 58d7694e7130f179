import Reti.ChatUdp.Client
import Reti.ChatUdp.Forwarding
import Reti.ChatUdp.SameRoom
import Reti.Lib.Forum

/-!
# Reti.ChatUdp.Transcript

What somebody in the room of the struct-based chat gets to read.  The server simulates a
forum whose members are known by their endpoint and whose messages are structs; what the
forum makes a member hear, the receiving process of that member prints.
-/

namespace Reti.ChatUdp

open CStr Transducer

/-! ## the server as a forum -/

/-- What a datagram says in the forum. -/
def spoken (d : Datagram) : SockaddrIn × List UInt8 := (d.src, padded d.payload)

def Server.room (s : Server) : List SockaddrIn := s.clients.map ClientInfo.addr

/-- **Step lemma**: a datagram is a message in the forum. -/
theorem forum_iteration {s : Server} (hs : BufferInv s) (d : Datagram) :
    Forum.step SockaddrIn.endpoint maxClients s.room (spoken d) =
      ((iteration s (.got d)).1.room, (iteration s (.got d)).2.map fun p => (p.dst, p.text)) := by
  have hroom := SameRoom.Inline.message_iteration s d
  have htext : ((iteration s (.got d)).2.map fun p => (p.dst, p.text)) =
      ((iteration s (.got d)).2.map Packet.dst).map fun a => (a, padded d.payload) := by
    rw [List.map_map]
    refine List.map_congr_left fun p hp => ?_
    rw [text_of_mem_iteration hs hp]
    rfl
  rw [htext]
  simp only [SameRoom.Room.message, Prod.mk.injEq] at hroom
  rw [← hroom.2]
  exact Prod.ext hroom.1 rfl

/-- **Run lemma**: any sequence of datagrams is a conversation in the forum. -/
theorem forum_run {s : Server} (hs : BufferInv s) (ds : List Datagram) :
    run (Forum.step SockaddrIn.endpoint maxClients) s.room (ds.map spoken) =
      ((run iteration s (ds.map .got)).1.room,
        (run iteration s (ds.map .got)).2.map fun p => (p.dst, p.text)) := by
  have hinv : ∀ (s : Server) (d : Datagram), BufferInv s → True →
      BufferInv (iteration s (.got d)).1 := fun _ _ _ _ => Or.inl rfl
  have hstep : ∀ (s : Server) (d : Datagram), BufferInv s → True → _ :=
    fun _ d h _ => forum_iteration h d
  exact run_simulates_of_inv hinv hstep hs fun _ _ => trivial

/-- No two people in the room have the same endpoint. -/
theorem keyed_run (client : SockaddrIn) (msgBuffer : Message) (rs : List Recv) :
    KeyTable.Keyed SockaddrIn.endpoint (run iteration (.init client msgBuffer) rs).1.room := by
  have hstep : ∀ (s : Server) (r : Recv), KeyTable.Keyed SockaddrIn.endpoint s.room →
      KeyTable.Keyed SockaddrIn.endpoint (iteration s r).1.room := by
    intro s r hs
    show KeyTable.Keyed _ ((register s.clients (s.sender r)).map ClientInfo.addr)
    rw [SameRoom.Inline.map_register]
    exact KeyTable.keyed_join hs _ _
  have hinit : KeyTable.Keyed SockaddrIn.endpoint (Server.init client msgBuffer).room :=
    List.nodup_nil
  exact run_inv_of_step hstep hinit rs

/-! ## the receiving process -/

/-- One iteration of the receiving process, with what it prints. -/
def Client.print (c : Client) (payload : List UInt8) : Client × List (List UInt8) :=
  ((c.receive (some payload)).1, [(c.receive (some payload)).2])

/-- A datagram as a client sends it: a struct that carries a name and a line. -/
structure Post where
  datagram : Datagram
  sender : List UInt8
  content : List UInt8
  carries : Carries datagram.payload sender content

def Post.shown (p : Post) : List UInt8 := ChatUdp.shown p.sender p.content

/-- A struct is forwarded as it is. -/
theorem Post.padded_payload (p : Post) : padded p.datagram.payload = p.datagram.payload := by
  rw [padded, List.take_of_length_le (Nat.le_of_eq p.carries.length_eq), p.carries.length_eq,
    Nat.sub_self, List.replicate_zero, List.append_nil]

/-- **Run lemma**: structs received one after the other are printed as what they carry. -/
theorem print_run (c : Client) (ps : List Post) :
    (run Client.print c (ps.map fun p => p.datagram.payload)).2 = ps.map Post.shown := by
  induction ps generalizing c with
  | nil => rfl
  | cons p ps ih =>
      rw [List.map_cons, run_cons_snd, ih]
      simp only [Client.print]
      rw [receive_spec c p.carries]
      rfl

/-! ## what is read in the room -/

/-- What the server sends to somebody in the room, over any datagrams: those of the
others, each once, in order. -/
theorem texts_to_member {s : Server} (hs : BufferInv s)
    (hn : KeyTable.Keyed SockaddrIn.endpoint s.room) {c : ClientInfo} (hc : c ∈ s.clients)
    (ds : List Datagram) :
    (((run iteration s (ds.map .got)).2.filter fun p => isClient c p.dst).map Packet.text) =
      (ds.filter fun d => ¬isClient c d.src).map fun d => padded d.payload := by
  have hmem : c.addr ∈ s.room := List.mem_map_of_mem hc
  have hrun := congrArg Prod.snd (forum_run hs ds)
  have hheard : ((run (Forum.step SockaddrIn.endpoint maxClients) s.room (ds.map spoken)).2.filter
      fun p => p.1.endpoint = c.addr.endpoint) = _ := Forum.heard_run hn hmem _
  have htexts := congrArg (List.map Prod.snd) hheard
  rw [hrun] at htexts
  simp only [List.filter_map, List.map_map, Function.comp_def, spoken] at htexts
  simp only [isClient_eq, ClientInfo.endpoint, decide_eq_true_eq, @eq_comm _ c.addr.endpoint]
  exact htexts

/-- **Transcript**: somebody who is in the room reads, from then on, every line that the
others write, in the order in which the server receives them, each once with the name of
its writer, and none of their own; whatever happened before, and whatever their process
has received into its memory. -/
theorem transcript (client : SockaddrIn) (msgBuffer : Message) (rs : List Recv) {c : ClientInfo}
    (hc : c ∈ (run iteration (.init client msgBuffer) rs).1.clients) (ps : List Post)
    (reader : Client) :
    let s := (run iteration (.init client msgBuffer) rs).1
    let sent := (run iteration s (ps.map fun p => .got p.datagram)).2
    (run Client.print reader ((sent.filter fun p => isClient c p.dst).map Packet.text)).2 =
      (ps.filter fun p => ¬isClient c p.datagram.src).map Post.shown := by
  intro s sent
  have hsent : sent = (run iteration s ((ps.map Post.datagram).map .got)).2 := by
    rw [List.map_map]
    rfl
  have htexts := texts_to_member (bufferInv_run (Or.inr rfl) rs) (keyed_run client msgBuffer rs) hc
    (ps.map Post.datagram)
  rw [hsent, htexts, List.filter_map, List.map_map]
  simp only [Function.comp_def, Post.padded_payload]
  exact print_run reader _

/-- A struct with a name and a line, from an address. -/
def annasPost : Post where
  datagram := ⟨⟨2, 1, 1, 0⟩, padded (ascii "anna" ++ List.replicate 60 0 ++ ascii "ciao")⟩
  sender := ascii "anna"
  content := ascii "ciao"
  carries := ⟨by decide +kernel, by decide +kernel, by decide +kernel⟩

/-- Somebody else has come before and reads it. -/
theorem transcript_two :
    let s := (run iteration (.init default .zero) [.got ⟨⟨2, 2, 1, 0⟩, []⟩]).1
    let sent := (run iteration s ([annasPost].map fun p => .got p.datagram)).2
    (run Client.print ⟨.zero, .zero⟩
        ((sent.filter fun p => isClient ⟨⟨2, 2, 1, 0⟩⟩ p.dst).map Packet.text)).2 =
      [ChatUdp.shown (ascii "anna") (ascii "ciao")] :=
  transcript default .zero [.got ⟨⟨2, 2, 1, 0⟩, []⟩] (c := ⟨⟨2, 2, 1, 0⟩⟩) (by decide +kernel)
    [annasPost] ⟨.zero, .zero⟩

end Reti.ChatUdp
