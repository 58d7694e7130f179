import Reti.ChatUdp.Server
import Reti.Lib.Transducer

/-!
# Reti.ChatUdp.Forwarding

What the server of the struct-based chat forwards.  It always sends the whole struct,
however little it has received; `MSGbuffer` is cleared at the end of each iteration, and
in the first one there is nobody to send it to.
-/

namespace Reti.ChatUdp

open CStr

/-- A datagram in a struct: as much of it as fits, and zeros. -/
def padded (payload : List UInt8) : List UInt8 :=
  payload.take sizeofMessage ++ List.replicate (sizeofMessage - payload.length) 0

theorem mem_zero : Message.zero.mem = Buf.zero sizeofMessage := by
  apply Buf.ext
  show List.replicate 64 0 ++ List.replicate 2048 0 = List.replicate sizeofMessage 0
  rw [List.replicate_append_replicate]

theorem bytes_zero_fill (payload : List UInt8) :
    (Message.zero.fill payload).mem.bytes = padded payload := by
  rw [Message.fill, Message.mem_ofMem, mem_zero, Buf.bytes_zero_fill, padded]

/-- What holds between two iterations: the buffer is cleared, or nobody has come yet. -/
def BufferInv (s : Server) : Prop := s.msgBuffer = Message.zero ∨ s.clients = []

theorem bufferInv_run {s : Server} (hs : BufferInv s) (rs : List Recv) :
    BufferInv (Transducer.run iteration s rs).1 := by
  have hstep : ∀ s r, BufferInv s → BufferInv (iteration s r).1 := fun _ _ _ => Or.inl rfl
  exact Transducer.run_inv_of_step hstep hs rs

/-- The first to come is alone. -/
theorem iteration_of_nobody {s : Server} (h : s.clients = []) (r : Recv) :
    (iteration s r).2 = [] := by
  simp [iteration, h, register, forward, isClient, maxClients]

/-- **Step lemma**: what is forwarded for a datagram is the datagram. -/
theorem text_of_mem_iteration {s : Server} (hs : BufferInv s) {d : Datagram} {p : Packet}
    (hp : p ∈ (iteration s (.got d)).2) : p.text = padded d.payload := by
  cases hs with
  | inl hzero =>
      obtain ⟨c, -, rfl⟩ := List.mem_map.mp hp
      show (s.msgBuffer.fill d.payload).mem.bytes = padded d.payload
      rw [hzero, bytes_zero_fill]
  | inr hnobody =>
      rw [iteration_of_nobody hnobody] at hp
      cases hp

/-- **Forwarding**: whatever `malloc` returned, and whatever was received before, what is
forwarded for a datagram is its bytes, as many as fit the struct, and zeros. -/
theorem forwarded_padded (client : SockaddrIn) (msgBuffer : Message) (ds : List Datagram)
    (d : Datagram) :
    ∀ p ∈ (iteration (Transducer.run iteration (.init client msgBuffer) (ds.map .got)).1
        (.got d)).2,
      p.text = padded d.payload := by
  intro p hp
  have hinit : BufferInv (.init client msgBuffer) := Or.inr rfl
  exact text_of_mem_iteration (bufferInv_run hinit (ds.map .got)) hp

/-- The second one's short datagram goes to the first, whose longer one was received before. -/
theorem forwarded_padded_second :
    let server := (Transducer.run iteration (.init default (Message.zero.fill [1, 2, 3]))
      ([⟨⟨2, 1, 1, 0⟩, ascii "ciao a tutti"⟩].map .got)).1
    let out := (iteration server (.got ⟨⟨2, 2, 1, 0⟩, ascii "ehi"⟩)).2
    out.map Packet.dst = [⟨2, 1, 1, 0⟩] ∧ ∃ p ∈ out, p.text = padded (ascii "ehi") := by
  intro server out
  have hmem : ⟨⟨2, 1, 1, 0⟩, padded (ascii "ehi")⟩ ∈ out := by decide +kernel
  exact ⟨by decide +kernel, _, hmem,
    forwarded_padded default _ [⟨⟨2, 1, 1, 0⟩, ascii "ciao a tutti"⟩] ⟨⟨2, 2, 1, 0⟩, ascii "ehi"⟩ _
      hmem⟩

end Reti.ChatUdp
