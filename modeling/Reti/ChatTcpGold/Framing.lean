import Reti.Net
import Reti.ChatTcpGold.Server
import Reti.Lib.Chunks

/-!
# Reti.ChatTcpGold.Framing

Messages over a byte stream.  Both receiving loops take what one `recv` returns
for one message: the child of the server in `handle_client`, and the thread of
the client in `receive_messages`.  A chunk that is shorter than a message is
stored over the beginning of the previous one, and everything after it is read
at the wrong offset.
-/

namespace Reti.ChatTcpGold

open CStr

/-! ## the receiving loops -/

/-- `handle_client`: the messages it passes to `broadcast_message`, given what the
struct holds and what the successive `recv` calls return. -/
def handleClient (msg : Message) : List RecvRet → List Message
  | [] => []
  | .error :: _ => []
  | .closed :: _ => []
  | .data chunk :: rs => msg.fill chunk :: handleClient (msg.fill chunk) rs

/-- What `printf("[%s][%s]: %s\n", ..)` prints of a message.  A `%s` reads up to the
first NUL, so an array without one runs on into the members after it. -/
def Message.printed (m : Message) : List UInt8 :=
  ascii "[" ++ cstr (m.mem.bytes.drop 32) ++ ascii "][" ++ cstr m.mem.bytes ++ ascii "]: " ++
    cstr (m.mem.bytes.drop 64) ++ ascii "\n"

/-- `receive_messages` of the client: what it prints.  An error is ignored, the
end of the connection ends the program. -/
def receiveMessages (msg : Message) : List RecvRet → List (List UInt8)
  | [] => []
  | .error :: rs => receiveMessages msg rs
  | .closed :: _ => [ascii "Server disconnected.\n"]
  | .data chunk :: rs => (msg.fill chunk).printed :: receiveMessages (msg.fill chunk) rs

/-- The child of `c` in the process model runs `handle_client`: as long as nothing
breaks its loop off, it broadcasts the messages that `handle_client` passes on. -/
theorem run_recv_eq_handleClient {s : State} {c : Nat} {child : Child}
    (hchild : s.children c = some child) (chunks : List (List UInt8)) :
    (Transducer.run step s (chunks.map fun chunk => .recv c chunk [])).2 =
      (handleClient child.msg (chunks.map .data)).flatMap fun m =>
        (broadcastMessage child.clients m []).1 := by
  induction chunks generalizing s child with
  | nil => rfl
  | cons chunk chunks ih =>
      have hnext : (step s (.recv c chunk [])).1.children c =
          some ⟨child.clients, child.msg.fill chunk,
            (broadcastMessage child.clients (child.msg.fill chunk) []).2⟩ := by
        simp [step, hchild, handleChunk]
      rw [List.map_cons, Transducer.run_cons_snd, ih hnext]
      simp [step, hchild, handleChunk, handleClient]

/-! ## one chunk, one message -/

theorem length_handleClient (msg : Message) (chunks : List (List UInt8)) :
    (handleClient msg (chunks.map .data)).length = chunks.length := by
  induction chunks generalizing msg with
  | nil => rfl
  | cons chunk chunks ih => simp [handleClient, ih]

/-- The client prints what the server would broadcast. -/
theorem receiveMessages_eq (msg : Message) (chunks : List (List UInt8)) :
    receiveMessages msg (chunks.map .data) =
      (handleClient msg (chunks.map .data)).map Message.printed := by
  induction chunks generalizing msg with
  | nil => rfl
  | cons chunk chunks ih => simp [receiveMessages, handleClient, ih]

/-- Whole messages are received as they were sent, whatever the struct held. -/
theorem handleClient_whole (msg : Message) (sent : List Message) :
    handleClient msg (sent.map fun m => .data m.mem.bytes) = sent := by
  induction sent generalizing msg with
  | nil => rfl
  | cons m sent ih => rw [List.map_cons, handleClient, Message.fill_whole, ih]

theorem sizeof_of_mem_map {sent : List Message} {c : List UInt8}
    (hc : c ∈ sent.map fun m => m.mem.bytes) : c.length = sizeofMessage := by
  obtain ⟨m, -, rfl⟩ := List.mem_map.mp hc
  exact m.mem.length_eq

/-- If as many chunks arrive as messages were sent, each chunk is a whole message. -/
theorem whole_of_length {sent : List Message} {chunks : List (List UInt8)}
    (hcut : chunks.flatten = (sent.map fun m => m.mem.bytes).flatten)
    (hle : ∀ c ∈ chunks, c.length ≤ sizeofMessage) (hlen : chunks.length = sent.length) :
    ∀ c ∈ chunks, c.length = sizeofMessage := by
  refine Chunks.full_of_length_flatten hle ?_
  rw [hcut, Chunks.length_flatten_of_full (fun _ hc => sizeof_of_mem_map hc), List.length_map, hlen]

/-- If each chunk is a whole message, the chunks are the messages sent. -/
theorem chunks_eq_of_whole {sent : List Message} {chunks : List (List UInt8)}
    (hcut : chunks.flatten = (sent.map fun m => m.mem.bytes).flatten)
    (hwhole : ∀ c ∈ chunks, c.length = sizeofMessage) :
    chunks = sent.map fun m => m.mem.bytes :=
  Chunks.eq_of_flatten_eq (by decide) hwhole (fun _ hc => sizeof_of_mem_map hc) hcut

/-- **Framing**: for every cut of a stream of messages into chunks of at most
`sizeof(struct Message)` bytes, the server passes on exactly the messages sent
if and only if every chunk is a whole message, and so does the client print
them. -/
theorem framing_iff {sent : List Message} {chunks : List (List UInt8)}
    (hcut : chunks.flatten = (sent.map fun m => m.mem.bytes).flatten)
    (hle : ∀ c ∈ chunks, c.length ≤ sizeofMessage) (msg : Message) :
    (handleClient msg (chunks.map .data) = sent ↔ ∀ c ∈ chunks, c.length = sizeofMessage) ∧
      (receiveMessages msg (chunks.map .data) = sent.map Message.printed ↔
        ∀ c ∈ chunks, c.length = sizeofMessage) := by
  have hwhole : (∀ c ∈ chunks, c.length = sizeofMessage) →
      handleClient msg (chunks.map .data) = sent := by
    intro h
    rw [chunks_eq_of_whole hcut h, List.map_map]
    exact handleClient_whole msg sent
  refine ⟨⟨?_, hwhole⟩, ⟨?_, ?_⟩⟩
  · intro h
    exact whole_of_length hcut hle (by rw [← length_handleClient msg chunks, h])
  · intro h
    have hlen := congrArg List.length h
    rw [receiveMessages_eq, List.length_map, length_handleClient, List.length_map] at hlen
    exact whole_of_length hcut hle hlen
  · intro h
    rw [receiveMessages_eq, hwhole h]

/-- Two messages, each in one chunk. -/
theorem framing_two :
    let anna : Message := ⟨(Buf.zero 32).fill (ascii "anna"), (Buf.zero 32).fill (ascii "12:00"),
      (Buf.zero messageLen).fill (ascii "ciao")⟩
    let bruno : Message := ⟨(Buf.zero 32).fill (ascii "bruno"), (Buf.zero 32).fill (ascii "12:01"),
      (Buf.zero messageLen).fill (ascii "ciao, anna")⟩
    handleClient blank [.data anna.mem.bytes, .data bruno.mem.bytes] = [anna, bruno] ∧
      receiveMessages blank [.data anna.mem.bytes, .data bruno.mem.bytes] =
        [ascii "[12:00][anna]: ciao\n", ascii "[12:01][bruno]: ciao, anna\n"] := by
  intro anna bruno
  have h := @framing_iff [anna, bruno] [anna.mem.bytes, bruno.mem.bytes] rfl (by decide +kernel)
    blank
  have hprinted : receiveMessages blank [.data anna.mem.bytes, .data bruno.mem.bytes] =
      [anna, bruno].map Message.printed := h.2.mpr (by decide +kernel)
  exact ⟨h.1.mpr (by decide +kernel), hprinted.trans (by decide +kernel)⟩

/-- One message in two halves is passed on twice, the first time half filled. -/
theorem halves_received_twice :
    let m : Message := ⟨(Buf.zero 32).fill (ascii "anna"), Buf.zero 32,
      (Buf.zero messageLen).fill (ascii "ciao")⟩
    [m.mem.bytes.take 64, m.mem.bytes.drop 64].flatten = m.mem.bytes ∧
      handleClient blank [.data (m.mem.bytes.take 64), .data (m.mem.bytes.drop 64)] =
        [⟨(Buf.zero 32).fill (ascii "anna"), Buf.zero 32, Buf.zero messageLen⟩,
          ⟨(Buf.zero 32).fill (ascii "ciao"), Buf.zero 32, Buf.zero messageLen⟩] ∧
      handleClient blank [.data (m.mem.bytes.take 64), .data (m.mem.bytes.drop 64)] ≠ [m] := by
  decide +kernel

end Reti.ChatTcpGold
