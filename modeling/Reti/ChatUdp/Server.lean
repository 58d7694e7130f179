import Reti.Net
import Reti.Lib.CString
import Reti.Lib.KeyTable

/-!
# Reti.ChatUdp.Server

The message struct of the UDP chat (`chat_udp/sv_chat.h`) and its server
(`sv_chat.c`): one iteration receives a struct, registers the sender and
forwards the struct, whole, to everybody else.

The state is taken between two iterations.  `client` and `MSGbuffer` belong to it
because a failed `recvfrom` leaves both as they are.  The length that `recvfrom`
reports for an address is always that of a `struct sockaddr_in` and is left out.
-/

namespace Reti.ChatUdp

open CStr

/-! ## messages -/

@[ext] structure Message where
  sender : Buf 64
  content : Buf 2048
  deriving DecidableEq, Repr

/-- `sizeof(Message)`. -/
abbrev sizeofMessage : Nat := 64 + 2048

namespace Message

/-- The struct as the memory it occupies. -/
def mem (m : Message) : Buf sizeofMessage := m.sender.append m.content

def ofMem (b : Buf sizeofMessage) : Message := ⟨b.left, b.right⟩

/-- `bzero(m, sizeof(Message))`. -/
def zero : Message := ⟨Buf.zero 64, Buf.zero 2048⟩

/-- `recvfrom` into the struct: the first bytes are overwritten, the others stay. -/
def fill (m : Message) (payload : List UInt8) : Message := ofMem (m.mem.fill payload)

theorem mem_ofMem (b : Buf sizeofMessage) : (ofMem b).mem = b := Buf.append_left_right b

/-- A datagram as long as the struct replaces what it held. -/
theorem bytes_fill_whole (m : Message) {payload : List UInt8} (h : payload.length = sizeofMessage) :
    (m.fill payload).mem.bytes = payload := by
  rw [fill, mem_ofMem, m.mem.bytes_fill_of_length h]

/-- What `%s` prints of `sender`: it reads up to the first NUL, on into `content`
if there is none in the array. -/
def senderText (m : Message) : List UInt8 := cstr m.mem.bytes

/-- What `%s` prints of `content`. -/
def contentText (m : Message) : List UInt8 := cstr (m.mem.bytes.drop 64)

end Message

/-! ## the server -/

def maxClients : Nat := 100

structure ClientInfo where
  addr : SockaddrIn
  deriving DecidableEq, Repr

/-- The server between two iterations: the live entries of `clients`, the last
sender and the receive buffer. -/
structure Server where
  clients : List ClientInfo
  client : SockaddrIn
  msgBuffer : Message
  deriving DecidableEq, Repr

/-- The server at the head of the loop for the first time; neither `client` nor
the block that `malloc` returns is initialised. -/
def Server.init (client : SockaddrIn) (msgBuffer : Message) : Server := ⟨[], client, msgBuffer⟩

/-- The comparison of an entry with `client` that both loops make. -/
def isClient (c : ClientInfo) (client : SockaddrIn) : Bool :=
  c.addr.sinAddr = client.sinAddr ∧ c.addr.sinPort = client.sinPort

/-- The entries after `client` has been looked for, and added if it is missing and
there is room. -/
def register (clients : List ClientInfo) (client : SockaddrIn) : List ClientInfo :=
  if ¬clients.any (fun c => isClient c client) ∧ clients.length < maxClients then
    clients ++ [⟨client⟩]
  else
    clients

/-- `sendto` of the whole struct to every entry but the sender's. -/
def forward (clients : List ClientInfo) (msg : Message) (client : SockaddrIn) : List Packet :=
  (clients.filter fun c => ¬isClient c client).map fun c => ⟨c.addr, msg.mem.bytes⟩

/-- `MSGbuffer` after `recvfrom`. -/
def Server.received (s : Server) : Recv → Message
  | .failed => s.msgBuffer
  | .got d => s.msgBuffer.fill d.payload

/-- `client` after `recvfrom`. -/
def Server.sender (s : Server) : Recv → SockaddrIn
  | .failed => s.client
  | .got d => d.src

/-- One iteration of `while (1)`; it ends by clearing the buffer. -/
def iteration (s : Server) (r : Recv) : Server × List Packet :=
  let msg := s.received r
  let client := s.sender r
  let clients := register s.clients client
  (⟨clients, client, Message.zero⟩, forward clients msg client)

def ClientInfo.endpoint (c : ClientInfo) : UInt32 × UInt16 := c.addr.endpoint

theorem isClient_eq (c : ClientInfo) (client : SockaddrIn) :
    isClient c client = decide (c.endpoint = client.endpoint) := by
  simp [isClient, ClientInfo.endpoint, SockaddrIn.endpoint]

/-- The inline loop is the roster operation of the endpoint table. -/
theorem register_eq_join (clients : List ClientInfo) (client : SockaddrIn) :
    register clients client = KeyTable.join ClientInfo.endpoint maxClients clients ⟨client⟩ := by
  have hkey : ClientInfo.endpoint ⟨client⟩ = client.endpoint := rfl
  simp only [register, KeyTable.join, isClient_eq, hkey]
  by_cases hk : clients.any fun c => decide (c.endpoint = client.endpoint)
  · rw [if_neg (by simp [hk]), if_pos hk]
  · by_cases hroom : clients.length < maxClients
    · rw [if_pos ⟨hk, hroom⟩, if_neg hk, if_pos hroom]
    · rw [if_neg (fun h => hroom h.2), if_neg hk, if_neg hroom]

/-- Whatever a whole struct is received over, its bytes are what is forwarded. -/
theorem text_of_mem_forward {s : Server} {d : Datagram} (h : d.payload.length = sizeofMessage)
    {p : Packet} (hp : p ∈ (iteration s (.got d)).2) : p.text = d.payload := by
  obtain ⟨c, -, rfl⟩ := List.mem_map.mp hp
  exact s.msgBuffer.bytes_fill_whole h

end Reti.ChatUdp
