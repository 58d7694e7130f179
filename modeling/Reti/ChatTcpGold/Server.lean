import Reti.Lib.CString
import Reti.Lib.Transducer

/-!
# Reti.ChatTcpGold.Server

The TCP chat server that forks a child for every client (`chat_TCP_gold/src/ds.c`).

The array `clients` exists once in every process.  The parent writes it when it
accepts a client; a child gets the copy that `fork` makes, reads it to broadcast
and clears its own client's slot in it before it exits.  The state therefore
holds the parent's array and, for each child, the child's.

The parent never closes a client's descriptor, so the descriptor of a client is
never used again and names the client for good.
-/

namespace Reti.ChatTcpGold

open CStr

def maxClients : Nat := 5

def messageLen : Nat := 64

/-! ## messages -/

@[ext] structure Message where
  username : Buf 32
  timestamp : Buf 32
  message : Buf messageLen
  deriving DecidableEq, Repr

/-- `sizeof(struct Message)`; there is no padding between arrays of `char`. -/
abbrev sizeofMessage : Nat := 32 + 32 + messageLen

namespace Message

/-- The struct as the memory it occupies. -/
def mem (m : Message) : Buf sizeofMessage := (m.username.append m.timestamp).append m.message

def ofMem (b : Buf sizeofMessage) : Message := ⟨b.left.left, b.left.right, b.right⟩

/-- `recv` into the struct: the first bytes are overwritten, the others stay. -/
def fill (m : Message) (chunk : List UInt8) : Message := ofMem (m.mem.fill chunk)

theorem ofMem_mem (m : Message) : ofMem m.mem = m := by
  simp [ofMem, mem]

/-- A whole message received replaces what the struct held. -/
theorem fill_whole (m m' : Message) : m.fill m'.mem.bytes = m' := by
  rw [fill, Buf.fill_bytes, ofMem_mem]

theorem mem_ofMem (b : Buf sizeofMessage) : (ofMem b).mem = b := by
  simp [ofMem, mem]

end Message

/-- A message whose arrays all hold the empty string. -/
def blank : Message := ⟨Buf.zero 32, Buf.zero 32, Buf.zero messageLen⟩

/-! ## the array of slots -/

/-- `int clients[MAX_CLIENTS]`: descriptors, `0` in a free slot. -/
@[ext] structure Slots where
  fds : List Nat
  length_eq : fds.length = maxClients
  deriving DecidableEq, Repr

namespace Slots

/-- `{0}`. -/
def init : Slots := ⟨List.replicate maxClients 0, List.length_replicate⟩

/-- Store a descriptor in the first free slot, if there is one. -/
def take (s : Slots) (fd : Nat) : Slots :=
  ⟨s.fds.replace 0 fd, by rw [List.length_replace, s.length_eq]⟩

/-- Zero the first slot that holds the descriptor. -/
def clear (s : Slots) (fd : Nat) : Slots :=
  ⟨s.fds.replace fd 0, by rw [List.length_replace, s.length_eq]⟩

end Slots

/-- A message handed to `send`, with the descriptor it goes to. -/
structure Sent where
  fd : Nat
  msg : Message
  deriving DecidableEq, Repr

/-- The loop of `broadcast_message` over the slots.  Writing to a descriptor in
`broken` raises SIGPIPE, which ends the process; the second component says
whether it is still running after the loop. -/
def broadcastLoop (msg : Message) (broken : List Nat) : List Nat → List Sent × Bool
  | [] => ([], true)
  | fd :: fds =>
    if fd ≠ 0 then
      if fd ∈ broken then ([], false)
      else (⟨fd, msg⟩ :: (broadcastLoop msg broken fds).1, (broadcastLoop msg broken fds).2)
    else broadcastLoop msg broken fds

def broadcastMessage (clients : Slots) (msg : Message) (broken : List Nat) : List Sent × Bool :=
  broadcastLoop msg broken clients.fds

/-! ## processes -/

/-- A child: its copy of `clients`, the struct it receives into, and whether it
has not exited yet. -/
structure Child where
  clients : Slots
  msg : Message
  running : Bool
  deriving DecidableEq, Repr

/-- The server's processes.  `clients` is the parent's array and `children` the
child, if any, that serves a descriptor.  The other fields are not stored by the
program: the descriptors `accept` has returned, in order, the clients that have
closed their end of the connection, and the clients whose child has run the
branch of `handle_client` for a client that disconnected. -/
structure State where
  clients : Slots
  children : Nat → Option Child
  accepted : List Nat
  gone : List Nat
  disconnected : List Nat

def State.init : State := ⟨Slots.init, fun _ => none, [], [], []⟩

/-- What can happen next.  `accept` carries what the new child's stack holds
where it keeps its struct. -/
inductive Event where
  | accept (fd : Nat) (forkOk : Bool) (stack : Message)
  | acceptFailed
  | recv (c : Nat) (chunk : List UInt8) (broken : List Nat)
  | hangup (c : Nat)
  | eof (c : Nat)
  deriving DecidableEq, Repr

/-- The child of `c` exists and has not exited. -/
def State.Serves (s : State) (c : Nat) : Prop := ∃ child, s.children c = some child ∧ child.running

instance (s : State) (c : Nat) : Decidable (s.Serves c) :=
  match h : s.children c with
  | none => isFalse (by rintro ⟨child, hc, -⟩; rw [h] at hc; cases hc)
  | some child =>
    decidable_of_iff (child.running = true)
      ⟨fun hr => ⟨child, h, hr⟩, by rintro ⟨child', hc, hr⟩; rw [h] at hc; cases hc; exact hr⟩

/-- An event that the kernel can deliver: `accept` returns a descriptor that is
not open and not 0, a chunk has between 1 and `sizeof(struct Message)` bytes,
and SIGPIPE is raised only for connections that the client has closed. -/
def Event.Possible (s : State) : Event → Prop
  | accept fd _ _ => fd ≠ 0 ∧ fd ∉ s.accepted
  | acceptFailed => True
  | recv c chunk broken => s.Serves c ∧ 0 < chunk.length ∧ chunk.length ≤ sizeofMessage ∧
      ∀ x ∈ broken, x ∈ s.gone
  | hangup c => c ∈ s.accepted
  | eof c => s.Serves c

instance (s : State) : (e : Event) → Decidable (e.Possible s)
  | .accept _ _ _ => inferInstanceAs (Decidable (_ ∧ _))
  | .acceptFailed => inferInstanceAs (Decidable True)
  | .recv _ _ _ => inferInstanceAs (Decidable (_ ∧ _))
  | .hangup c => inferInstanceAs (Decidable (c ∈ s.accepted))
  | .eof c => inferInstanceAs (Decidable (s.Serves c))

/-- The parent after `accept`: the descriptor takes a slot, then `fork` copies
the array. -/
def acceptClient (s : State) (fd : Nat) (forkOk : Bool) (stack : Message) : State :=
  { s with
    clients := s.clients.take fd
    children := if forkOk then Function.update s.children fd (some ⟨s.clients.take fd, stack, true⟩)
      else s.children
    accepted := s.accepted ++ [fd] }

/-- `handle_client` after `recv` has returned a chunk: broadcast the struct. -/
def handleChunk (s : State) (c : Nat) (child : Child) (chunk : List UInt8) (broken : List Nat) :
    State × List Sent :=
  let msg := child.msg.fill chunk
  let sent := broadcastMessage child.clients msg broken
  ({ s with children := Function.update s.children c (some ⟨child.clients, msg, sent.2⟩) }, sent.1)

/-- `handle_client` after `recv` has returned 0 or an error: the child clears the
slot in its copy and exits. -/
def handleEof (s : State) (c : Nat) (child : Child) : State :=
  { s with
    children := Function.update s.children c (some ⟨child.clients.clear c, child.msg, false⟩)
    gone := c :: s.gone
    disconnected := c :: s.disconnected }

/-- One step of the server's processes or of a client. -/
def step (s : State) : Event → State × List Sent
  | .accept fd forkOk stack => (acceptClient s fd forkOk stack, [])
  | .acceptFailed => (s, [])
  | .recv c chunk broken =>
    match s.children c with
    | some child => handleChunk s c child chunk broken
    | none => (s, [])
  | .hangup c => ({ s with gone := c :: s.gone }, [])
  | .eof c =>
    match s.children c with
    | some child => (handleEof s c child, [])
    | none => (s, [])

end Reti.ChatTcpGold
