import Reti.Lib.CString
import Reti.Lib.Transducer

/-!
# Reti.AlternatingChat.System

The alternating TCP chat (`28_11/GPT/tcp_server.c` and `28_11/GPT/tcp_client.c`).  The
two programs run the same loop and start it at different places: the client types,
the server receives.  Each has one buffer, which it types into, sends whole, and
receives into.

The blocks of 1024 bytes arrive whole and in order.  When the other side has closed,
`recv` returns 0 and leaves the buffer alone, and its result is not looked at.
-/

namespace Reti.AlternatingChat

open CStr

def maxBufferSize : Nat := 1024

def stopCmd : List UInt8 := ascii "STOP\n"

/-! ## the two programs -/

/-- Where a program is: at `fgets`, at `recv`, or returned with its sockets closed. -/
inductive Pc where
  | types
  | receives
  | returned
  deriving DecidableEq, Repr

/-- A program: how many items it has read from its keyboard, and what it has printed. -/
structure Process where
  pc : Pc
  buffer : Buf maxBufferSize
  typed : Nat
  printed : List (List UInt8)
  deriving DecidableEq, Repr

namespace Process

def client (buffer : Buf maxBufferSize) : Process := ⟨.types, buffer, 0, []⟩

def server (buffer : Buf maxBufferSize) : Process := ⟨.receives, buffer, 0, []⟩

/-- `fgets` of the next item; the buffer is then sent. -/
def type (p : Process) (items : Nat → List UInt8) : Process :=
  { p with
    pc := .receives
    buffer := p.buffer.fill (items p.typed ++ [0])
    typed := p.typed + 1 }

/-- `recv` of a block, or of nothing; what is in the buffer is printed and compared with
`STOP`. -/
def receive (p : Process) (block : Option (Buf maxBufferSize)) : Process :=
  let buffer :=
    match block with
    | some b => p.buffer.fill b.bytes
    | none => p.buffer
  { p with
    pc := if buffer.text = stopCmd then .returned else .types
    buffer := buffer
    printed := p.printed ++ [buffer.text] }

end Process

/-! ## the system -/

structure Sys where
  client : Process
  server : Process
  toServer : List (Buf maxBufferSize)
  toClient : List (Buf maxBufferSize)
  deriving DecidableEq, Repr

/-- The connection is made; the buffers hold anything. -/
def Sys.init (clientBuffer serverBuffer : Buf maxBufferSize) : Sys :=
  ⟨.client clientBuffer, .server serverBuffer, [], []⟩

/-- Which program takes the next step. -/
inductive Side where
  | client
  | server
  deriving DecidableEq, Repr

/-- A program that has returned takes no step, and `recv` waits for a block or for the
other side to close. -/
def ready (p : Process) (inbox : List (Buf maxBufferSize)) (peer : Process) : Prop :=
  match p.pc with
  | .types => True
  | .receives => inbox ≠ [] ∨ peer.pc = .returned
  | .returned => False

instance (p : Process) (inbox : List (Buf maxBufferSize)) (peer : Process) :
    Decidable (ready p inbox peer) := by
  unfold ready
  split <;> infer_instance

def Enabled (s : Sys) : Side → Prop
  | .client => ready s.client s.toClient s.server
  | .server => ready s.server s.toServer s.client

instance (s : Sys) : (e : Side) → Decidable (Enabled s e)
  | .client => inferInstanceAs (Decidable (ready _ _ _))
  | .server => inferInstanceAs (Decidable (ready _ _ _))

-- the items typed at the two keyboards
variable (clientItems serverItems : Nat → List UInt8)

/-- A step has no outputs: what is printed is in the state. -/
def step (s : Sys) : Side → Sys × List Empty
  | .client =>
    match s.client.pc with
    | .types =>
      let client := s.client.type clientItems
      ({ s with client := client, toServer := s.toServer ++ [client.buffer] }, [])
    | .receives =>
      ({ s with
          client := s.client.receive s.toClient.head?
          toClient := s.toClient.tail },
        [])
    | .returned => (s, [])
  | .server =>
    match s.server.pc with
    | .types =>
      let server := s.server.type serverItems
      ({ s with server := server, toClient := s.toClient ++ [server.buffer] }, [])
    | .receives =>
      ({ s with
          server := s.server.receive s.toServer.head?
          toServer := s.toServer.tail },
        [])
    | .returned => (s, [])

end Reti.AlternatingChat
