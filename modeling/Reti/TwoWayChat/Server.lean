import Reti.Net
import Reti.Lib.CString
import Reti.Lib.Transducer

/-!
# Reti.TwoWayChat.Server

The two-way TCP chat (`TCP/sv_2waychat.c`).  The parent accepts clients and forks
a child for each, which writes what its client sends to a pipe; one more process,
forked when the first client has come, reads the pipe and sends to the clients it
finds in its copy of `sockfd_arr`.

A process is what it holds: the parent its array, a child whether it still
serves its client, the broadcaster the array as it was when it was forked and the
one connection that was open then.  Where an array of characters holds no NUL, the
byte behind it is taken to be one.  A failing `accept` ends the parent; it is a
run in which no client comes any more.
-/

namespace Reti.TwoWayChat

open CStr

def maxClients : Nat := 100

/-- `sizeof(buffer)`. -/
def bufferSize : Nat := 1024

/-! ## processes -/

/-- A client that was accepted, under the descriptor the parent got for it, and
whether its child still serves it. -/
structure Client where
  connfd : Int
  connected : Bool
  deriving DecidableEq, Repr

/-- The broadcaster: its copy of `sockfd_arr`, and the one client whose connection
was open when it was forked. -/
structure Broadcaster where
  sockfdArr : List Int
  connfd : Int
  client : Nat
  deriving DecidableEq, Repr

/-- The client that a descriptor stands for in the broadcaster. -/
def Broadcaster.clientOf (b : Broadcaster) (fd : Int) : Option Nat :=
  if fd = b.connfd then some b.client else none

structure Sys where
  sockfdArr : List Int
  initialized : Bool
  clients : List Client
  broadcaster : Option Broadcaster
  pipe : List UInt8
  deriving DecidableEq, Repr

/-- `int sockfd_arr[100] = {-1}`: the cells after the first are zero. -/
def Sys.init : Sys where
  sockfdArr := -1 :: List.replicate (maxClients - 1) 0
  initialized := false
  clients := []
  broadcaster := none
  pipe := []

/-- What can happen next: a client is accepted under the descriptor `connfd`, with
the outcomes of the two calls of `fork`; the child of a client returns from `recv`;
the broadcaster returns from `read` with `n` bytes. -/
inductive Event where
  | accept (connfd : Int) (broadcasterForked childForked : Bool)
  | recv (client : Nat) (ret : RecvRet)
  | read (n : Nat)
  deriving DecidableEq, Repr

/-- A block handed to `send` by the broadcaster. -/
structure Sent where
  fd : Int
  block : List UInt8
  deriving DecidableEq, Repr

/-- What is seen of a step: a text the broadcaster takes for a message, and what it
sends. -/
inductive Output where
  | message (text : List UInt8)
  | sent (s : Sent)
  deriving DecidableEq, Repr

/-- When an event can happen.  Descriptor 0 is open from the start, or is the end of
the pipe that `pipe` opens first, so `accept` never returns it. -/
def Enabled (s : Sys) : Event → Prop
  | .accept connfd _ _ => 0 < connfd
  | .recv i ret => s.clients[i]?.any Client.connected = true ∧ ret.Fits bufferSize
  | .read n => s.broadcaster ≠ none ∧ 0 < n ∧ n ≤ bufferSize ∧ n ≤ s.pipe.length

instance (s : Sys) : (e : Event) → Decidable (Enabled s e)
  | .accept connfd _ _ => inferInstanceAs (Decidable (0 < connfd))
  | .recv _ _ => inferInstanceAs (Decidable (_ ∧ _))
  | .read _ => inferInstanceAs (Decidable (_ ∧ _ ∧ _ ∧ _))

/-! ## one step -/

/-- What a child writes to the pipe of what it has received: the string without its
last character. -/
def line (chunk : List UInt8) : List UInt8 := ((Buf.zero bufferSize).fill chunk).text.dropLast

/-- The loop over the array.  `snprintf` writes to the buffer it reads from, which
the standard leaves undefined: `format` is what it does to the buffer. -/
def broadcastLoop (format : Buf bufferSize → Buf bufferSize) (buffer : Buf bufferSize) :
    List Int → List Sent
  | [] => []
  | fd :: fds =>
    if fd = -1 then
      broadcastLoop format buffer fds
    else
      ⟨fd, (format buffer).bytes⟩ :: broadcastLoop format (format buffer) fds

/-- The buffer that `n` bytes of the pipe are read into. -/
def Sys.readBuffer (s : Sys) (n : Nat) : Buf bufferSize :=
  (Buf.zero bufferSize).fill (s.pipe.take n)

/-- What the broadcaster sends when it has read `n` bytes. -/
def Sys.broadcast (format : Buf bufferSize → Buf bufferSize) (s : Sys) (n : Nat) : List Sent :=
  match s.broadcaster with
  | some b => broadcastLoop format (s.readBuffer n) b.sockfdArr
  | none => []

/-- The client's child no longer serves it. -/
def leave (clients : List Client) (i : Nat) : List Client :=
  clients.modify i fun c => { c with connected := false }

/-- A failed `recv` returns -1, which is not 0: the child goes on with an empty
buffer and writes nothing. -/
def step (format : Buf bufferSize → Buf bufferSize) (s : Sys) : Event → Sys × List Output
  | .accept connfd broadcasterForked childForked =>
    let sockfdArr := s.sockfdArr.replace (-1) connfd
    let broadcaster :=
      if s.initialized then s.broadcaster
      else if broadcasterForked then some ⟨sockfdArr, connfd, s.clients.length⟩
      else none
    (⟨sockfdArr, true, s.clients ++ [⟨connfd, childForked⟩], broadcaster, s.pipe⟩, [])
  | .recv _ .error => (s, [])
  | .recv i .closed => ({ s with clients := leave s.clients i }, [])
  | .recv i (.data chunk) =>
    ({ s with
        clients := if line chunk = ascii "exit" then leave s.clients i else s.clients
        pipe := s.pipe ++ line chunk },
      [])
  | .read n =>
    ({ s with pipe := s.pipe.drop n },
      .message (s.readBuffer n).text :: (s.broadcast format n).map .sent)

end Reti.TwoWayChat
