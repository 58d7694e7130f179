import Reti.Net
import Reti.Lib.CString
import Reti.Lib.Transducer
import Mathlib.Logic.Function.Basic

/-!
# Reti.SquareSum.System

The UDP server for the sum of two squares (`squarerootsum/UDP_server_pow.c`) and the
clients that use it: a client sends a number, waits for `Insert second number`, sends
the second one and waits for the answer.

Each of the two `recvfrom` calls of the server takes a datagram from anybody.  The
network delivers the datagrams of all clients in any order, each at most once.  The
powers are computed in floating point and are left out: a round is the pair of numbers
they are computed from.
-/

namespace Reti.SquareSum

open CStr

/-- `BUFSIZ`. -/
def bufsiz : Nat := 8192

def secondQuery : List UInt8 := ascii "Insert second number"

/-! ## clients -/

/-- Which of its two numbers a client sends. -/
inductive Place where
  | first
  | second
  deriving DecidableEq, Repr

/-- What a client does next: send its first number, wait for the query, send its
second number, wait for the answer. -/
inductive Phase where
  | idle
  | awaitsQuery
  | queried
  | awaitsAnswer
  deriving DecidableEq, Repr

/-- A number on its way to the server.  Only the text is in the datagram. -/
structure Number where
  text : List UInt8
  place : Place
  deriving DecidableEq, Repr

/-- A client, with the datagrams on the way from it and to it. -/
structure Client where
  phase : Phase
  out : List Number
  replies : List (List UInt8)
  deriving DecidableEq, Repr

namespace Client

def init : Client := ⟨.idle, [], []⟩

/-- The phase after a reply, which does nothing to a client that waits for the query
unless it is the query. -/
def heard (phase : Phase) (reply : List UInt8) : Phase :=
  match phase with
  | .awaitsQuery => if reply = secondQuery then .queried else .awaitsQuery
  | .awaitsAnswer => .idle
  | phase => phase

end Client

/-! ## the server -/

/-- A number the server has read, with the client it came from; which of the client's
numbers it was is not known to the program. -/
structure Operand where
  client : SockaddrIn
  place : Place
  value : Int
  deriving DecidableEq, Repr

/-- The server: blocked in the first or in the second `recvfrom`, or left. -/
inductive Server where
  | first
  | second (x : Operand)
  | closed
  deriving DecidableEq, Repr

/-- A round: the numbers the result is computed from, and the answer. -/
structure Round where
  x : Operand
  y : Operand
  answer : Packet
  deriving DecidableEq, Repr

/-- `readLine` after `bzero` and `recvfrom`. -/
def readLine (text : List UInt8) : Buf bufsiz := (Buf.zero bufsiz).fill text

/-- The number in it, once a NUL has been stored behind what was received. -/
def operand (c : SockaddrIn) (n : Number) : Operand :=
  ⟨c, n.place, atoi ((readLine n.text).store n.text.length 0).text⟩

/-! ## the system -/

structure Sys where
  server : Server
  clients : SockaddrIn → Client

def Sys.init : Sys := ⟨.first, fun _ => .init⟩

/-- What can happen next: a client sends a number; the `i`-th datagram on the way from
a client reaches the server, or the `i`-th one on the way to it the client; one of them
is lost.  A round ends with the line that is typed at the server. -/
inductive Event where
  | send (c : SockaddrIn) (text : List UInt8)
  | arrive (c : SockaddrIn) (i : Nat) (line : List UInt8)
  | reply (c : SockaddrIn) (i : Nat)
  | lose (c : SockaddrIn) (i : Nat)
  | loseReply (c : SockaddrIn) (i : Nat)
  deriving DecidableEq, Repr

/-- A client sends and receives only as the protocol has it. -/
def Enabled (s : Sys) : Event → Prop
  | .send c _ => (s.clients c).phase = .idle ∨ (s.clients c).phase = .queried
  | .arrive c i _ => i < (s.clients c).out.length
  | .reply c i =>
    i < (s.clients c).replies.length ∧
      ((s.clients c).phase = .awaitsQuery ∨ (s.clients c).phase = .awaitsAnswer)
  | .lose c i => i < (s.clients c).out.length
  | .loseReply c i => i < (s.clients c).replies.length

instance (s : Sys) : (e : Event) → Decidable (Enabled s e)
  | .send _ _ => inferInstanceAs (Decidable (_ ∨ _))
  | .arrive _ _ _ => inferInstanceAs (Decidable (_ < _))
  | .reply _ _ => inferInstanceAs (Decidable (_ ∧ _))
  | .lose _ _ => inferInstanceAs (Decidable (_ < _))
  | .loseReply _ _ => inferInstanceAs (Decidable (_ < _))

/-- The client sends the number that is due. -/
def Client.send (k : Client) (text : List UInt8) : Client :=
  match k.phase with
  | .idle => { k with phase := .awaitsQuery, out := k.out ++ [⟨text, .first⟩] }
  | .queried => { k with phase := .awaitsAnswer, out := k.out ++ [⟨text, .second⟩] }
  | _ => k

/-- The server returns from `recvfrom` with a datagram of `c`: what it does up to the
next one, what it sends back to `c`, and the round, if one ends. -/
def serve (server : Server) (c : SockaddrIn) (n : Number) (line : List UInt8) :
    Server × List (List UInt8) × List Round :=
  match server with
  | .first =>
    if (readLine n.text).text = ascii "close\n" then (.closed, [], [])
    else (.second (operand c n), [secondQuery], [])
  | .second x => (.first, [cstr line], [⟨x, operand c n, ⟨c, cstr line⟩⟩])
  | .closed => (.closed, [], [])

def step (s : Sys) : Event → Sys × List Round
  | .send c text =>
    ({ s with clients := Function.update s.clients c ((s.clients c).send text) }, [])
  | .arrive c i line =>
    match (s.clients c).out[i]? with
    | none => (s, [])
    | some n =>
      let k := s.clients c
      let (server, replies, rounds) := serve s.server c n line
      let k := { k with out := k.out.eraseIdx i, replies := k.replies ++ replies }
      (⟨server, Function.update s.clients c k⟩, rounds)
  | .reply c i =>
    match (s.clients c).replies[i]? with
    | none => (s, [])
    | some r =>
      let k := s.clients c
      let k := { k with phase := Client.heard k.phase r, replies := k.replies.eraseIdx i }
      ({ s with clients := Function.update s.clients c k }, [])
  | .lose c i =>
    let k := s.clients c
    ({ s with clients := Function.update s.clients c { k with out := k.out.eraseIdx i } }, [])
  | .loseReply c i =>
    let k := s.clients c
    let k := { k with replies := k.replies.eraseIdx i }
    ({ s with clients := Function.update s.clients c k }, [])

end Reti.SquareSum
