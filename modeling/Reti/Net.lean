import Mathlib.Data.List.Basic

/-!
# Reti.Net

What the programs see of the network: socket addresses, the outcome of
`recvfrom` and the datagrams handed to `sendto`, and for the TCP programs the
outcome of `recv`.
-/

namespace Reti

/-- `struct sockaddr_in`, with the padding bytes that `memcmp` compares too. -/
structure SockaddrIn where
  sinFamily : UInt16
  sinPort : UInt16
  sinAddr : UInt32
  sinZero : UInt64
  deriving DecidableEq, Repr, Inhabited

/-- Address and port, which is what the chat servers know a client by. -/
def SockaddrIn.endpoint (a : SockaddrIn) : UInt32 × UInt16 := (a.sinAddr, a.sinPort)

/-- A datagram that reaches a server, with the address `recvfrom` reports. -/
structure Datagram where
  src : SockaddrIn
  payload : List UInt8
  deriving DecidableEq, Repr

/-- One return of a blocking `recvfrom`. -/
inductive Recv where
  | failed
  | got (d : Datagram)
  deriving DecidableEq, Repr

namespace Recv

/-- The datagram, if one was received, is shorter than the receive buffer. -/
def Short (n : Nat) : Recv → Prop
  | failed => True
  | got d => d.payload.length < n

instance (n : Nat) : (r : Recv) → Decidable (r.Short n)
  | failed => inferInstanceAs (Decidable True)
  | got d => inferInstanceAs (Decidable (d.payload.length < n))

/-- A datagram of `a` was received. -/
def isFrom (a : SockaddrIn) : Recv → Bool
  | failed => false
  | got d => d.src = a

end Recv

/-- One return of a blocking `recv` on a connection: `-1`, `0`, or some bytes. -/
inductive RecvRet where
  | error
  | closed
  | data (chunk : List UInt8)
  deriving DecidableEq, Repr

namespace RecvRet

/-- What `recv` into a buffer of `n` bytes may return: some bytes that fit, if it
returns any. -/
def Fits (n : Nat) : RecvRet → Prop
  | data chunk => chunk ≠ [] ∧ chunk.length ≤ n
  | _ => True

instance (n : Nat) : (r : RecvRet) → Decidable (r.Fits n)
  | data chunk => inferInstanceAs (Decidable (chunk ≠ [] ∧ chunk.length ≤ n))
  | error => inferInstanceAs (Decidable True)
  | closed => inferInstanceAs (Decidable True)

end RecvRet

/-- A datagram handed to `sendto`. -/
structure Packet where
  dst : SockaddrIn
  text : List UInt8
  deriving DecidableEq, Repr

/-- The texts sent to `a`, in order. -/
def textsTo (a : SockaddrIn) (ps : List Packet) : List (List UInt8) :=
  (ps.filter fun p => p.dst = a).map Packet.text

theorem textsTo_append (a : SockaddrIn) (ps qs : List Packet) :
    textsTo a (ps ++ qs) = textsTo a ps ++ textsTo a qs := by
  simp [textsTo]

end Reti
