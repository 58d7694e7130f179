import Reti.Net
import Reti.Lib.CString
import Reti.Lib.KeyTable
import Reti.Lib.Transducer

/-!
# Reti.Lottery.Server

The UDP lottery server (`lottery_server.c`): the client table with its linear
search, append and swap-with-last removal, and the body of the receive loop.

The state is taken between two iterations of the loop.  Of the global array
`clients` only the live prefix `clients[0 .. client_count - 1]` is kept, so
`client_count` is its length; the entries beyond it are never read.
-/

namespace Reti.Lottery

open CStr

def maxAttempts : Nat := 3

def bufferSize : Nat := 1024

/-- `FD_SETSIZE` of `<sys/select.h>`, the length of the `clients` array. -/
def fdSetSize : Nat := 1024

structure ClientInfo where
  addr : SockaddrIn
  attempts : Nat
  deriving DecidableEq, Repr

/-- The server between two iterations: the live entries of `clients` and the
receive buffer with whatever the last datagram left in it. -/
structure Server where
  clients : List ClientInfo
  buffer : Buf bufferSize
  deriving DecidableEq, Repr

/-- `client_count`. -/
def Server.clientCount (s : Server) : Nat := s.clients.length

/-- The server at the head of the loop for the first time; the buffer is not
initialised. -/
def Server.init (buffer : Buf bufferSize) : Server := ⟨[], buffer⟩

def winMsg : List UInt8 := ascii "Hai indovinato! Congratulazioni!"

def loseMsg : List UInt8 := ascii "Hai esaurito i tentativi. Disconnesso."

def tryAgainMsg : List UInt8 := ascii "Tentativo errato. Ritenta."

/-! ## the client table -/

/-- The index of the entry of `addr`, or `-1`. -/
def findClient (clients : List ClientInfo) (addr : SockaddrIn) : Int :=
  match clients.findIdx? fun c => c.addr = addr with
  | some i => i
  | none => -1

/-- Append an entry for `addr`; a full table is left as it is. -/
def addClient (clients : List ClientInfo) (addr : SockaddrIn) : List ClientInfo :=
  if clients.length < fdSetSize then clients ++ [⟨addr, 0⟩] else clients

def removeClient (clients : List ClientInfo) (index : Int) : List ClientInfo :=
  if 0 ≤ index ∧ index < clients.length then
    KeyTable.swapRemove clients index.toNat
  else
    clients

/-! ## one iteration of the receive loop -/

/-- `client_index` and the table it indexes: the entry found, or else the last
entry after `add_client` (which may have refused to add one). -/
def locate (clients : List ClientInfo) (addr : SockaddrIn) : List ClientInfo × Int :=
  if findClient clients addr = -1 then
    (addClient clients addr, (addClient clients addr).length - 1)
  else
    (clients, findClient clients addr)

/-- `clients[index].attempts++`. -/
def countAttempt (clients : List ClientInfo) (index : Int) : List ClientInfo :=
  clients.modify index.toNat fun c => { c with attempts := c.attempts + 1 }

/-- `clients[index].attempts`. -/
def attemptsAt (clients : List ClientInfo) (index : Int) : Nat :=
  (clients[index.toNat]?.map ClientInfo.attempts).getD 0

/-- Count the attempt, compare the guess, and close the game if it is over:
the new table and the message for the sender. -/
def play (secretNumber guess : Int) (clients : List ClientInfo) (clientIndex : Int) :
    List ClientInfo × List UInt8 :=
  let clients := countAttempt clients clientIndex
  if guess = secretNumber then
    (removeClient clients clientIndex, winMsg)
  else if attemptsAt clients clientIndex ≥ maxAttempts then
    (removeClient clients clientIndex, loseMsg)
  else
    (clients, tryAgainMsg)

/-- The buffer after `recvfrom` and `buffer[recv_len] = '\0'`; at most
`BUFFER_SIZE` bytes are received. -/
def receive (buffer : Buf bufferSize) (payload : List UInt8) : Buf bufferSize :=
  (buffer.fill payload).store (min payload.length bufferSize) 0

/-- One iteration of `while (1)`.  A failed `recvfrom` is skipped. -/
def iteration (secretNumber : Int) (s : Server) : Recv → Server × List Packet
  | .failed => (s, [])
  | .got d =>
    let buffer := receive s.buffer d.payload
    let located := locate s.clients d.src
    let played := play secretNumber (atoi buffer.text) located.1 located.2
    (⟨played.1, buffer⟩, [⟨d.src, played.2⟩])

/-- The states the server passes through between two iterations, for datagrams
shorter than the buffer. -/
inductive Reachable (secretNumber : Int) : Server → Prop
  | init (buffer : Buf bufferSize) : Reachable secretNumber (Server.init buffer)
  | step {s : Server} (r : Recv) : Reachable secretNumber s → r.Short bufferSize →
      Reachable secretNumber (iteration secretNumber s r).1

/-! ## the table as a finite map -/

/-- The attempts the table holds against an address. -/
def attemptsOf (clients : List ClientInfo) (a : SockaddrIn) : Option Nat :=
  (KeyTable.lookup ClientInfo.addr clients a).map ClientInfo.attempts

/-- The table has the entry of `a`, or room to add it: the test of `add_client`
when it is called for `a`. -/
def Room (s : Server) (a : SockaddrIn) : Prop :=
  (attemptsOf s.clients a).isSome ∨ s.clientCount < fdSetSize

instance (s : Server) (a : SockaddrIn) : Decidable (Room s a) :=
  inferInstanceAs (Decidable (_ ∨ _))

theorem attemptsOf_eq_none_iff {clients : List ClientInfo} {a : SockaddrIn} :
    attemptsOf clients a = none ↔ KeyTable.lookup ClientInfo.addr clients a = none :=
  Option.map_eq_none_iff

/-- With pairwise different addresses the map holds exactly the entries. -/
theorem attemptsOf_eq_some_iff {clients : List ClientInfo}
    (hn : KeyTable.Keyed ClientInfo.addr clients) {a : SockaddrIn} {n : Nat} :
    attemptsOf clients a = some n ↔ ⟨a, n⟩ ∈ clients := by
  unfold attemptsOf
  rw [Option.map_eq_some_iff]
  constructor
  · rintro ⟨c, hc, rfl⟩
    obtain ⟨hmem, rfl⟩ := KeyTable.mem_of_lookup hc
    exact hmem
  · intro hmem
    exact ⟨⟨a, n⟩, (KeyTable.lookup_eq_some_iff hn).mpr ⟨hmem, rfl⟩, rfl⟩

theorem attemptsOf_getElem {clients : List ClientInfo}
    (hn : KeyTable.Keyed ClientInfo.addr clients) {i : Nat} (hi : i < clients.length) :
    attemptsOf clients clients[i].addr = some clients[i].attempts :=
  (attemptsOf_eq_some_iff hn).mpr (List.getElem_mem hi)

/-! ## what the table operations do to the map -/

theorem findClient_eq_neg_one_iff {clients : List ClientInfo} {a : SockaddrIn} :
    findClient clients a = -1 ↔ attemptsOf clients a = none := by
  rw [attemptsOf_eq_none_iff, ← KeyTable.findIdx?_eq_none_iff, findClient]
  cases clients.findIdx? fun c => c.addr = a with
  | none => simp
  | some i => simp

/-- A client that is found is found at an index in range. -/
theorem findClient_of_known {clients : List ClientInfo} {a : SockaddrIn}
    (h : attemptsOf clients a ≠ none) :
    ∃ i : Nat, ∃ hi : i < clients.length, clients[i].addr = a ∧ findClient clients a = i := by
  rw [Ne, attemptsOf_eq_none_iff, ← KeyTable.findIdx?_eq_none_iff] at h
  obtain ⟨i, hf⟩ := Option.ne_none_iff_exists'.mp h
  obtain ⟨hi, hk⟩ := KeyTable.getElem_of_findIdx? hf
  exact ⟨i, hi, hk, by rw [findClient, hf]⟩

theorem addr_countAttempt (c : ClientInfo) :
    ClientInfo.addr { c with attempts := c.attempts + 1 } = c.addr := rfl

theorem attemptsOf_countAttempt {clients : List ClientInfo}
    (hn : KeyTable.Keyed ClientInfo.addr clients) {i : Nat} (hi : i < clients.length)
    (k : SockaddrIn) :
    attemptsOf (countAttempt clients i) k =
      if k = clients[i].addr then some (clients[i].attempts + 1) else attemptsOf clients k := by
  unfold attemptsOf countAttempt
  rw [Int.toNat_natCast, KeyTable.lookup_modify addr_countAttempt hn hi]
  split <;> rfl

theorem length_countAttempt (clients : List ClientInfo) (i : Int) :
    (countAttempt clients i).length = clients.length := by
  simp [countAttempt]

theorem keyed_countAttempt {clients : List ClientInfo} (i : Int) :
    KeyTable.Keyed ClientInfo.addr (countAttempt clients i) ↔
      KeyTable.Keyed ClientInfo.addr clients :=
  KeyTable.keyed_modify addr_countAttempt _

/-- The attempt just counted is read back. -/
theorem attemptsAt_countAttempt {clients : List ClientInfo} {i : Nat} (hi : i < clients.length) :
    attemptsAt (countAttempt clients i) i = clients[i].attempts + 1 := by
  simp [attemptsAt, countAttempt, hi]

theorem removeClient_eq {clients : List ClientInfo} {i : Nat} (hi : i < clients.length) :
    removeClient clients i = KeyTable.swapRemove clients i := by
  rw [removeClient, if_pos ⟨by omega, by omega⟩, Int.toNat_natCast]

/-- Removing a client forgets its attempts and nobody else's. -/
theorem attemptsOf_removeClient {clients : List ClientInfo}
    (hn : KeyTable.Keyed ClientInfo.addr clients) {i : Nat} (hi : i < clients.length)
    (k : SockaddrIn) :
    attemptsOf (removeClient clients i) k =
      if k = clients[i].addr then none else attemptsOf clients k := by
  unfold attemptsOf
  rw [removeClient_eq hi, KeyTable.lookup_swapRemove hn hi]
  split <;> rfl

end Reti.Lottery
