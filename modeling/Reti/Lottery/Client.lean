import Reti.Lottery.Isolation

/-!
# Reti.Lottery.Client

The UDP lottery client (`lottery_client.c`) and the system it forms with the
server: one client process at an address `a`, the server, the datagrams of `a`
on their way to the server and the replies on their way back, in a network
that neither loses nor duplicates them, among the datagrams of all other
addresses.

The client and the server decide on their own when the game is over: the
client by its loop bound and by the words in the reply, the server by its
counter and the guess.
-/

namespace Reti.Lottery

open CStr KeyTable Transducer

/-! ## the client process -/

/-- Where the client is in its loop: at `fgets`, in `recvfrom`, or past the
loop. -/
inductive Phase where
  | typing
  | waiting
  | stopped
  deriving DecidableEq, Repr

/-- The client process: the loop counter, the buffer it uses for the typed line
and for the reply, and where it is. -/
structure Client where
  i : Nat
  buffer : Buf bufferSize
  phase : Phase
  deriving DecidableEq, Repr

def Client.init (buffer : Buf bufferSize) : Client := ⟨0, buffer, .typing⟩

/-- `fgets`, cut at the newline, and the bytes handed to `sendto`. -/
def Client.typeLine (c : Client) (line : List UInt8) : Client × List UInt8 :=
  let buffer := c.buffer.fill (line ++ [0])
  let buffer := buffer.store (strcspn buffer.bytes [newline]) 0
  (⟨c.i, buffer, .waiting⟩, buffer.text)

/-- The reply is received, and the loop is left at a final message or after
its third turn. -/
def Client.receiveReply (c : Client) (reply : List UInt8) : Client :=
  let buffer := receive c.buffer reply
  if strstr buffer.text (ascii "Congratulazioni") || strstr buffer.text (ascii "Disconnesso") then
    ⟨c.i, buffer, .stopped⟩
  else if c.i + 1 < 3 then
    ⟨c.i + 1, buffer, .typing⟩
  else
    ⟨c.i + 1, buffer, .stopped⟩

/-- What the client sends is shorter than the server's buffer. -/
theorem length_typeLine_lt (c : Client) {line : List UInt8} (h : line.length < bufferSize) :
    (c.typeLine line).2.length < bufferSize := by
  rw [Client.typeLine, c.buffer.text_cut h]
  exact Nat.lt_of_le_of_lt (List.takeWhile_prefix _).length_le h

/-- The client recognises exactly the final messages of the server. -/
theorem receiveReply_text (c : Client) (v : Verdict) :
    c.receiveReply v.text =
      if v.final then ⟨c.i, receive c.buffer v.text, .stopped⟩
      else if c.i + 1 < 3 then ⟨c.i + 1, receive c.buffer v.text, .typing⟩
      else ⟨c.i + 1, receive c.buffer v.text, .stopped⟩ := by
  have hlen : v.text.length < bufferSize := by cases v <;> decide
  have htext : (receive c.buffer v.text).text = v.text := by
    rw [receive, Nat.min_eq_left (Nat.le_of_lt hlen), c.buffer.text_fill_store hlen,
      cstr_of_not_mem (by cases v <;> decide)]
  have hfinal : (strstr v.text (ascii "Congratulazioni") || strstr v.text (ascii "Disconnesso")) =
      v.final := by
    cases v <;> decide
  simp only [Client.receiveReply, htext, hfinal]

/-! ## client, server and network -/

/-- The client, the server, and what is in flight between them. -/
structure Sys where
  client : Client
  server : Server
  toServer : List (List UInt8)
  toClient : List (List UInt8)

/-- The client is started when the server is in state `server`. -/
def Sys.start (server : Server) (buffer : Buf bufferSize) : Sys :=
  ⟨Client.init buffer, server, [], []⟩

/-- What can happen next: the user of the client types a line, the server
receives a datagram of the client, or anything else, or the client receives a
reply. -/
inductive Ev where
  | typed (line : List UInt8)
  | serve
  | other (r : Recv)
  | deliver

/-- The event is one of the client's exchanges. -/
def Ev.own : Ev → Bool
  | typed _ => true
  | serve => true
  | other _ => false
  | deliver => true

/-- The event can happen: `fgets` returns a line that fits its buffer, there is
something in flight to be received, and a datagram of another address is
shorter than the server's buffer. -/
def Enabled (a : SockaddrIn) (s : Sys) : Ev → Prop
  | .typed line => s.client.phase = .typing ∧ line.length < bufferSize
  | .serve => s.toServer ≠ []
  | .other r => r.isFrom a = false ∧ r.Short bufferSize
  | .deliver => s.client.phase = .waiting ∧ s.toClient ≠ []

/-- The server finds room for the sender of the datagram it receives. -/
def FindsRoom (a : SockaddrIn) (s : Sys) : Ev → Prop
  | .serve => Room s.server a
  | .other r => HasRoom s.server r
  | _ => True

instance (a : SockaddrIn) (s : Sys) : (e : Ev) → Decidable (Enabled a s e)
  | .typed line =>
      inferInstanceAs (Decidable (s.client.phase = .typing ∧ line.length < bufferSize))
  | .serve => inferInstanceAs (Decidable (s.toServer ≠ []))
  | .other r => inferInstanceAs (Decidable (r.isFrom a = false ∧ r.Short bufferSize))
  | .deliver => inferInstanceAs (Decidable (s.client.phase = .waiting ∧ s.toClient ≠ []))

instance (a : SockaddrIn) (s : Sys) : (e : Ev) → Decidable (FindsRoom a s e)
  | .typed _ => inferInstanceAs (Decidable True)
  | .serve => inferInstanceAs (Decidable (Room s.server a))
  | .other r => inferInstanceAs (Decidable (HasRoom s.server r))
  | .deliver => inferInstanceAs (Decidable True)

/-- One event; the output is the reply the client has received, if any. -/
def sysStep (secretNumber : Int) (a : SockaddrIn) (s : Sys) : Ev → Sys × List (List UInt8)
  | .typed line =>
    let sent := s.client.typeLine line
    ({ s with client := sent.1, toServer := s.toServer ++ [sent.2] }, [])
  | .serve =>
    match s.toServer with
    | [] => (s, [])
    | payload :: rest =>
      let served := iteration secretNumber s.server (.got ⟨a, payload⟩)
      ({ s with server := served.1, toServer := rest,
                toClient := s.toClient ++ textsTo a served.2 }, [])
  | .other r =>
    let served := iteration secretNumber s.server r
    ({ s with server := served.1, toClient := s.toClient ++ textsTo a served.2 }, [])
  | .deliver =>
    match s.toClient with
    | [] => (s, [])
    | reply :: rest =>
      ({ s with client := s.client.receiveReply reply, toClient := rest }, [reply])

/-- The system after `es`, and the replies the client has received. -/
def playSys (secretNumber : Int) (a : SockaddrIn) (server : Server) (buffer : Buf bufferSize)
    (es : List Ev) : Sys × List (List UInt8) :=
  run (sysStep secretNumber a) (Sys.start server buffer) es

/-- Every event of the run can happen, and every unknown sender finds room. -/
def Admitted (secretNumber : Int) (a : SockaddrIn) (server : Server) (buffer : Buf bufferSize)
    (es : List Ev) : Prop :=
  Along (sysStep secretNumber a) (fun s e => Enabled a s e ∧ FindsRoom a s e)
    (Sys.start server buffer) es

instance (secretNumber : Int) (a : SockaddrIn) (server : Server) (buffer : Buf bufferSize)
    (es : List Ev) : Decidable (Admitted secretNumber a server buffer es) :=
  inferInstanceAs (Decidable (Along _ _ _ es))

end Reti.Lottery
