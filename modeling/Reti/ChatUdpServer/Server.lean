import Reti.Net
import Reti.Lib.CString
import Reti.Lib.KeyTable
import Reti.Lib.Transducer

/-!
# Reti.ChatUdpServer.Server

The UDP chat server with a log file (`chatUDP_server.c`): its roster of
clients, the log, and the body of the receive loop.

The state is taken between two iterations of the loop.  Of the array `clients`
the live prefix is kept, so `client_count` is its length.  `client_addr` is part
of the state because a failed `recvfrom` leaves the last sender in it; the
receive buffer is not, since every iteration clears it first.
-/

namespace Reti.ChatUdpServer

open CStr

def maxMsgLen : Nat := 1024

def maxClients : Nat := 100

structure Client where
  addr : SockaddrIn
  deriving DecidableEq, Repr

/-- The server between two iterations: the live entries of `clients`, the bytes
of the log file, and the last sender. -/
structure Server where
  clients : List Client
  log : List UInt8
  clientAddr : SockaddrIn
  deriving DecidableEq, Repr

/-- What an iteration meets: how `recvfrom` returns, and whether `fopen` opens
the log file. -/
structure Event where
  recv : Recv
  fopenOk : Bool
  deriving DecidableEq, Repr

/-- The server at the head of the loop for the first time, with the log file of
earlier runs; `client_addr` is not initialised. -/
def Server.init (log : List UInt8) (clientAddr : SockaddrIn) : Server := ⟨[], log, clientAddr⟩

def historyCmd : List UInt8 := ascii "/history"

/-! ## the functions of the source -/

def isSameClient (a b : SockaddrIn) : Bool := a.sinAddr = b.sinAddr ∧ a.sinPort = b.sinPort

/-- Append a client that is not known yet, if there is room. -/
def addClient (clients : List Client) (clientAddr : SockaddrIn) : List Client :=
  if clients.any fun c => isSameClient c.addr clientAddr then
    clients
  else if clients.length < maxClients then
    clients ++ [⟨clientAddr⟩]
  else
    clients

/-- `fputs` of the message and a newline at the end of the log file. -/
def logMessage (fopenOk : Bool) (log msg : List UInt8) : List UInt8 :=
  if fopenOk then log ++ msg ++ [newline] else log

/-- One datagram for every `fgets` from the log file. -/
def sendHistory (fopenOk : Bool) (log : List UInt8) (clientAddr : SockaddrIn) : List Packet :=
  if fopenOk then
    (fgetsAll maxMsgLen log).map fun line => ⟨clientAddr, cstr line⟩
  else
    []

def broadcastMessage (clients : List Client) (msg : List UInt8) (sender : SockaddrIn) :
    List Packet :=
  (clients.filter fun c => !isSameClient c.addr sender).map fun c => ⟨c.addr, msg⟩

/-! ## one iteration of the receive loop -/

/-- The buffer after `memset` and `recvfrom`, which writes nothing if it fails. -/
def receive : Recv → Buf maxMsgLen
  | .failed => Buf.zero maxMsgLen
  | .got d => (Buf.zero maxMsgLen).fill d.payload

/-- `client_addr` after `recvfrom`. -/
def Server.sender (s : Server) : Recv → SockaddrIn
  | .failed => s.clientAddr
  | .got d => d.src

/-- One iteration of `while (1)`.  The result of `recvfrom` is not looked at, so
the iteration is the same after a failure. -/
def iteration (s : Server) (e : Event) : Server × List Packet :=
  let buffer := receive e.recv
  let clientAddr := s.sender e.recv
  let clients := addClient s.clients clientAddr
  if strncmpEq buffer.bytes historyCmd 8 then
    (⟨clients, s.log, clientAddr⟩, sendHistory e.fopenOk s.log clientAddr)
  else
    (⟨clients, logMessage e.fopenOk s.log buffer.text, clientAddr⟩,
      broadcastMessage clients buffer.text clientAddr)

/-! ## the roster -/

def Client.endpoint (c : Client) : UInt32 × UInt16 := c.addr.endpoint

theorem isSameClient_eq (a b : SockaddrIn) :
    isSameClient a b = decide (a.endpoint = b.endpoint) := by
  simp [isSameClient, SockaddrIn.endpoint]

/-- `add_client` is the roster operation of the endpoint table. -/
theorem addClient_eq_join (clients : List Client) (a : SockaddrIn) :
    addClient clients a = KeyTable.join Client.endpoint maxClients clients ⟨a⟩ := by
  simp only [addClient, isSameClient_eq]
  rfl

/-- What holds between two iterations: the roster fits its array and no two
entries have the same address and port. -/
structure RosterInv (s : Server) : Prop where
  le_maxClients : s.clients.length ≤ maxClients
  keyed : KeyTable.Keyed Client.endpoint s.clients

theorem clients_iteration (s : Server) (e : Event) :
    (iteration s e).1.clients = addClient s.clients (s.sender e.recv) := by
  simp only [iteration]
  split <;> rfl

/-- **Step lemma**: an iteration keeps the roster well formed, however
`recvfrom` returns. -/
theorem rosterInv_iteration {s : Server} (hs : RosterInv s) (e : Event) :
    RosterInv (iteration s e).1 where
  le_maxClients := by
    rw [clients_iteration, addClient_eq_join]
    exact KeyTable.length_join_le hs.le_maxClients _
  keyed := by
    rw [clients_iteration, addClient_eq_join]
    exact KeyTable.keyed_join hs.keyed _ _

theorem rosterInv_init (log : List UInt8) (a : SockaddrIn) : RosterInv (Server.init log a) where
  le_maxClients := Nat.zero_le _
  keyed := List.nodup_nil

/-- **Run lemma**: the roster is well formed in every state of a run. -/
theorem rosterInv_run {s : Server} (hs : RosterInv s) (es : List Event) :
    RosterInv (Transducer.run iteration s es).1 := by
  have hstep : ∀ s e, RosterInv s → RosterInv (iteration s e).1 :=
    fun _ e h => rosterInv_iteration h e
  exact Transducer.run_inv_of_step hstep hs es

/-- The roster of an earlier state is a prefix of that of a later one. -/
theorem clients_prefix_run (s : Server) (es : List Event) :
    s.clients <+: (Transducer.run iteration s es).1.clients := by
  have hstep : ∀ s' e, s.clients <+: s'.clients → s.clients <+: (iteration s' e).1.clients := by
    intro s' e h
    rw [clients_iteration, addClient_eq_join]
    exact h.trans (KeyTable.prefix_join _ _ _)
  exact Transducer.run_inv_of_step hstep (List.prefix_refl _) es

/-! ## the text of a datagram -/

theorem text_receive {d : Datagram} (h : d.payload.length ≤ maxMsgLen) :
    (receive (.got d)).text = cstr d.payload :=
  Buf.text_zero_fill h

/-- The test of the loop: the datagram begins with `/history`. -/
theorem isHistory_iff {d : Datagram} (h : d.payload.length ≤ maxMsgLen) :
    strncmpEq (receive (.got d)).bytes historyCmd 8 = true ↔ historyCmd <+: d.payload := by
  have hlen : historyCmd.length = 8 := by decide
  have hnul : (0 : UInt8) ∉ historyCmd := by decide
  have htext : strncmpEq (receive (.got d)).bytes historyCmd 8 =
      strncmpEq d.payload historyCmd 8 := by
    simp only [strncmpEq]
    rw [← text_receive h, Buf.text]
  rw [htext, ← hlen]
  exact strncmpEq_iff hnul _

/-- What an iteration sends for a datagram that is not a history request. -/
theorem iteration_message (s : Server) {d : Datagram} (h : d.payload.length ≤ maxMsgLen)
    (hmsg : ¬historyCmd <+: d.payload) (fopenOk : Bool) :
    iteration s ⟨.got d, fopenOk⟩ =
      (⟨addClient s.clients d.src, logMessage fopenOk s.log (cstr d.payload), d.src⟩,
        broadcastMessage (addClient s.clients d.src) (cstr d.payload) d.src) := by
  simp only [iteration]
  rw [if_neg (by rwa [isHistory_iff h]), text_receive h]
  rfl

theorem iteration_history (s : Server) {d : Datagram} (h : d.payload.length ≤ maxMsgLen)
    (hmsg : historyCmd <+: d.payload) (fopenOk : Bool) :
    iteration s ⟨.got d, fopenOk⟩ =
      (⟨addClient s.clients d.src, s.log, d.src⟩, sendHistory fopenOk s.log d.src) := by
  simp only [iteration]
  rw [if_pos (by rwa [isHistory_iff h])]
  rfl

end Reti.ChatUdpServer
