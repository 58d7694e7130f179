import Reti.ChatUdp.Server
import Reti.ChatUdpServer.Server

/-!
# Reti.ChatUdp.FailedReceive

What the two UDP chat servers do when `recvfrom` fails.  Neither looks at its result:
the iteration goes on with the last sender and an empty message, enters the one in the
roster, and sends the other to everybody else; `chatUDP_server.c` logs it, too.
-/

namespace Reti.FailedReceive

open CStr Transducer

/-! ## the server with the log file -/

namespace Logged

open ChatUdpServer

/-- A failed receive changes nothing and is not noticed. -/
def Silent (s : Server) (e : Event) : Prop :=
  e.recv = .failed →
    (iteration s e).1.clients = s.clients ∧ (iteration s e).1.log = s.log ∧ (iteration s e).2 = []

/-- It comes when the log file cannot be opened and the last sender is alone in the
roster. -/
def Alone (s : Server) (e : Event) : Prop :=
  e.recv = .failed →
    e.fopenOk = false ∧ s.clients.map Client.endpoint = [s.clientAddr.endpoint]

/-- An iteration without a datagram. -/
theorem iteration_failed (s : Server) (fopenOk : Bool) :
    iteration s ⟨.failed, fopenOk⟩ =
      (⟨addClient s.clients s.clientAddr, logMessage fopenOk s.log [], s.clientAddr⟩,
        broadcastMessage (addClient s.clients s.clientAddr) [] s.clientAddr) := by
  have htext : (receive .failed).text = [] := Buf.text_zero maxMsgLen
  have hno : strncmpEq (receive .failed).bytes historyCmd 8 = false := by decide +kernel
  simp only [iteration]
  rw [if_neg (by simp [hno]), htext]
  rfl

theorem logMessage_eq_self_iff (fopenOk : Bool) (log msg : List UInt8) :
    logMessage fopenOk log msg = log ↔ fopenOk = false := by
  cases fopenOk <;> simp [logMessage]

/-- **Step lemma**: when a failed receive is silent. -/
theorem silent_iff {s : Server} (hs : RosterInv s) (e : Event) : Silent s e ↔ Alone s e := by
  obtain ⟨recv, fopenOk⟩ := e
  refine imp_congr_right fun hfailed => ?_
  obtain rfl : recv = .failed := hfailed
  have hothers : ∀ clients : List Client, broadcastMessage clients [] s.clientAddr = [] ↔
      (clients.filter fun c => c.endpoint ≠ s.clientAddr.endpoint) = [] := by
    intro clients
    simp only [broadcastMessage, isSameClient_eq, List.map_eq_nil_iff, ← decide_not]
    rfl
  have hroom : 0 < maxClients := by decide
  rw [iteration_failed]
  simp only [logMessage_eq_self_iff, hothers, addClient_eq_join]
  rw [and_left_comm]
  exact and_congr_right fun _ => KeyTable.join_eq_self_and_others_iff hroom hs.keyed _

end Logged

/-! ## the server that does everything inline -/

namespace Inline

open ChatUdp

def Silent (s : Server) (r : Recv) : Prop :=
  r = .failed → (iteration s r).1.clients = s.clients ∧ (iteration s r).2 = []

/-- It comes when the last sender is alone in the roster. -/
def Alone (s : Server) (r : Recv) : Prop :=
  r = .failed → s.clients.map ClientInfo.endpoint = [s.client.endpoint]

/-- The entries of the roster have different addresses and ports. -/
def Keyed (s : Server) : Prop := KeyTable.Keyed ClientInfo.endpoint s.clients

theorem keyed_iteration {s : Server} (hs : Keyed s) (r : Recv) : Keyed (iteration s r).1 := by
  show KeyTable.Keyed ClientInfo.endpoint (register s.clients (s.sender r))
  rw [register_eq_join]
  exact KeyTable.keyed_join hs maxClients _

/-- **Step lemma**: when a failed receive is silent. -/
theorem silent_iff {s : Server} (hs : Keyed s) (r : Recv) : Silent s r ↔ Alone s r := by
  refine imp_congr_right fun hfailed => ?_
  subst hfailed
  have hothers : ∀ clients : List ClientInfo, forward clients s.msgBuffer s.client = [] ↔
      (clients.filter fun c => c.endpoint ≠ s.client.endpoint) = [] := by
    intro clients
    simp only [forward, isClient_eq, List.map_eq_nil_iff, decide_eq_true_eq]
  have hroom : 0 < maxClients := by decide
  show register s.clients s.client = s.clients ∧
    forward (register s.clients s.client) s.msgBuffer s.client = [] ↔ _
  rw [hothers, register_eq_join]
  exact KeyTable.join_eq_self_and_others_iff hroom hs ⟨s.client⟩

end Inline

/-! ## both -/

/-- **Failed receives**: in a run of either server every failed receive leaves the roster
and the log as they are and sends nothing, exactly if it always comes when the last sender
is alone in the roster, and when the log file, if there is one, cannot be opened. -/
theorem failed_receive_iff (log : List UInt8) (clientAddr client : SockaddrIn)
    (msgBuffer : ChatUdp.Message) (es : List ChatUdpServer.Event) (rs : List Recv) :
    (Along ChatUdpServer.iteration Logged.Silent (.init log clientAddr) es ↔
        Along ChatUdpServer.iteration Logged.Alone (.init log clientAddr) es) ∧
      (Along ChatUdp.iteration Inline.Silent (.init client msgBuffer) rs ↔
        Along ChatUdp.iteration Inline.Alone (.init client msgBuffer) rs) := by
  constructor
  · have hstep : ∀ s e, ChatUdpServer.RosterInv s →
        ChatUdpServer.RosterInv (ChatUdpServer.iteration s e).1 :=
      fun _ e hs => ChatUdpServer.rosterInv_iteration hs e
    exact along_congr hstep (fun _ e hs => Logged.silent_iff hs e)
      (ChatUdpServer.rosterInv_init log clientAddr) es
  · have hstep : ∀ s r, Inline.Keyed s → Inline.Keyed (ChatUdp.iteration s r).1 :=
      fun _ r hs => Inline.keyed_iteration hs r
    have hinit : Inline.Keyed (.init client msgBuffer) := List.nodup_nil
    exact along_congr hstep (fun _ r hs => Inline.silent_iff hs r) hinit rs

/-- After one client's message, a failed receive is logged; and where two have come, it is
sent to the first of them. -/
theorem failed_receive_heard :
    let s := (run ChatUdpServer.iteration (.init [] default)
      [⟨.got ⟨⟨2, 1, 1, 0⟩, ascii "ciao"⟩, true⟩]).1
    let t := (run ChatUdp.iteration (.init default .zero)
      [.got ⟨⟨2, 1, 1, 0⟩, []⟩, .got ⟨⟨2, 2, 1, 0⟩, []⟩]).1
    s.log = ascii "ciao\n" ∧
      (ChatUdpServer.iteration s ⟨.failed, true⟩).1.log = ascii "ciao\n\n" ∧
      (ChatUdp.iteration t .failed).2.map Packet.dst = [⟨2, 1, 1, 0⟩] := by
  decide +kernel

end Reti.FailedReceive
