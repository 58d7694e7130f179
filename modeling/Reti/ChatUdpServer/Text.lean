import Reti.ChatUdp.SameRoom

/-!
# Reti.ChatUdpServer.Text

Which bytes a message is made of.  The loop clears its buffer and then receives as many
bytes as the buffer has: what `log_message` and `broadcast_message` take for a string
has no NUL behind it if that many arrive.

The string functions are modelled here as they read the array, with `none` for a read
behind its last byte.
-/

namespace Reti.ChatUdpServer

open CStr Transducer

/-! ## the loop with its buffer -/

/-- The head of the loop, with what was received last in the buffer. -/
structure Loop where
  server : Server
  buffer : Buf maxMsgLen
  deriving DecidableEq, Repr

/-- The first time; the buffer is not initialised. -/
def Loop.init (log : List UInt8) (clientAddr : SockaddrIn) (buffer : Buf maxMsgLen) : Loop :=
  ⟨Server.init log clientAddr, buffer⟩

/-- `memset`, then `recvfrom`, which writes nothing if it fails. -/
def receiveInto (buffer : Buf maxMsgLen) : Recv → Buf maxMsgLen
  | .failed => buffer.memset 0
  | .got d => (buffer.memset 0).fill d.payload

def turn (l : Loop) (e : Event) : Loop × List Packet :=
  (⟨(iteration l.server e).1, receiveInto l.buffer e.recv⟩, (iteration l.server e).2)

/-- What was in the buffer does not matter. -/
theorem receiveInto_eq (buffer : Buf maxMsgLen) (r : Recv) : receiveInto buffer r = receive r := by
  cases r <;> rfl

/-! ## the functions that read the buffer -/

namespace Checked

/-- `strncmp(buffer, "/history", 8) == 0`, which reads up to a NUL, but eight bytes at
most. -/
def isRequest (buffer : Buf n) : Option Bool :=
  if 0 ∈ buffer.bytes ∨ 8 ≤ n then some (strncmpEq buffer.bytes historyCmd 8) else none

/-- The log file after `log_message(buffer)`. -/
def logMessage (fopenOk : Bool) (log : List UInt8) (msg : Buf n) : Option (List UInt8) :=
  if fopenOk then msg.readString.map fun text => log ++ text ++ [newline] else some log

/-- `printf("Messaggio ricevuto: %s\n", buffer)`. -/
def printMessage (buffer : Buf n) : Option (List UInt8) :=
  buffer.readString.map fun text => ascii "Messaggio ricevuto: " ++ text ++ [newline]

/-- `broadcast_message`, with a `strlen` of the message for each `sendto`. -/
def broadcastMessage (clients : List Client) (msg : Buf n) (sender : SockaddrIn) :
    Option (List Packet) :=
  (clients.filter fun c => !isSameClient c.addr sender).mapM fun c =>
    msg.readString.map fun text => ⟨c.addr, text⟩

end Checked

/-! ## what a message is to come to -/

/-- What `recvfrom` stores of a datagram, up to the first NUL or to its end. -/
def stored (d : Datagram) : List UInt8 := cstr (d.payload.take maxMsgLen)

/-- The buffer after the datagram is read within its bounds, and what is logged and sent
is what was stored. -/
structure TextExact (s : Server) (buffer : Buf maxMsgLen) (d : Datagram) (fopenOk : Bool) :
    Prop where
  request : (Checked.isRequest buffer).isSome
  logged : Checked.isRequest buffer = some false →
    Checked.logMessage fopenOk s.log buffer = some (logMessage fopenOk s.log (stored d))
  sent : Checked.isRequest buffer = some false →
    Checked.broadcastMessage (addClient s.clients d.src) buffer d.src =
      some (broadcastMessage (addClient s.clients d.src) (stored d) d.src)

/-! ## what the functions read -/

theorem text_receive_got (d : Datagram) : (receive (.got d)).text = stored d :=
  Buf.text_zero_fill_take d.payload

/-- `strncmp` stays in the buffer: it has room for the command. -/
theorem isRequest_eq (buffer : Buf maxMsgLen) :
    Checked.isRequest buffer = some (strncmpEq buffer.bytes historyCmd 8) :=
  if_pos (Or.inr (by decide))

theorem logMessage_eq_some_iff (fopenOk : Bool) (log : List UInt8) (msg : Buf n)
    {log' : List UInt8} :
    Checked.logMessage fopenOk log msg = some log' ↔
      log' = logMessage fopenOk log msg.text ∧ (fopenOk = true → msg.text.length < n) := by
  cases fopenOk with
  | false => simp [Checked.logMessage, logMessage, eq_comm]
  | true =>
      simp only [Checked.logMessage, logMessage, if_true, Option.map_eq_some_iff,
        Buf.readString_eq_some_iff]
      grind

/-- Everybody is sent the string, if there is one or nobody to send it to. -/
theorem broadcastMessage_eq_some_iff (clients : List Client) (msg : Buf n) (sender : SockaddrIn)
    {ps : List Packet} :
    Checked.broadcastMessage clients msg sender = some ps ↔
      ps = broadcastMessage clients msg.text sender ∧
        (msg.text.length < n ∨ ∀ c ∈ clients, isSameClient c.addr sender) := by
  have hothers : (∀ c ∈ clients, isSameClient c.addr sender = true) ↔
      (clients.filter fun c => !isSameClient c.addr sender) = [] := by
    simp
  rw [hothers, Checked.broadcastMessage, broadcastMessage]
  by_cases h : msg.text.length < n
  · have hread : msg.readString = some msg.text := msg.readString_eq_some_iff.mpr ⟨rfl, h⟩
    have hall : ∀ others : List Client,
        (others.mapM fun c => some (⟨c.addr, msg.text⟩ : Packet)) =
          some (others.map fun c => ⟨c.addr, msg.text⟩) := fun _ => List.mapM_pure
    simp only [hread, Option.map_some, hall, h, true_or, and_true, Option.some.injEq]
    exact eq_comm
  · have hread : msg.readString = none := by
      rw [Option.eq_none_iff_forall_ne_some]
      exact fun t ht => h (msg.readString_eq_some_iff.mp ht).2
    cases clients.filter fun c => !isSameClient c.addr sender with
    | nil => simp [eq_comm]
    | cons c others => simp [hread, h]

/-! ## one datagram -/

/-- **Step lemma**: the texts are exact for a request, for a message with a NUL behind it,
and for one that is neither logged nor sent to anybody. -/
theorem textExact_iff (s : Server) (d : Datagram) (fopenOk : Bool) :
    TextExact s (receive (.got d)) d fopenOk ↔
      historyCmd <+: d.payload ∨ (stored d).length < maxMsgLen ∨
        (fopenOk = false ∧ ∀ c ∈ addClient s.clients d.src, isSameClient c.addr d.src) := by
  have hrequest : Checked.isRequest (receive (.got d)) = some false ↔
      ¬historyCmd <+: d.payload := by
    rw [isRequest_eq, ← SameRoom.Logged.isRequest_iff]
    simp
  have hlogged := @logMessage_eq_some_iff _ fopenOk s.log (receive (.got d))
    (logMessage fopenOk s.log (stored d))
  have hsent := @broadcastMessage_eq_some_iff _ (addClient s.clients d.src) (receive (.got d)) d.src
    (broadcastMessage (addClient s.clients d.src) (stored d) d.src)
  rw [text_receive_got] at hlogged hsent
  constructor
  · intro h
    by_cases hreq : historyCmd <+: d.payload
    · exact Or.inl hreq
    · have hlog := (hlogged.mp (h.logged (hrequest.mpr hreq))).2
      have hsend := (hsent.mp (h.sent (hrequest.mpr hreq))).2
      grind
  · intro h
    refine ⟨by simp [isRequest_eq], fun hreq => ?_, fun hreq => ?_⟩
    · have hmsg := hrequest.mp hreq
      exact hlogged.mpr ⟨rfl, by grind⟩
    · have hmsg := hrequest.mp hreq
      exact hsent.mpr ⟨rfl, by grind⟩

/-- `printf` also prints the message, and stays in the buffer exactly if there is a NUL. -/
theorem isSome_printMessage_iff (d : Datagram) :
    (Checked.printMessage (receive (.got d))).isSome ↔ (stored d).length < maxMsgLen := by
  rw [Checked.printMessage, Option.isSome_map, Option.isSome_iff_exists]
  simp [Buf.readString_eq_some_iff, text_receive_got]

/-- The sender is never among those who are sent the message. -/
theorem forall_addClient_iff (clients : List Client) (a : SockaddrIn) :
    (∀ c ∈ addClient clients a, isSameClient c.addr a) ↔ ∀ c ∈ clients, isSameClient c.addr a := by
  have hself : isSameClient a a = true := by simp [isSameClient]
  unfold addClient
  split
  · rfl
  · split
    · rw [List.forall_mem_append, and_iff_left]
      intro c hc
      rw [List.mem_singleton.mp hc]
      exact hself
    · rfl

/-! ## any history -/

/-- **Texts**: whatever was received before, the next datagram is logged and sent exactly as
it was stored, and read within the buffer, exactly if it is a request, if it leaves room for
a NUL or has one in it, or if there is no log file and nobody to send it to. -/
theorem text_exact_iff (log : List UInt8) (clientAddr : SockaddrIn) (buffer : Buf maxMsgLen)
    (es : List Event) (d : Datagram) (fopenOk : Bool) :
    let l := (run turn (Loop.init log clientAddr buffer) es).1
    TextExact l.server (receiveInto l.buffer (.got d)) d fopenOk ↔
      historyCmd <+: d.payload ∨ (stored d).length < maxMsgLen ∨
        (fopenOk = false ∧ ∀ c ∈ l.server.clients, isSameClient c.addr d.src) := by
  intro l
  rw [receiveInto_eq, textExact_iff, forall_addClient_iff]

/-- A message of 1024 bytes without a NUL fills the buffer: what `fputs` and `strlen` take
for the message goes on behind it. -/
theorem full_message_read_past :
    let l := (run turn (Loop.init [] default (Buf.zero maxMsgLen)) []).1
    ¬TextExact l.server (receiveInto l.buffer (.got ⟨default, List.replicate 1024 97⟩))
      ⟨default, List.replicate 1024 97⟩ true := by
  intro l
  have hnul : (0 : UInt8) ∉ List.replicate 1024 97 := by
    intro h
    exact absurd (List.eq_of_mem_replicate h) (by decide)
  have hstored : stored ⟨default, List.replicate 1024 97⟩ = List.replicate 1024 97 := by
    have hfits : (List.replicate 1024 (97 : UInt8)).length ≤ maxMsgLen :=
      Nat.le_of_eq List.length_replicate
    rw [stored, List.take_of_length_le hfits, cstr_of_not_mem hnul]
  have hmsg : ¬historyCmd <+: List.replicate 1024 97 := by decide
  rw [receiveInto_eq, textExact_iff, hstored, List.length_replicate]
  rintro (h | h | h)
  · exact hmsg h
  · exact absurd h (by decide)
  · cases h.1

end Reti.ChatUdpServer
