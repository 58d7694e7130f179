import Reti.ChatUdp.SameRoom
import Reti.ChatUdpServer.Delivery

/-!
# Reti.ChatUdpServer.Inbox

What a client of the chat with the log file receives, once it is in the roster: the
messages of the others and, for each of its own requests, the log.  Of the roster, of who
else is in it and of the requests of the others it notices nothing.
-/

namespace Reti.ChatUdpServer

open CStr Transducer
open SameRoom (Arrival IsMessage)

/-- What the client at `a` gets for a datagram, and the log afterwards. -/
def inbox (a : SockaddrIn) (log : List UInt8) (e : Arrival) : List UInt8 × List (List UInt8) :=
  if IsMessage e.datagram then
    (logMessage e.fopenOk log (cstr e.datagram.payload),
      if isSameClient a e.src then [] else [cstr e.datagram.payload])
  else
    (log, if isSameClient a e.src then (sendHistory e.fopenOk log a).map Packet.text else [])

/-- The client at `a` is in the roster, and the roster is well formed. -/
structure Joined (a : SockaddrIn) (s : Server) : Prop where
  roster : RosterInv s
  mem : ⟨a⟩ ∈ s.clients

variable {a : SockaddrIn}

theorem joined_iteration {s : Server} (hs : Joined a s) (e : Event) : Joined a (iteration s e).1 :=
  ⟨rosterInv_iteration hs.roster e, (clients_prefix_run s [e]).subset hs.mem⟩

/-- The texts sent to the client at `a`. -/
def textsFor (a : SockaddrIn) (ps : List Packet) : List (List UInt8) :=
  (ps.filter fun p => isSameClient p.dst a).map Packet.text

theorem textsFor_append (ps qs : List Packet) :
    textsFor a (ps ++ qs) = textsFor a ps ++ textsFor a qs := by simp [textsFor]

/-- **Step lemma**: a message reaches the client, unless it is its own. -/
theorem textsFor_message {s : Server} (hs : Joined a s) {d : Datagram}
    (hd : d.payload.length < maxMsgLen) (hmsg : ¬historyCmd <+: d.payload) (fopenOk : Bool) :
    textsFor a (iteration s ⟨.got d, fopenOk⟩).2 =
      if isSameClient a d.src then [] else [cstr d.payload] := by
  have hdeliver := iteration_deliveredOnce hs.roster hd hmsg fopenOk
  have hmem := (joined_iteration hs ⟨.got d, fopenOk⟩).mem
  split
  · rename_i hself
    rw [textsFor, List.map_eq_nil_iff, List.filter_eq_nil_iff]
    intro p hp hdst
    refine hdeliver.not_sender p hp ?_
    simp only [isSameClient_eq, decide_eq_true_eq] at hself hdst ⊢
    rw [hdst, hself]
  · rename_i hother
    have honce := hdeliver.once ⟨a⟩ hmem hother
    rw [textsFor, honce, List.map_singleton]

/-- **Step lemma**: the log is sent to the client that asks for it. -/
theorem textsFor_history (s : Server) {d : Datagram} (hd : d.payload.length < maxMsgLen)
    (hmsg : historyCmd <+: d.payload) (fopenOk : Bool) :
    textsFor a (iteration s ⟨.got d, fopenOk⟩).2 =
      if isSameClient a d.src then (sendHistory fopenOk s.log a).map Packet.text else [] := by
  have hdst := iteration_history_dst s hd hmsg fopenOk
  rw [iteration_history s (Nat.le_of_lt hd) hmsg] at hdst ⊢
  have htexts : (sendHistory fopenOk s.log d.src).map Packet.text =
      (sendHistory fopenOk s.log a).map Packet.text := by
    simp only [sendHistory]
    split
    · simp only [List.map_map]
      rfl
    · rfl
  split
  · rename_i hself
    rw [textsFor, List.filter_eq_self.mpr, htexts]
    intro p hp
    rw [hdst p hp, isSameClient_eq]
    rw [isSameClient_eq] at hself
    simpa [eq_comm] using hself
  · rename_i hother
    rw [textsFor, List.map_eq_nil_iff, List.filter_eq_nil_iff]
    intro p hp hself
    rw [hdst p hp, isSameClient_eq] at hself
    rw [isSameClient_eq] at hother
    exact hother (by simpa [eq_comm] using hself)

/-- **Step lemma**: what the client gets depends on the log alone. -/
theorem inbox_iteration {s : Server} (hs : Joined a s) {e : Arrival}
    (he : e.datagram.payload.length < maxMsgLen) :
    inbox a s.log e = ((iteration s e.logged).1.log, textsFor a (iteration s e.logged).2) := by
  have hle := Nat.le_of_lt he
  by_cases hmsg : historyCmd <+: e.datagram.payload
  · rw [inbox, if_neg (fun h => h hmsg)]
    refine Prod.ext ?_ (textsFor_history s he hmsg e.fopenOk).symm
    show s.log = (iteration s ⟨.got e.datagram, e.fopenOk⟩).1.log
    rw [iteration_history s hle hmsg]
  · have hmessage : IsMessage e.datagram := hmsg
    rw [inbox, if_pos hmessage]
    refine Prod.ext ?_ (textsFor_message hs he hmsg e.fopenOk).symm
    show _ = (iteration s ⟨.got e.datagram, e.fopenOk⟩).1.log
    rw [iteration_message s hle hmsg]

/-- **Run lemma**: the same over any datagrams. -/
theorem textsFor_run {s : Server} (hs : Joined a s) {as : List Arrival}
    (has : ∀ e ∈ as, e.datagram.payload.length < maxMsgLen) :
    textsFor a (run iteration s (as.map Arrival.logged)).2 = (run (inbox a) s.log as).2 := by
  induction as generalizing s with
  | nil => rfl
  | cons e as ih =>
      have hstep := inbox_iteration hs (has e List.mem_cons_self)
      have hrest := ih (joined_iteration hs e.logged) fun e' h => has e' (List.mem_cons_of_mem e h)
      rw [List.map_cons, run_cons_snd, run_cons_snd, textsFor_append, hstep, hrest]

/-- **Inbox**: whatever has happened until a client is in the roster, what the server sends
to it from then on is what `inbox` makes of the log and the datagrams. -/
theorem inbox_run (log : List UInt8) (clientAddr : SockaddrIn) (es : List Event)
    (hmem : ⟨a⟩ ∈ (run iteration (.init log clientAddr) es).1.clients) {as : List Arrival}
    (has : ∀ e ∈ as, e.datagram.payload.length < maxMsgLen) :
    let s := (run iteration (.init log clientAddr) es).1
    textsFor a (run iteration s (as.map Arrival.logged)).2 = (run (inbox a) s.log as).2 :=
  textsFor_run ⟨rosterInv_run (rosterInv_init log clientAddr) es, hmem⟩ has

/-- A client hears a message of somebody else and asks for the log. -/
theorem inbox_run_two :
    let es : List Event := [⟨.got ⟨⟨2, 1, 1, 0⟩, ascii "ciao"⟩, true⟩]
    let as : List Arrival :=
      [⟨⟨⟨2, 2, 1, 0⟩, ascii "ehi"⟩, true⟩, ⟨⟨⟨2, 1, 1, 0⟩, historyCmd⟩, true⟩]
    let s := (run iteration (.init [] default) es).1
    textsFor ⟨2, 1, 1, 0⟩ (run iteration s (as.map Arrival.logged)).2 =
      (run (inbox ⟨2, 1, 1, 0⟩) s.log as).2 :=
  inbox_run [] default [⟨.got ⟨⟨2, 1, 1, 0⟩, ascii "ciao"⟩, true⟩] (by decide +kernel)
    (by decide)

end Reti.ChatUdpServer
