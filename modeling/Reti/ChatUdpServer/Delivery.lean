import Reti.ChatUdpServer.Server

/-!
# Reti.ChatUdpServer.Delivery

Who gets what from the UDP chat server: a message goes once to every client of
the roster except its sender, a history request is answered to its sender only.

Exactly-once delivery rests on the roster invariant: `broadcast_message` sends
once for every entry, so a client listed twice would be sent everything twice.
-/

namespace Reti.ChatUdpServer

open CStr

/-- The packets take `text` once to every client of the roster other than the
sender, and go nowhere else. -/
structure DeliveredOnce (clients : List Client) (text : List UInt8) (sender : SockaddrIn)
    (ps : List Packet) : Prop where
  once : ∀ c ∈ clients, ¬isSameClient c.addr sender →
    (ps.filter fun p => isSameClient p.dst c.addr) = [⟨c.addr, text⟩]
  not_sender : ∀ p ∈ ps, ¬isSameClient p.dst sender
  roster : ∀ p ∈ ps, ∃ c ∈ clients, p.dst = c.addr

/-- `broadcast_message` over a well-formed roster. -/
theorem broadcastMessage_deliveredOnce {clients : List Client}
    (hn : KeyTable.Keyed Client.endpoint clients) (text : List UInt8) (sender : SockaddrIn) :
    DeliveredOnce clients text sender (broadcastMessage clients text sender) where
  once := by
    intro c hc hne
    have hk : c.endpoint ≠ sender.endpoint := by
      simpa [isSameClient_eq, Client.endpoint] using hne
    have hothers := KeyTable.filter_others hn hc hk
    simp only [broadcastMessage, List.filter_map, isSameClient_eq]
    rw [← List.map_singleton (f := fun c : Client => (⟨c.addr, text⟩ : Packet)), ← hothers]
    simp only [Function.comp_def, ← decide_not]
    rfl
  not_sender := by
    intro p hp
    obtain ⟨c, hc, rfl⟩ := List.mem_map.mp hp
    simpa using (List.mem_filter.mp hc).2
  roster := by
    intro p hp
    obtain ⟨c, hc, rfl⟩ := List.mem_map.mp hp
    exact ⟨c, (List.mem_filter.mp hc).1, rfl⟩

/-- **Step lemma**: a message is delivered once to the roster as it stands after
the sender has been added to it. -/
theorem iteration_deliveredOnce {s : Server} (hs : RosterInv s) {d : Datagram}
    (hd : d.payload.length < maxMsgLen) (hmsg : ¬historyCmd <+: d.payload) (fopenOk : Bool) :
    DeliveredOnce (iteration s ⟨.got d, fopenOk⟩).1.clients (cstr d.payload) d.src
      (iteration s ⟨.got d, fopenOk⟩).2 := by
  have hn := (rosterInv_iteration hs ⟨.got d, fopenOk⟩).keyed
  rw [iteration_message s (Nat.le_of_lt hd) hmsg] at hn ⊢
  exact broadcastMessage_deliveredOnce hn _ _

/-- A history request is answered to the client that sent it. -/
theorem iteration_history_dst (s : Server) {d : Datagram} (hd : d.payload.length < maxMsgLen)
    (hmsg : historyCmd <+: d.payload) (fopenOk : Bool) :
    ∀ p ∈ (iteration s ⟨.got d, fopenOk⟩).2, p.dst = d.src := by
  rw [iteration_history s (Nat.le_of_lt hd) hmsg]
  intro p hp
  simp only [sendHistory] at hp
  split at hp
  · obtain ⟨line, -, rfl⟩ := List.mem_map.mp hp
    rfl
  · cases hp

/-- **Roster and delivery**: after any sequence of events the roster fits its
array, has pairwise different clients and is only ever extended at its end, by
the next sender if there is room; the next message is delivered once to everybody
else, and the next history request is answered to nobody but its sender. -/
theorem roster_delivery (log : List UInt8) (clientAddr : SockaddrIn) (es : List Event) :
    let s := (Transducer.run iteration (Server.init log clientAddr) es).1
    s.clients.length ≤ maxClients ∧
      s.clients.Pairwise (fun c c' => ¬isSameClient c.addr c'.addr) ∧
      (∀ fs, s.clients <+: (Transducer.run iteration s fs).1.clients) ∧
      (∀ (d : Datagram) (fopenOk : Bool), s.clients.length < maxClients →
        ∃ c ∈ (iteration s ⟨.got d, fopenOk⟩).1.clients, isSameClient c.addr d.src) ∧
      ∀ (d : Datagram) (fopenOk : Bool), d.payload.length < maxMsgLen →
        (¬historyCmd <+: d.payload →
          DeliveredOnce (iteration s ⟨.got d, fopenOk⟩).1.clients (cstr d.payload) d.src
            (iteration s ⟨.got d, fopenOk⟩).2) ∧
        (historyCmd <+: d.payload →
          ∀ p ∈ (iteration s ⟨.got d, fopenOk⟩).2, p.dst = d.src) := by
  intro s
  have hs : RosterInv s := rosterInv_run (rosterInv_init log clientAddr) es
  have hpair : s.clients.Pairwise fun c c' => ¬isSameClient c.addr c'.addr := by
    simpa [isSameClient_eq, KeyTable.Keyed, List.Nodup, List.pairwise_map, Client.endpoint]
      using hs.keyed
  have hjoins : ∀ (d : Datagram) (fopenOk : Bool), s.clients.length < maxClients →
      ∃ c ∈ (iteration s ⟨.got d, fopenOk⟩).1.clients, isSameClient c.addr d.src := by
    intro d fopenOk hroom
    rw [clients_iteration, addClient_eq_join]
    have hjoined : ∃ c ∈ KeyTable.join Client.endpoint maxClients s.clients ⟨d.src⟩,
        c.endpoint = Client.endpoint ⟨d.src⟩ := KeyTable.exists_mem_join hroom ⟨d.src⟩
    obtain ⟨c, hc, hkey⟩ := hjoined
    exact ⟨c, hc, by rw [isSameClient_eq]; exact decide_eq_true hkey⟩
  refine ⟨hs.le_maxClients, hpair, clients_prefix_run s, hjoins, ?_⟩
  intro d fopenOk hd
  exact ⟨fun hmsg => iteration_deliveredOnce hs hd hmsg fopenOk,
    fun hmsg => iteration_history_dst s hd hmsg fopenOk⟩

/-- The second client's first message reaches the first client. -/
theorem roster_delivery_second_client :
    let s := (Transducer.run iteration (Server.init [] default)
      [⟨.got ⟨⟨2, 1, 1, 0⟩, ascii "ciao"⟩, true⟩]).1
    DeliveredOnce (iteration s ⟨.got ⟨⟨2, 2, 1, 0⟩, ascii "ehi"⟩, true⟩).1.clients
      (cstr (ascii "ehi")) ⟨2, 2, 1, 0⟩ (iteration s ⟨.got ⟨⟨2, 2, 1, 0⟩, ascii "ehi"⟩, true⟩).2 :=
  ((roster_delivery [] default [⟨.got ⟨⟨2, 1, 1, 0⟩, ascii "ciao"⟩, true⟩]).2.2.2.2
    ⟨⟨2, 2, 1, 0⟩, ascii "ehi"⟩ true (by decide)).1 (by decide)

end Reti.ChatUdpServer
