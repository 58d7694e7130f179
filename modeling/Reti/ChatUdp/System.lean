import Reti.ChatUdp.Client
import Reti.Lib.Transducer

/-!
# Reti.ChatUdp.System

Any number of clients, the server, and the datagrams between them.  The network
may lose, delay, reorder and duplicate: a datagram that has been sent stays in
flight and may be received at any time or never.  Server and clients may also
receive anything from elsewhere, or nothing because `recvfrom` fails.

A datagram in flight is kept together with its origin, the client it comes from
and the two lines typed there.  The programs do not see origins; they are there
to say what a receiver should print.
-/

namespace Reti.ChatUdp

open CStr

/-- Where a datagram comes from: the client, what was typed as its username, and
the line. -/
structure Origin (ι : Type) where
  client : ι
  username : List UInt8
  line : List UInt8
  deriving DecidableEq, Repr

/-- The server, the running clients with what was typed as their username, and
the datagrams on their way to the server and to the clients.  `overflow` records
a `strcpy` that left its array. -/
structure System (ι : Type) where
  server : Server
  client : ι → Option (Client × List UInt8)
  toServer : List (Datagram × Origin ι)
  toClients : List (Packet × Origin ι)
  overflow : Bool

/-- The server has been started; its memory holds anything. -/
def System.init (ι : Type) (server : Server) : System ι := ⟨server, fun _ => none, [], [], false⟩

/-- What can happen next.  `start` carries what the memory of the new client
holds: its two heap blocks and the array `username`. -/
inductive Event (ι : Type) where
  | start (i : ι) (line : List UInt8) (sendbuffer msgBuffer : Message) (username : Buf usernameLen)
  | typed (i : ι) (line : List UInt8)
  | serve (d : Datagram) (o : Origin ι)
  | serveOther (r : Recv)
  | deliver (i : ι) (p : Packet) (o : Origin ι)
  | deliverOther (i : ι) (payload : Option (List UInt8))
  deriving DecidableEq, Repr

/-- A message printed by the receiving process of a client, with the origin of
the datagram it was received in. -/
structure Printed (ι : Type) where
  client : ι
  origin : Option (Origin ι)
  text : List UInt8
  deriving DecidableEq, Repr

section

variable {ι : Type} [DecidableEq ι] (addr : ι → SockaddrIn)

/-- The event can happen: lines are read by `fgets` and hold no NUL, and what is
received with an origin is in flight and has reached its address. -/
def Event.Possible (s : System ι) : Event ι → Prop
  | start i line _ _ _ => (s.client i).isNone ∧ FgetsItem usernameLen line ∧ 0 ∉ line
  | typed i line => (s.client i).isSome ∧ FgetsItem contentBufferLen line ∧ 0 ∉ line
  | serve d o => (d, o) ∈ s.toServer
  | serveOther _ => True
  | deliver i p o => (s.client i).isSome ∧ (p, o) ∈ s.toClients ∧ p.dst = addr i
  | deliverOther i _ => (s.client i).isSome

instance (s : System ι) : (e : Event ι) → Decidable (e.Possible addr s)
  | .start .. => inferInstanceAs (Decidable (_ ∧ _))
  | .typed .. => inferInstanceAs (Decidable (_ ∧ _))
  | .serve .. => inferInstanceAs (Decidable (_ ∈ _))
  | .serveOther _ => inferInstanceAs (Decidable True)
  | .deliver .. => inferInstanceAs (Decidable (_ ∧ _))
  | .deliverOther .. => inferInstanceAs (Decidable (_ = _))

/-- One event, and what it makes a client print. -/
def step (s : System ι) : Event ι → System ι × List (Printed ι)
  | .start i line sendbuffer msgBuffer username =>
    match ChatUdp.start sendbuffer msgBuffer username line with
    | some c => ({ s with client := Function.update s.client i (some (c, line)) }, [])
    | none => ({ s with overflow := true }, [])
  | .typed i line =>
    match s.client i with
    | some (c, u) =>
      match c.typeLine line with
      | some c' =>
        ({ s with
            client := Function.update s.client i (some (c', u))
            toServer := s.toServer ++ [(⟨addr i, c'.sendbuffer.mem.bytes⟩, ⟨i, u, line⟩)] }, [])
      | none => ({ s with overflow := true }, [])
    | none => (s, [])
  | .serve d o =>
    ({ s with
        server := (iteration s.server (.got d)).1
        toClients := s.toClients ++ (iteration s.server (.got d)).2.map fun p => (p, o) }, [])
  | .serveOther r => ({ s with server := (iteration s.server r).1 }, [])
  | .deliver i p o =>
    match s.client i with
    | some (c, u) =>
      ({ s with client := Function.update s.client i (some ((c.receive (some p.text)).1, u)) },
        [⟨i, some o, (c.receive (some p.text)).2⟩])
    | none => (s, [])
  | .deliverOther i payload =>
    match s.client i with
    | some (c, u) =>
      ({ s with client := Function.update s.client i (some ((c.receive payload).1, u)) },
        [⟨i, none, (c.receive payload).2⟩])
    | none => (s, [])

/-! ## the invariant -/

/-- `i` was started with this username. -/
def Started (es : List (Event ι)) (i : ι) (line : List UInt8) : Prop :=
  ∃ sendbuffer msgBuffer username, .start i line sendbuffer msgBuffer username ∈ es

/-- The two lines of the origin were typed at its client. -/
def Origin.Genuine (es : List (Event ι)) (o : Origin ι) : Prop :=
  Started es o.client o.username ∧ .typed o.client o.line ∈ es

/-- What a receiver should print for a datagram of this origin: the username and
the line, each without its newline. -/
def Origin.shown (o : Origin ι) : List UInt8 := ChatUdp.shown (chomp o.username) (chomp o.line)

/-- The bytes are a struct that carries what was typed at the origin. -/
def Origin.Sent (es : List (Event ι)) (o : Origin ι) (bytes : List UInt8) : Prop :=
  o.Genuine es ∧ Carries bytes (chomp o.username) (chomp o.line)

/-- The invariant of the system: the events so far, the state they led to, and
what has been printed. -/
structure Inv (s : System ι) (es : List (Event ι)) (out : List (Printed ι)) : Prop where
  no_overflow : s.overflow = false
  /-- The struct of a sender holds its username, whatever lines it has sent. -/
  client : ∀ i c u, s.client i = some (c, u) →
    Started es i u ∧ 0 ∉ u ∧ Holds c.sendbuffer.sender (chomp u)
  toServer : ∀ d o, (d, o) ∈ s.toServer → o.Sent es d.payload
  toClients : ∀ p o, (p, o) ∈ s.toClients → o.Sent es p.text
  printed : ∀ p ∈ out, ∀ o, p.origin = some o → o.Genuine es ∧ p.text = o.shown

omit [DecidableEq ι] in
theorem inv_init (server : Server) : Inv (System.init ι server) [] [] where
  no_overflow := rfl
  client := by
    intro i c u h
    cases h
  toServer := by
    intro d o h
    cases h
  toClients := by
    intro p o h
    cases h
  printed := by
    intro p h
    cases h

omit [DecidableEq ι] in
theorem Started.append {es : List (Event ι)} {i : ι} {line : List UInt8} (h : Started es i line)
    (e : Event ι) : Started (es ++ [e]) i line := by
  obtain ⟨sendbuffer, msgBuffer, username, hmem⟩ := h
  exact ⟨sendbuffer, msgBuffer, username, List.mem_append_left _ hmem⟩

omit [DecidableEq ι] in
theorem Origin.Genuine.append {es : List (Event ι)} {o : Origin ι} (h : o.Genuine es)
    (e : Event ι) : o.Genuine (es ++ [e]) :=
  ⟨h.1.append e, List.mem_append_left _ h.2⟩

omit [DecidableEq ι] in
/-- A further event that changes nothing keeps the invariant. -/
theorem Inv.append {s : System ι} {es : List (Event ι)} {out : List (Printed ι)} (h : Inv s es out)
    (e : Event ι) : Inv s (es ++ [e]) out where
  no_overflow := h.no_overflow
  client := by
    intro i c u hc
    obtain ⟨hstart, hrest⟩ := h.client i c u hc
    exact ⟨hstart.append e, hrest⟩
  toServer := fun d o hd => ⟨(h.toServer d o hd).1.append e, (h.toServer d o hd).2⟩
  toClients := fun p o hp => ⟨(h.toClients p o hp).1.append e, (h.toClients p o hp).2⟩
  printed := fun p hp o ho => ⟨(h.printed p hp o ho).1.append e, (h.printed p hp o ho).2⟩

/-! ## one event -/

/-- A client that satisfies the invariant on its own takes its place. -/
theorem Inv.update_client {s : System ι} {es : List (Event ι)} {out : List (Printed ι)}
    (h : Inv s es out) {i : ι} {c : Client} {u : List UInt8}
    (hc : Started es i u ∧ 0 ∉ u ∧ Holds c.sendbuffer.sender (chomp u)) :
    Inv { s with client := Function.update s.client i (some (c, u)) } es out where
  no_overflow := h.no_overflow
  client := by
    intro j c' u' hj
    by_cases hji : j = i
    · subst hji
      have heq : (c, u) = (c', u') := by simpa using hj
      cases heq
      exact hc
    · exact h.client j c' u' (by simpa [Function.update_of_ne hji] using hj)
  toServer := h.toServer
  toClients := h.toClients
  printed := h.printed

omit [DecidableEq ι] in
/-- A struct with the lines of its origin goes to the server. -/
theorem Inv.send {s : System ι} {es : List (Event ι)} {out : List (Printed ι)} (h : Inv s es out)
    {d : Datagram} {o : Origin ι} (hd : o.Sent es d.payload) :
    Inv { s with toServer := s.toServer ++ [(d, o)] } es out := by
  refine ⟨h.no_overflow, h.client, ?_, h.toClients, h.printed⟩
  intro d' o' hd'
  cases List.mem_append.mp hd' with
  | inl hold => exact h.toServer d' o' hold
  | inr hnew =>
      cases List.mem_singleton.mp hnew
      exact hd

omit [DecidableEq ι] in
/-- The server forwards such a struct. -/
theorem Inv.forwarded {s : System ι} {es : List (Event ι)} {out : List (Printed ι)}
    (h : Inv s es out) (server : Server) {ps : List Packet} {o : Origin ι}
    (hps : ∀ p ∈ ps, o.Sent es p.text) :
    Inv { s with server := server, toClients := s.toClients ++ ps.map fun p => (p, o) } es out := by
  refine ⟨h.no_overflow, h.client, h.toServer, ?_, h.printed⟩
  intro p o' hp
  cases List.mem_append.mp hp with
  | inl hold => exact h.toClients p o' hold
  | inr hnew =>
      obtain ⟨q, hq, heq⟩ := List.mem_map.mp hnew
      cases heq
      exact hps _ hq

/-- A client receives and prints; what it received with an origin is what was typed
there. -/
theorem Inv.print {s : System ι} {es : List (Event ι)} {out : List (Printed ι)} (h : Inv s es out)
    {i : ι} {c : Client} {u : List UInt8} (hcu : s.client i = some (c, u))
    (payload : Option (List UInt8)) {origin : Option (Origin ι)}
    (ho : ∀ o, origin = some o → o.Genuine es ∧ (c.receive payload).2 = o.shown) :
    Inv { s with client := Function.update s.client i (some ((c.receive payload).1, u)) } es
      (out ++ [⟨i, origin, (c.receive payload).2⟩]) := by
  have hclient := h.update_client (c := (c.receive payload).1) (h.client i c u hcu)
  refine ⟨hclient.no_overflow, hclient.client, hclient.toServer, hclient.toClients, ?_⟩
  intro q hq o hqo
  cases List.mem_append.mp hq with
  | inl hold => exact h.printed q hold o hqo
  | inr hnew =>
      cases List.mem_singleton.mp hnew
      exact ho o hqo

/-- **Step lemma**: every possible event keeps the invariant. -/
theorem inv_step {s : System ι} {es : List (Event ι)} {out : List (Printed ι)} (h : Inv s es out)
    {e : Event ι} (he : e.Possible addr s) :
    Inv (step addr s e).1 (es ++ [e]) (out ++ (step addr s e).2) := by
  have h' := h.append e
  cases e with
  | start i line sendbuffer msgBuffer username =>
      obtain ⟨-, hline, h0⟩ := he
      obtain ⟨c, hc, hholds⟩ := start_spec sendbuffer msgBuffer username hline h0
      simp only [step, hc, List.append_nil]
      exact h'.update_client ⟨⟨sendbuffer, msgBuffer, username, by simp⟩, h0, hholds⟩
  | typed i line =>
      obtain ⟨hi, hline, h0⟩ := he
      obtain ⟨⟨c, u⟩, hcu⟩ := Option.isSome_iff_exists.mp hi
      obtain ⟨hstart, hu0, hsender⟩ := h'.client i c u hcu
      obtain ⟨c', hc', hsame, hcontent⟩ := typeLine_spec c hline h0
      rw [← hsame] at hsender
      have hsent : (Origin.mk i u line).Sent (es ++ [.typed i line]) c'.sendbuffer.mem.bytes :=
        ⟨⟨hstart, by simp⟩, carries_of_holds hsender hcontent
          (fun hmem => hu0 (chomp_subset u hmem)) (fun hmem => h0 (chomp_subset line hmem))⟩
      simp only [step, hcu, hc', List.append_nil]
      exact (h'.update_client ⟨hstart, hu0, hsender⟩).send hsent
  | serve d o =>
      have hsent := h'.toServer d o he
      simp only [step, List.append_nil]
      refine h'.forwarded _ fun p hp => ?_
      rw [Origin.Sent, text_of_mem_forward hsent.2.length_eq hp]
      exact hsent
  | serveOther r =>
      simp only [step, List.append_nil]
      exact ⟨h'.no_overflow, h'.client, h'.toServer, h'.toClients, h'.printed⟩
  | deliver i p o =>
      obtain ⟨hi, hp, -⟩ := he
      obtain ⟨⟨c, u⟩, hcu⟩ := Option.isSome_iff_exists.mp hi
      obtain ⟨hgen, hcarries⟩ := h'.toClients p o hp
      simp only [step, hcu]
      refine h'.print hcu (some p.text) ?_
      rintro o' ⟨⟩
      exact ⟨hgen, receive_spec c hcarries⟩
  | deliverOther i payload =>
      obtain ⟨⟨c, u⟩, hcu⟩ := Option.isSome_iff_exists.mp he
      simp only [step, hcu]
      refine h'.print hcu payload ?_
      rintro o ⟨⟩

/-! ## runs -/

/-- A run of possible events from the start of the server. -/
def Run (server : Server) (es : List (Event ι)) : Prop :=
  Transducer.Along (step addr) (fun s e => e.Possible addr s) (System.init ι server) es

instance (server : Server) (es : List (Event ι)) : Decidable (Run addr server es) :=
  inferInstanceAs (Decidable (Transducer.Along _ _ _ _))

/-- The state after a run, and what has been printed in it. -/
def after (server : Server) (es : List (Event ι)) : System ι × List (Printed ι) :=
  Transducer.run (step addr) (System.init ι server) es

/-- **Run lemma**: the invariant holds after every run. -/
theorem inv_after {server : Server} {es : List (Event ι)} (h : Run addr server es) :
    Inv (after addr server es).1 es (after addr server es).2 := by
  have hstep : ∀ s es out e, Inv s es out → Event.Possible addr s e →
      Inv (step addr s e).1 (es ++ [e]) (out ++ (step addr s e).2) :=
    fun _ _ _ _ hinv he => inv_step addr hinv he
  exact Transducer.run_hist hstep (inv_init server) h

end

/-- The addresses of two clients. -/
def twoAddrs (i : Bool) : SockaddrIn := ⟨2, if i then 2 else 1, 1, 0⟩

/-- The struct that a client with cleared memory sends. -/
def firstSent (username line : String) : List UInt8 :=
  (Message.mem ⟨(Buf.zero 64).fill (ascii username), (Buf.zero 2048).fill (ascii line)⟩).bytes

/-- Two clients start; the second registers by sending a line, then a line of the
first reaches the server. -/
def twoClients : List (Event Bool) :=
  [.start false (ascii "anna\n") Message.zero Message.zero (Buf.zero usernameLen),
    .start true (ascii "bruno\n") Message.zero Message.zero (Buf.zero usernameLen),
    .typed true (ascii "ehi\n"),
    .serve ⟨twoAddrs true, firstSent "bruno" "ehi"⟩ ⟨true, ascii "bruno\n", ascii "ehi\n"⟩,
    .typed false (ascii "ciao\n"),
    .serve ⟨twoAddrs false, firstSent "anna" "ciao"⟩ ⟨false, ascii "anna\n", ascii "ciao\n"⟩]

end Reti.ChatUdp
