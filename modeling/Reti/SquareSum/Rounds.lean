import Reti.SquareSum.System

/-!
# Reti.SquareSum.Rounds

Whose numbers a round is computed from.  A client has one thing on the way at most, and
as long as the server gets the second number from the client that it has the first one
of, the two are at the same stage of their exchange.  Then every round is made of the
two numbers of one client, and otherwise one is not.
-/

namespace Reti.SquareSum

open CStr Transducer

/-- The two numbers of one client, in order, and its answer. -/
structure Proper (r : Round) : Prop where
  first : r.x.place = .first
  second : r.y.place = .second
  client : r.y.client = r.x.client
  answer : r.answer.dst = r.x.client

/-- Whom the server means to hear from: anybody, or the client it has a first number
of. -/
def Server.Expects : Server → SockaddrIn → Prop
  | .second x, c => c = x.client
  | _, _ => True

instance : (server : Server) → (c : SockaddrIn) → Decidable (server.Expects c)
  | .second x, c => inferInstanceAs (Decidable (c = x.client))
  | .first, _ => inferInstanceAs (Decidable True)
  | .closed, _ => inferInstanceAs (Decidable True)

/-- While the server waits for a second number, what reaches it is from the client it
waits for. -/
def InTurn (s : Sys) : Event → Prop
  | .arrive c _ _ => s.server.Expects c
  | _ => True

instance (s : Sys) : (e : Event) → Decidable (InTurn s e)
  | .arrive c _ _ => inferInstanceAs (Decidable (s.server.Expects c))
  | .send _ _ => inferInstanceAs (Decidable True)
  | .reply _ _ => inferInstanceAs (Decidable True)
  | .lose _ _ => inferInstanceAs (Decidable True)
  | .loseReply _ _ => inferInstanceAs (Decidable True)

/-! ## the stages of an exchange -/

/-- The server waits for the second number of `c`. -/
def Server.waitsFor : Server → SockaddrIn → Bool
  | .second x, c => x.client = c
  | _, _ => false

/-- The stages of a client's exchange: whether the server waits for its second number,
what it waits for itself, and what is on the way. -/
inductive Stage : Bool → Client → Prop where
  | idle : Stage false ⟨.idle, [], []⟩
  | firstSent (text) : Stage false ⟨.awaitsQuery, [⟨text, .first⟩], []⟩
  | firstLost : Stage false ⟨.awaitsQuery, [], []⟩
  | querySent : Stage true ⟨.awaitsQuery, [], [secondQuery]⟩
  | queryLost : Stage true ⟨.awaitsQuery, [], []⟩
  | queried : Stage true ⟨.queried, [], []⟩
  | secondSent (text) : Stage true ⟨.awaitsAnswer, [⟨text, .second⟩], []⟩
  | secondLost : Stage true ⟨.awaitsAnswer, [], []⟩
  | answerSent (answer) : Stage false ⟨.awaitsAnswer, [], [answer]⟩
  | answerLost : Stage false ⟨.awaitsAnswer, [], []⟩

/-- The only element of a list is its first. -/
theorem getElem?_singleton_eq_some {a b : α} {i : Nat} (h : [a][i]? = some b) : i = 0 ∧ b = a := by
  cases i with
  | zero => exact ⟨rfl, (Option.some.inj h).symm⟩
  | succ i => simp at h

namespace Stage

variable {waits : Bool} {k : Client} {i : Nat}

theorem send (h : Stage waits k) (hk : k.phase = .idle ∨ k.phase = .queried) (text : List UInt8) :
    Stage waits (k.send text) := by
  cases h with
  | idle => exact .firstSent text
  | queried => exact .secondSent text
  | _ => simp at hk

theorem lose (h : Stage waits k) (hi : i < k.out.length) :
    Stage waits { k with out := k.out.eraseIdx i } := by
  cases h with
  | firstSent text =>
      obtain rfl : i = 0 := Nat.lt_one_iff.mp hi
      exact .firstLost
  | secondSent text =>
      obtain rfl : i = 0 := Nat.lt_one_iff.mp hi
      exact .secondLost
  | _ => simp at hi

theorem loseReply (h : Stage waits k) (hi : i < k.replies.length) :
    Stage waits { k with replies := k.replies.eraseIdx i } := by
  cases h with
  | querySent =>
      obtain rfl : i = 0 := Nat.lt_one_iff.mp hi
      exact .queryLost
  | answerSent answer =>
      obtain rfl : i = 0 := Nat.lt_one_iff.mp hi
      exact .answerLost
  | _ => simp at hi

/-- A reply takes a client on in its exchange. -/
theorem reply (h : Stage waits k) {r : List UInt8} (hr : k.replies[i]? = some r) :
    Stage waits ⟨Client.heard k.phase r, k.out, k.replies.eraseIdx i⟩ := by
  cases h with
  | querySent =>
      obtain ⟨rfl, rfl⟩ := getElem?_singleton_eq_some hr
      exact .queried
  | answerSent answer =>
      obtain ⟨rfl, rfl⟩ := getElem?_singleton_eq_some hr
      exact .idle
  | _ => simp at hr

/-- What is on the way from a client that the server does not wait for is its first
number; the server asks for the second one, or leaves. -/
theorem arrive_first (h : Stage false k) {n : Number} (hn : k.out[i]? = some n) :
    n.place = .first ∧ Stage false ⟨k.phase, k.out.eraseIdx i, k.replies⟩ ∧
      Stage true ⟨k.phase, k.out.eraseIdx i, k.replies ++ [secondQuery]⟩ := by
  cases h with
  | firstSent text =>
      obtain ⟨rfl, rfl⟩ := getElem?_singleton_eq_some hn
      exact ⟨rfl, .firstLost, .querySent⟩
  | _ => simp at hn

/-- What is on the way from the client that the server waits for is its second number;
the server answers. -/
theorem arrive_second (h : Stage true k) {n : Number} (hn : k.out[i]? = some n)
    (answer : List UInt8) :
    n.place = .second ∧ Stage false ⟨k.phase, k.out.eraseIdx i, k.replies ++ [answer]⟩ := by
  cases h with
  | secondSent text =>
      obtain ⟨rfl, rfl⟩ := getElem?_singleton_eq_some hn
      exact ⟨rfl, .answerSent answer⟩
  | _ => simp at hn

end Stage

/-! ## runs in turn -/

/-- Every client is at a stage of its exchange, and the server has first numbers. -/
structure Inv (s : Sys) : Prop where
  stage : ∀ c, Stage (s.server.waitsFor c) (s.clients c)
  place : ∀ x, s.server = .second x → x.place = .first

theorem inv_init : Inv Sys.init where
  stage _ := .idle
  place x hx := by cases hx

/-- One client has moved on, and the server with it. -/
theorem Inv.update {s : Sys} (hs : Inv s) {server : Server} {c : SockaddrIn} {k : Client}
    (hk : Stage (server.waitsFor c) k)
    (hother : ∀ c', c' ≠ c → server.waitsFor c' = s.server.waitsFor c')
    (hplace : ∀ x, server = .second x → x.place = .first) :
    Inv ⟨server, Function.update s.clients c k⟩ where
  stage c' := by
    by_cases hc : c' = c
    · subst hc
      simpa using hk
    · show Stage (server.waitsFor c') (Function.update s.clients c k c')
      rw [Function.update_of_ne hc, hother c' hc]
      exact hs.stage c'
  place := hplace

/-- A first number: the server leaves, or waits for the second one of the same client. -/
theorem Inv.arrive_first {s : Sys} (hs : Inv s) (hserver : s.server = .first) {c : SockaddrIn}
    {i : Nat} {n : Number} (hn : (s.clients c).out[i]? = some n) (line : List UInt8) :
    Inv ⟨(serve .first c n line).1, Function.update s.clients c
        ⟨(s.clients c).phase, (s.clients c).out.eraseIdx i,
          (s.clients c).replies ++ (serve .first c n line).2.1⟩⟩ ∧
      ∀ r ∈ (serve .first c n line).2.2, Proper r := by
  have hstage := hs.stage c
  rw [hserver] at hstage
  obtain ⟨hplace, hleft, hasked⟩ := hstage.arrive_first hn
  simp only [serve]
  by_cases hclose : (readLine n.text).text = ascii "close\n"
  · rw [if_pos hclose, List.append_nil]
    exact ⟨hs.update hleft (fun c' _ => by rw [hserver]; rfl) (by simp), by simp⟩
  · rw [if_neg hclose]
    have hwaits : (Server.second (operand c n)).waitsFor c = true := by
      simp [Server.waitsFor, operand]
    refine ⟨hs.update (by rwa [hwaits]) (fun c' hc' => ?_) ?_, by simp⟩
    · rw [hserver]
      exact decide_eq_false hc'.symm
    · rintro x ⟨⟩
      exact hplace

/-- The second number of the client that the server waits for ends a proper round. -/
theorem Inv.arrive_second {s : Sys} (hs : Inv s) {x : Operand} (hserver : s.server = .second x)
    {i : Nat} {n : Number} (hn : (s.clients x.client).out[i]? = some n) (line : List UInt8) :
    Inv ⟨(serve (.second x) x.client n line).1, Function.update s.clients x.client
        ⟨(s.clients x.client).phase, (s.clients x.client).out.eraseIdx i,
          (s.clients x.client).replies ++ (serve (.second x) x.client n line).2.1⟩⟩ ∧
      ∀ r ∈ (serve (.second x) x.client n line).2.2, Proper r := by
  have hstage := hs.stage x.client
  have hwaits : s.server.waitsFor x.client = true := by simp [hserver, Server.waitsFor]
  rw [hwaits] at hstage
  obtain ⟨hplace, hanswered⟩ := hstage.arrive_second hn (cstr line)
  constructor
  · refine hs.update hanswered (fun c' hc' => ?_) (by simp [serve])
    rw [hserver]
    exact (decide_eq_false hc'.symm).symm
  · intro r hr
    obtain rfl := List.mem_singleton.mp hr
    exact ⟨hs.place x hserver, hplace, rfl, rfl⟩

/-- A datagram that comes in turn: the rounds that end are proper. -/
theorem Inv.arrive {s : Sys} (hs : Inv s) {c : SockaddrIn} {i : Nat} {n : Number}
    (hn : (s.clients c).out[i]? = some n) (hturn : s.server.Expects c)
    (line : List UInt8) :
    Inv ⟨(serve s.server c n line).1, Function.update s.clients c
        ⟨(s.clients c).phase, (s.clients c).out.eraseIdx i,
          (s.clients c).replies ++ (serve s.server c n line).2.1⟩⟩ ∧
      ∀ r ∈ (serve s.server c n line).2.2, Proper r := by
  cases hserver : s.server with
  | first => exact hs.arrive_first hserver hn line
  | second x =>
      rw [hserver] at hturn
      obtain rfl : c = x.client := hturn
      exact hs.arrive_second hserver hn line
  | closed =>
      have hstage := hs.stage c
      rw [hserver] at hstage
      obtain ⟨-, hleft, -⟩ := hstage.arrive_first hn
      simp only [serve, List.append_nil]
      exact ⟨hs.update hleft (fun c' _ => by rw [hserver]) (by simp), by simp⟩

/-- **Step lemma**. -/
theorem inv_step {s : Sys} (hs : Inv s) {e : Event} (he : Enabled s e) (ht : InTurn s e) :
    Inv (step s e).1 ∧ ∀ r ∈ (step s e).2, Proper r := by
  cases e with
  | send c text =>
      exact ⟨hs.update ((hs.stage c).send he text) (fun _ _ => rfl) hs.place, by simp [step]⟩
  | arrive c i line =>
      have hn := List.getElem?_eq_getElem he
      simp only [step, hn]
      exact hs.arrive hn ht line
  | reply c i =>
      have hr := List.getElem?_eq_getElem he.1
      simp only [step, hr]
      exact ⟨hs.update ((hs.stage c).reply hr) (fun _ _ => rfl) hs.place, by simp⟩
  | lose c i =>
      exact ⟨hs.update ((hs.stage c).lose he) (fun _ _ => rfl) hs.place, by simp [step]⟩
  | loseReply c i =>
      exact ⟨hs.update ((hs.stage c).loseReply he) (fun _ _ => rfl) hs.place, by simp [step]⟩

/-! ## and no others -/

/-- A datagram out of turn makes a round of the numbers of two clients. -/
theorem inTurn_of_proper {s : Sys} {e : Event} (he : Enabled s e)
    (h : ∀ r ∈ (step s e).2, Proper r) : InTurn s e := by
  cases e with
  | arrive c i line =>
      have hn := List.getElem?_eq_getElem he
      simp only [step, hn] at h
      show s.server.Expects c
      cases hserver : s.server with
      | second x =>
          rw [hserver] at h
          exact (h _ List.mem_cons_self).client
      | _ => trivial
  | _ => trivial

/-- **No mixing**: in any run every round is made of the first and the second number of
one client, and answered to it, exactly if, whenever the server waits for the second
number of a client, the next datagram that reaches it is from that client. -/
theorem rounds_proper_iff {es : List Event} (hes : Along step Enabled Sys.init es) :
    (∀ r ∈ (run step Sys.init es).2, Proper r) ↔ Along step InTurn Sys.init es := by
  have hinv : ∀ s e, Inv s → Enabled s e → InTurn s e → Inv (step s e).1 :=
    fun _ _ hs he ht => (inv_step hs he ht).1
  have hout : ∀ s e, Inv s → Enabled s e → ((∀ r ∈ (step s e).2, Proper r) ↔ InTurn s e) :=
    fun _ _ hs he => ⟨inTurn_of_proper he, fun ht => (inv_step hs he ht).2⟩
  exact forall_run_iff_along hinv hout inv_init hes

/-- The address of a client. -/
def addr (i : UInt16) : SockaddrIn := ⟨2, i, 1, 0⟩

/-- A client that sends its numbers, with the datagrams of another one before and
after. -/
def oneAtATime : List Event :=
  [.send (addr 1) (ascii "3\n"), .arrive (addr 1) 0 [], .send (addr 2) (ascii "5\n"),
    .reply (addr 1) 0, .send (addr 1) (ascii "4\n"), .arrive (addr 1) 0 (ascii "25\n"),
    .arrive (addr 2) 0 []]

theorem rounds_proper_oneAtATime :
    let r : Round := ⟨⟨addr 1, .first, 3⟩, ⟨addr 1, .second, 4⟩, ⟨addr 1, ascii "25\n"⟩⟩
    r ∈ (run step Sys.init oneAtATime).2 ∧ Proper r := by
  intro r
  have hmem : r ∈ (run step Sys.init oneAtATime).2 := by decide +kernel
  exact ⟨hmem, (@rounds_proper_iff oneAtATime (by decide +kernel)).mpr (by decide +kernel) r hmem⟩

/-- Two first numbers, one behind the other, make a round. -/
theorem first_numbers_mixed :
    let es : List Event :=
      [.send (addr 1) (ascii "3\n"), .send (addr 2) (ascii "5\n"), .arrive (addr 1) 0 [],
        .arrive (addr 2) 0 (ascii "34\n")]
    Along step Enabled Sys.init es ∧
      (run step Sys.init es).2 =
        [⟨⟨addr 1, .first, 3⟩, ⟨addr 2, .first, 5⟩, ⟨addr 2, ascii "34\n"⟩⟩] := by
  decide +kernel

end Reti.SquareSum
