import Reti.Lottery.Client
import Reti.Lottery.Invariant
import Reti.Lib.RequestReply
import Mathlib.Data.List.Dedup

/-!
# Reti.Lottery.Network

Any number of lottery clients at once, over a network that may lose datagrams and let them
overtake each other.  A client sends a line, waits for the reply and prints it; one that
has ended can be started again at its address.

As many players as the table has entries never feel each other, so that what a player reads
is the player's own game.
-/

namespace Reti.Lottery

open CStr KeyTable Transducer RequestReply

/-! ## a client, as the server sees it -/

/-- The datagram for a line that is typed. -/
def typed (line : List UInt8) : List UInt8 := line.takeWhile fun b => b ≠ 0 ∧ b ∉ [newline]

/-- It is what a client sends, whatever is in its buffer. -/
theorem typeLine_snd (c : Client) {line : List UInt8} (h : line.length < bufferSize) :
    (c.typeLine line).2 = typed line := c.buffer.text_cut h

theorem length_typed_lt {line : List UInt8} (h : line.length < bufferSize) :
    (typed line).length < bufferSize :=
  Nat.lt_of_le_of_lt (List.takeWhile_prefix _).length_le h

/-- What a client prints of a reply. -/
def printed (c : Client) (reply : List UInt8) : List UInt8 := (c.receiveReply reply).buffer.text

theorem printed_text (c : Client) (v : Verdict) : printed c v.text = v.text := by
  have hlen : v.text.length < bufferSize := by cases v <;> decide
  have hnul : 0 ∉ v.text := by cases v <;> decide
  have hbuffer : (c.receiveReply v.text).buffer = receive c.buffer v.text := by
    rw [receiveReply_text]
    split
    · rfl
    · split <;> rfl
  rw [printed, hbuffer, receive, Nat.min_eq_left hlen.le, c.buffer.text_fill_store hlen,
    cstr_of_not_mem hnul]

/-! ## the server, as the clients see it -/

/-- The iteration that meets a line of a client. -/
def serve (secretNumber : Int) (s : Server) (_ : Unit) (client : SockaddrIn) (line : List UInt8) :
    Server × Option (List UInt8) :=
  let served := iteration secretNumber s (.got ⟨client, typed line⟩)
  (served.1, served.2.head?.map Packet.text)

/-- One guess of a player's own game. -/
def guess (secretNumber : Int) (held : Option Nat) (line : List UInt8) : Option Nat × List UInt8 :=
  let v := verdict secretNumber (guessOf (typed line)) (held.getD 0)
  (v.attempts (held.getD 0), v.text)

/-- The replies of a player's own games, one after the other. -/
def games (secretNumber : Int) (lines : List (List UInt8)) : List (List UInt8) :=
  (run (ownStep (guess secretNumber)) none lines).2

/-! ## as many players as entries -/

section

variable {players : List SockaddrIn} (hplayers : players.length ≤ fdSetSize)

/-- The table holds players only. -/
structure PlayersOnly (players : List SockaddrIn) (s : Server) : Prop where
  keyed : Keyed ClientInfo.addr s.clients
  players : ∀ c ∈ s.clients, c.addr ∈ players

include hplayers in
/-- Each of them has an entry, or there is one left. -/
theorem PlayersOnly.room {s : Server} (h : PlayersOnly players s) {a : SockaddrIn}
    (ha : a ∈ players) : Room s a := by
  by_cases hnone : attemptsOf s.clients a = none
  · right
    rw [attemptsOf_eq_none_iff, lookup_eq_none_iff] at hnone
    have hnew : a ∉ s.clients.map ClientInfo.addr := by simpa using hnone
    have hnodup : (a :: s.clients.map ClientInfo.addr).Nodup := List.nodup_cons.mpr ⟨hnew, h.keyed⟩
    have hsub : a :: s.clients.map ClientInfo.addr ⊆ players := by
      intro k hk
      obtain rfl | hk := List.mem_cons.mp hk
      · exact ha
      · obtain ⟨c, hc, rfl⟩ := List.mem_map.mp hk
        exact h.players c hc
    have hlen := (List.subperm_of_subset hnodup hsub).length_le
    rw [List.length_cons, List.length_map] at hlen
    exact Nat.lt_of_lt_of_le hlen hplayers
  · exact Or.inl (Option.isSome_iff_ne_none.mpr hnone)

/-- An iteration lets in nobody but the sender. -/
theorem PlayersOnly.turn {s : Server} (h : PlayersOnly players s) {secretNumber : Int}
    {d : Datagram} {r : Server × List Packet} {x : SockaddrIn} {n : Nat}
    (turn : Turn secretNumber s d r x n) (hd : d.src ∈ players) : PlayersOnly players r.1 := by
  refine ⟨turn.keyed, fun c hc => ?_⟩
  have hsome : attemptsOf r.1.clients c.addr = some c.attempts :=
    (attemptsOf_eq_some_iff turn.keyed).mpr hc
  cases hbefore : attemptsOf s.clients c.addr with
  | none =>
      have hnew := turn.oneEntry.newcomer c.addr hbefore
        (by rw [hsome]; exact Option.some_ne_none _)
      rwa [hnew]
  | some m => exact h.players ⟨c.addr, m⟩ ((attemptsOf_eq_some_iff h.keyed).mp hbefore)

include hplayers in
/-- **Step lemma**: what the server does for a player is a guess of the player's own game. -/
theorem private_serve (secretNumber : Int) (k : SockaddrIn) :
    Private (serve secretNumber) (PlayersOnly players)
      (fun client line => client ∈ players ∧ line.length < bufferSize) k
      (fun s => attemptsOf s.clients k) (guess secretNumber) where
  inv s _ client line hs hok := by
    obtain ⟨x, n, turn⟩ := iteration_turn secretNumber (d := ⟨client, typed line⟩) hs.keyed
      (length_typed_lt hok.2)
    exact hs.turn turn hok.1
  view_self s _ line hs hok := by
    obtain ⟨x, n, turn⟩ := iteration_turn secretNumber (d := ⟨k, typed line⟩) hs.keyed
      (length_typed_lt hok.2)
    have hx := turn.own (hs.room hplayers hok.1)
    rw [serve, turn.after, if_pos hx.symm, turn.used, hx]
    rfl
  reply_self s _ line hs hok := by
    obtain ⟨x, n, turn⟩ := iteration_turn secretNumber (d := ⟨k, typed line⟩) hs.keyed
      (length_typed_lt hok.2)
    have hx := turn.own (hs.room hplayers hok.1)
    rw [serve, turn.sent, turn.used, hx]
    rfl
  view_other s _ client line hs hok hne := by
    obtain ⟨x, n, turn⟩ := iteration_turn secretNumber (d := ⟨client, typed line⟩) hs.keyed
      (length_typed_lt hok.2)
    have hx := turn.own (hs.room hplayers hok.1)
    rw [serve, turn.after, if_neg (fun h => hne (h.trans hx).symm)]

end

/-! ## what the players read -/

/-- What happens among the clients, the network and the server. -/
abbrev Event := RequestReply.Event SockaddrIn (List UInt8) Unit

/-- The clients type lines that `fgets` returns. -/
def Typed : Event → Prop
  | .ask _ line => FgetsItem bufferSize line
  | _ => True

instance : (e : Event) → Decidable (Typed e)
  | .ask _ line => inferInstanceAs (Decidable (FgetsItem _ line))
  | .serve _ _ => inferInstanceAs (Decidable True)
  | .deliver _ => inferInstanceAs (Decidable True)
  | .loseRequest _ => inferInstanceAs (Decidable True)
  | .loseReply _ => inferInstanceAs (Decidable True)

/-- The client that types. -/
def Event.typist : Event → Option SockaddrIn
  | .ask client _ => some client
  | _ => none

/-- Those who play. -/
def playersOf (es : List Event) : List SockaddrIn := (es.filterMap Event.typist).dedup

/-- All that happens when the server starts and the clients are used. -/
def logOf (secretNumber : Int) (buffer : Buf bufferSize) (es : List Event) :
    List (Log SockaddrIn (List UInt8) Unit (List UInt8)) :=
  (run (RequestReply.step (serve secretNumber)) (.init (.init buffer)) es).2

/-- The replies of a game are messages of the server. -/
theorem text_of_mem_games {secretNumber : Int} {lines : List (List UInt8)} :
    ∀ reply ∈ games secretNumber lines, ∃ v : Verdict, reply = v.text := by
  refine forall_run_of_step (fun held line reply hreply => ?_) none lines
  exact ⟨_, List.mem_singleton.mp hreply⟩

/-- Two players; the second guess of the one is lost. -/
def twoPlayers : List Event :=
  [.ask ⟨2, 1, 1, 0⟩ (ascii "3\n"), .ask ⟨2, 2, 1, 0⟩ (ascii "7\n"), .serve 1 (), .serve 0 (),
    .deliver 1, .ask ⟨2, 1, 1, 0⟩ (ascii "7\n"), .loseRequest 0, .deliver 0]

end Reti.Lottery
