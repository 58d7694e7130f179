import Reti.Lottery.Server

/-!
# Reti.Lottery.Game

What the lottery server is for: every address plays a game of its own, of at
most `maxAttempts` guesses, against the secret number.

The game is stated here without any table (`verdict`, `Verdict.attempts`,
`playGuess`).  `iteration_turn` then says what one iteration of the server does
in these terms: it plays one guess on the entry of one address `x`, which is
the sender as long as the table knows the sender or has room for it.  All
invariants and all results about runs are derived from that one lemma.
-/

namespace Reti.Lottery

open CStr KeyTable

/-! ## the game -/

/-- The outcome of a guess. -/
inductive Verdict where
  | win
  | exhausted
  | retry
  deriving DecidableEq, Repr

/-- The message that announces an outcome. -/
def Verdict.text : Verdict → List UInt8
  | win => winMsg
  | exhausted => loseMsg
  | retry => tryAgainMsg

/-- The outcome ends the game. -/
def Verdict.final : Verdict → Bool
  | win => true
  | exhausted => true
  | retry => false

/-- The outcome of a guess by a player who has used `n` attempts before. -/
def verdict (secretNumber guess : Int) (n : Nat) : Verdict :=
  if guess = secretNumber then .win
  else if n + 1 ≥ maxAttempts then .exhausted
  else .retry

/-- The attempts held against the player after the outcome; none once the game
is over. -/
def Verdict.attempts (n : Nat) : Verdict → Option Nat
  | win => none
  | exhausted => none
  | retry => some (n + 1)

/-- The number in a datagram, as `atoi` reads it. -/
def guessOf (payload : List UInt8) : Int := atoi (cstr payload)

/-- A player's side of the server: the attempts held against the player, and
what the player is sent. -/
def playGuess (secretNumber : Int) (view : Option Nat) : Recv → Option Nat × List Packet
  | .failed => (view, [])
  | .got d =>
    let v := verdict secretNumber (guessOf d.payload) (view.getD 0)
    (v.attempts (view.getD 0), [⟨d.src, v.text⟩])

theorem text_injective {v w : Verdict} (h : v.text = w.text) : v = w := by
  revert h
  cases v <;> cases w <;> decide

/-- A game holds fewer than `maxAttempts` attempts while it goes on. -/
theorem attempts_verdict_le {secretNumber guess : Int} {n m : Nat}
    (h : (verdict secretNumber guess n).attempts n = some m) :
    m = n + 1 ∧ m ≤ maxAttempts - 1 := by
  unfold verdict at h
  split at h
  · cases h
  · split at h
    · cases h
    · next hlt =>
        have hm : n + 1 = m := Option.some.inj h
        omega

theorem attempts_eq_none_iff {v : Verdict} {n : Nat} : v.attempts n = none ↔ v.final = true := by
  cases v <;> simp [Verdict.attempts, Verdict.final]

/-! ## the entry an iteration works on -/

/-- `locate` has returned the table `t` and the index `i`: the index is in
range, no other address has been touched, and the entry is the sender's own
whenever the table knew the sender or had room. -/
structure Located (clients t : List ClientInfo) (a : SockaddrIn) (i : Nat) : Prop where
  lt : i < t.length
  keyed : Keyed ClientInfo.addr t
  others : ∀ k, k ≠ t[i].addr → attemptsOf t k = attemptsOf clients k
  used : t[i].attempts = (attemptsOf clients t[i].addr).getD 0
  fresh : attemptsOf clients t[i].addr = none → t[i].addr = a
  own : (attemptsOf clients a).isSome ∨ clients.length < fdSetSize → t[i].addr = a
  count_le : clients.length ≤ fdSetSize → t.length ≤ fdSetSize

/-- A known sender: the table is unchanged. -/
theorem locate_known {clients : List ClientInfo} (hn : Keyed ClientInfo.addr clients)
    {a : SockaddrIn} (h : attemptsOf clients a ≠ none) :
    ∃ i : Nat, (locate clients a).2 = i ∧ Located clients (locate clients a).1 a i := by
  obtain ⟨i, hi, hk, hf⟩ := findClient_of_known h
  have hne : findClient clients a ≠ -1 := by omega
  rw [locate, if_neg hne]
  have hat : attemptsOf clients clients[i].addr = some clients[i].attempts :=
    attemptsOf_getElem hn hi
  exact ⟨i, hf, {
    lt := hi
    keyed := hn
    others := fun _ _ => rfl
    used := by rw [hat, Option.getD_some]
    fresh := fun _ => hk
    own := fun _ => hk
    count_le := id }⟩

/-- A new sender and room in the table: the entry is the one just appended. -/
theorem locate_new {clients : List ClientInfo} (hn : Keyed ClientInfo.addr clients)
    {a : SockaddrIn} (h : attemptsOf clients a = none) (hroom : clients.length < fdSetSize) :
    ∃ i : Nat, (locate clients a).2 = i ∧ Located clients (locate clients a).1 a i := by
  have hfresh : lookup ClientInfo.addr clients a = none := attemptsOf_eq_none_iff.mp h
  rw [locate, if_pos (findClient_eq_neg_one_iff.mpr h), addClient, if_pos hroom]
  have hlt : clients.length < (clients ++ [(⟨a, 0⟩ : ClientInfo)]).length := by simp
  have hlast : (clients ++ [(⟨a, 0⟩ : ClientInfo)])[clients.length] = ⟨a, 0⟩ := by simp
  refine ⟨clients.length, by simp, ?_⟩
  exact {
    lt := hlt
    keyed := keyed_append_singleton hn hfresh
    others := fun k hk => by
      rw [hlast] at hk
      unfold attemptsOf
      rw [lookup_append_singleton hfresh, if_neg hk]
    used := by simp only [hlast, h, Option.getD_none]
    fresh := fun _ => by rw [hlast]
    own := fun _ => by rw [hlast]
    count_le := fun _ => by rw [List.length_append, List.length_singleton]; omega }

/-- A new sender and a full table: `client_count - 1` is somebody else's
entry. -/
theorem locate_full {clients : List ClientInfo} (hn : Keyed ClientInfo.addr clients)
    {a : SockaddrIn} (h : attemptsOf clients a = none) (hfull : ¬ clients.length < fdSetSize) :
    ∃ i : Nat, (locate clients a).2 = i ∧ Located clients (locate clients a).1 a i := by
  have hpos : 0 < clients.length := by
    have hcap : 0 < fdSetSize := by decide
    omega
  rw [locate, if_pos (findClient_eq_neg_one_iff.mpr h), addClient, if_neg hfull]
  have hlt : clients.length - 1 < clients.length := by omega
  have hat : attemptsOf clients clients[clients.length - 1].addr =
      some clients[clients.length - 1].attempts := attemptsOf_getElem hn hlt
  refine ⟨clients.length - 1, by simp only; omega, ?_⟩
  exact {
    lt := hlt
    keyed := hn
    others := fun _ _ => rfl
    used := by rw [hat, Option.getD_some]
    fresh := fun hnone => by rw [hat] at hnone; cases hnone
    own := fun hown => by
      rw [h] at hown
      simp [hfull] at hown
    count_le := id }

theorem locate_spec {clients : List ClientInfo} (hn : Keyed ClientInfo.addr clients)
    (a : SockaddrIn) :
    ∃ i : Nat, (locate clients a).2 = i ∧ Located clients (locate clients a).1 a i := by
  by_cases h : attemptsOf clients a = none
  · by_cases hroom : clients.length < fdSetSize
    · exact locate_new hn h hroom
    · exact locate_full hn h hroom
  · exact locate_known hn h

/-! ## one guess on one entry -/

/-- `play` on entry `i` is the game on that entry's attempts. -/
theorem play_eq (secretNumber guess : Int) {t : List ClientInfo} {i : Nat} (hi : i < t.length) :
    play secretNumber guess t i =
      (if (verdict secretNumber guess t[i].attempts).final then removeClient (countAttempt t i) i
        else countAttempt t i, (verdict secretNumber guess t[i].attempts).text) := by
  have hat := attemptsAt_countAttempt hi
  unfold play verdict
  by_cases hg : guess = secretNumber
  · simp [hg, Verdict.final, Verdict.text]
  · by_cases hlim : t[i].attempts + 1 ≥ maxAttempts
    · simp [hg, hat, hlim, Verdict.final, Verdict.text]
    · simp [hg, hat, hlim, Verdict.final, Verdict.text]

section Played

variable {t : List ClientInfo} {i : Nat} (hn : Keyed ClientInfo.addr t) (hi : i < t.length)
  (secretNumber guess : Int)

include hn hi

theorem attemptsOf_play (k : SockaddrIn) :
    attemptsOf (play secretNumber guess t i).1 k =
      if k = t[i].addr then
        (verdict secretNumber guess t[i].attempts).attempts t[i].attempts
      else attemptsOf t k := by
  have hcount := attemptsOf_countAttempt hn hi
  have hi' : i < (countAttempt t i).length := by rw [length_countAttempt]; exact hi
  have haddr : (countAttempt t i)[i].addr = t[i].addr := by simp [countAttempt]
  rw [play_eq _ _ hi]
  cases hv : verdict secretNumber guess t[i].attempts with
  | retry =>
      simp only [Verdict.final, Verdict.attempts, Bool.false_eq_true, if_false]
      exact hcount k
  | win | exhausted =>
      simp only [Verdict.final, Verdict.attempts, if_true]
      rw [attemptsOf_removeClient ((keyed_countAttempt _).mpr hn) hi', haddr, hcount]
      by_cases hk : k = t[i].addr
      · rw [if_pos hk, if_pos hk]
      · rw [if_neg hk, if_neg hk, if_neg hk]

theorem keyed_play : Keyed ClientInfo.addr (play secretNumber guess t i).1 := by
  have hi' : i < (countAttempt t i).length := by rw [length_countAttempt]; exact hi
  have hcount : Keyed ClientInfo.addr (countAttempt t i) := (keyed_countAttempt _).mpr hn
  rw [play_eq _ _ hi]
  cases (verdict secretNumber guess t[i].attempts).final with
  | false => exact hcount
  | true =>
      rw [if_pos rfl, removeClient_eq hi']
      exact keyed_swapRemove hcount hi'

omit hn in
theorem length_play_le : (play secretNumber guess t i).1.length ≤ t.length := by
  have hi' : i < (countAttempt t i).length := by rw [length_countAttempt]; exact hi
  rw [play_eq _ _ hi]
  cases (verdict secretNumber guess t[i].attempts).final with
  | false => exact Nat.le_of_eq (length_countAttempt t i)
  | true =>
      rw [if_pos rfl, removeClient_eq hi', length_swapRemove hi', length_countAttempt]
      omega

end Played

/-! ## one iteration of the server -/

/-- What one iteration does with a datagram `d`: it plays the guess on the
entry of `x`, who has used `n` attempts, and answers the sender. -/
structure Turn (secretNumber : Int) (s : Server) (d : Datagram) (r : Server × List Packet)
    (x : SockaddrIn) (n : Nat) : Prop where
  used : n = (attemptsOf s.clients x).getD 0
  sent : r.2 = [⟨d.src, (verdict secretNumber (guessOf d.payload) n).text⟩]
  after : ∀ k, attemptsOf r.1.clients k =
    if k = x then (verdict secretNumber (guessOf d.payload) n).attempts n
    else attemptsOf s.clients k
  fresh : attemptsOf s.clients x = none → x = d.src
  own : Room s d.src → x = d.src
  keyed : Keyed ClientInfo.addr r.1.clients
  count_le : s.clientCount ≤ fdSetSize → r.1.clientCount ≤ fdSetSize

/-- A short datagram is terminated by the server itself, so the guess read does
not depend on earlier contents of the buffer. -/
theorem guess_receive (buffer : Buf bufferSize) {payload : List UInt8}
    (h : payload.length < bufferSize) : atoi (receive buffer payload).text = guessOf payload := by
  rw [receive, Nat.min_eq_left (Nat.le_of_lt h), buffer.text_fill_store h, guessOf]

/-- **Step lemma**: every iteration on a short datagram is a turn of the game. -/
theorem iteration_turn (secretNumber : Int) {s : Server} {d : Datagram}
    (hn : Keyed ClientInfo.addr s.clients) (hd : d.payload.length < bufferSize) :
    ∃ x n, Turn secretNumber s d (iteration secretNumber s (.got d)) x n := by
  obtain ⟨i, hidx, loc⟩ := locate_spec hn d.src
  have hi := loc.lt
  have hguess := guess_receive s.buffer hd
  refine ⟨(locate s.clients d.src).1[i].addr, (locate s.clients d.src).1[i].attempts, ?_⟩
  simp only [iteration, hidx, hguess]
  exact {
    used := loc.used
    sent := by rw [play_eq _ _ hi]
    after := fun k => by
      rw [attemptsOf_play loc.keyed hi]
      by_cases hk : k = (locate s.clients d.src).1[i].addr
      · rw [if_pos hk, if_pos hk]
      · rw [if_neg hk, if_neg hk, loc.others k hk]
    fresh := loc.fresh
    own := loc.own
    keyed := keyed_play loc.keyed hi _ _
    count_le := fun h => Nat.le_trans (length_play_le hi _ _) (loc.count_le h) }

end Reti.Lottery
