import Reti.Lottery.Game

/-!
# Reti.Lottery.Invariant

The invariant of the client table, in every state the server can reach, and
what one iteration can change in it.  Nothing here assumes that there is room
in the table: a refused sender's guess is played on another client's entry,
but it is still one entry, and it still ends with the game or counts one
attempt.
-/

namespace Reti.Lottery

open CStr KeyTable

/-- The table between two iterations: it fits the array, the addresses are
pairwise different, and every entry is a game that has begun and is not over. -/
structure TableInv (s : Server) : Prop where
  count_le : s.clientCount ≤ fdSetSize
  addrs_nodup : (s.clients.map ClientInfo.addr).Nodup
  attempts_range : ∀ c ∈ s.clients, 1 ≤ c.attempts ∧ c.attempts ≤ maxAttempts - 1

/-- The tables of two states differ in the entry of `x` at most, and only
`sender` can have come in. -/
structure OneEntry (s s' : Server) (sender x : SockaddrIn) : Prop where
  others : ∀ k, k ≠ x → attemptsOf s'.clients k = attemptsOf s.clients k
  newcomer : ∀ k, attemptsOf s.clients k = none → attemptsOf s'.clients k ≠ none → k = sender

theorem tableInv_init (buffer : Buf bufferSize) : TableInv (Server.init buffer) where
  count_le := Nat.zero_le _
  addrs_nodup := List.nodup_nil
  attempts_range := fun c hc => by cases hc

/-- A turn keeps the range of the attempts, whosever entry it is played on. -/
theorem Turn.attempts_range {secretNumber : Int} {s : Server} {d : Datagram}
    {r : Server × List Packet} {x : SockaddrIn} {n : Nat} (turn : Turn secretNumber s d r x n)
    (hs : TableInv s) : ∀ c ∈ r.1.clients, 1 ≤ c.attempts ∧ c.attempts ≤ maxAttempts - 1 := by
  intro c hc
  have hlookup : attemptsOf r.1.clients c.addr = some c.attempts :=
    (attemptsOf_eq_some_iff turn.keyed).mpr hc
  rw [turn.after] at hlookup
  by_cases hx : c.addr = x
  · rw [if_pos hx] at hlookup
    obtain ⟨hsucc, hle⟩ := attempts_verdict_le hlookup
    exact ⟨by omega, hle⟩
  · rw [if_neg hx] at hlookup
    exact hs.attempts_range _ ((attemptsOf_eq_some_iff hs.addrs_nodup).mp hlookup)

theorem Turn.oneEntry {secretNumber : Int} {s : Server} {d : Datagram} {r : Server × List Packet}
    {x : SockaddrIn} {n : Nat} (turn : Turn secretNumber s d r x n) :
    OneEntry s r.1 d.src x where
  others k hk := by rw [turn.after, if_neg hk]
  newcomer k hnone hsome := by
    by_cases hx : k = x
    · rw [hx]
      exact turn.fresh (hx ▸ hnone)
    · rw [turn.after, if_neg hx] at hsome
      exact absurd hnone hsome

/-- **Step lemma**: an iteration keeps the table invariant. -/
theorem tableInv_iteration (secretNumber : Int) {s : Server} (hs : TableInv s) {r : Recv}
    (hr : r.Short bufferSize) : TableInv (iteration secretNumber s r).1 := by
  cases r with
  | failed => exact hs
  | got d =>
      obtain ⟨x, n, turn⟩ := iteration_turn secretNumber hs.addrs_nodup hr
      exact {
        count_le := turn.count_le hs.count_le
        addrs_nodup := turn.keyed
        attempts_range := turn.attempts_range hs }

/-- **Run lemma**: the table invariant holds in every reachable state. -/
theorem tableInv_of_reachable {secretNumber : Int} {s : Server}
    (h : Reachable secretNumber s) : TableInv s := by
  induction h with
  | init buffer => exact tableInv_init buffer
  | step r _ hr ih => exact tableInv_iteration secretNumber ih hr

/-- **The table invariant**: in every reachable state the table fits the array,
holds each address once, and every entry has used at least one attempt and not
the last; and one more datagram changes the entry of one address `x` at most,
and brings in nobody but its sender. -/
theorem table_invariant {secretNumber : Int} {s : Server} (h : Reachable secretNumber s) :
    TableInv s ∧
      ∀ d : Datagram, d.payload.length < bufferSize →
        ∃ x, OneEntry s (iteration secretNumber s (.got d)).1 d.src x := by
  have hs := tableInv_of_reachable h
  refine ⟨hs, fun d hd => ?_⟩
  obtain ⟨x, n, turn⟩ := iteration_turn secretNumber hs.addrs_nodup hd
  exact ⟨x, turn.oneEntry⟩

/-- Three players, of whom the first one has won: the last entry has taken its place. -/
theorem table_invariant_after_removal :
    let turn (s : Server) (a : SockaddrIn) (text : String) : Server :=
      (iteration 7 s (.got ⟨a, ascii text⟩)).1
    let s := turn (turn (turn (turn (Server.init (Buf.zero bufferSize)) ⟨2, 1, 1, 0⟩ "3")
      ⟨2, 2, 1, 0⟩ "4") ⟨2, 3, 1, 0⟩ "5") ⟨2, 1, 1, 0⟩ "7"
    s.clients = [⟨⟨2, 3, 1, 0⟩, 1⟩, ⟨⟨2, 2, 1, 0⟩, 1⟩] ∧ TableInv s ∧
      ∃ x, OneEntry s (turn s ⟨2, 2, 1, 0⟩ "6") ⟨2, 2, 1, 0⟩ x := by
  intro turn s
  have hreach : Reachable 7 s := .step _ (.step _ (.step _ (.step _
    (.init (Buf.zero bufferSize)) (by decide)) (by decide)) (by decide)) (by decide)
  have h := table_invariant hreach
  exact ⟨by decide +kernel, h.1, h.2 ⟨⟨2, 2, 1, 0⟩, ascii "6"⟩ (by decide)⟩

end Reti.Lottery
