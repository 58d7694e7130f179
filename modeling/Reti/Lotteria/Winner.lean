import Reti.Net
import Reti.Lib.CString
import Reti.Lib.Numeral
import Reti.Lib.RequestReply

/-!
# Reti.Lotteria.Winner

The second lottery (`lotteria2/UDP_lotteria.c`): one number for everybody, and the server
ends with the first guess of it.  However many guess, and whatever the network does to the
datagrams, there is one winner at most.

The repository has no client for it.  The players here wait for a reply before they guess
again.
-/

namespace Reti.Lotteria

open CStr Transducer RequestReply

def bufferSize : Nat := 1024

/-! ## the server -/

/-- What `recvfrom` leaves in `buffer`. -/
def received (datagram : List UInt8) : Buf bufferSize := (Buf.zero bufferSize).fill datagram

/-- The number in a datagram.  `atoi` reads on into what lies behind `buffer` if the number
has not ended before. -/
def guess (behind datagram : List UInt8) : Int := atoi ((received datagram).bytes ++ behind)

/-- The number ends in `buffer`: it does not matter what lies behind it. -/
theorem guess_eq {datagram : List UInt8} (h : afterInt (received datagram).bytes ≠ [])
    (behind : List UInt8) : guess behind datagram = atoi (received datagram).bytes :=
  atoi_append h behind

-- a full datagram without a NUL
example : guess [] (ascii "42" ++ List.replicate 1022 120) = 42 := by decide +kernel

/-- A text as it is sent, with the whole array behind it. -/
def reply (text : List UInt8) : Buf bufferSize := (Buf.zero bufferSize).snprintf text

/-- The text for the winner. -/
def won (winningNumber : Int) : List UInt8 :=
  ascii "You won the game! Congratulations... you guessed the number: " ++ printInt winningNumber ++
    ascii "\r"

-- the number that is drawn, and the text for those who miss it
variable (winningNumber : Int) (lost : List UInt8)

/-- What is sent for a guess. -/
def answer (n : Int) : Buf bufferSize :=
  if n = winningNumber then reply (won winningNumber) else reply lost

/-- The body of the loop, while the server is in it. -/
def serve (running : Bool) (behind : List UInt8) (_client : SockaddrIn) (datagram : List UInt8) :
    Bool × Option (Buf bufferSize) :=
  if running then
    (guess behind datagram ≠ winningNumber,
      some (answer winningNumber lost (guess behind datagram)))
  else (false, none)

/-- What happens among those who guess.  The server meets what lies behind its buffer. -/
abbrev Event := RequestReply.Event SockaddrIn (List UInt8) (List UInt8)

/-- What has happened. -/
abbrev Entry := Log SockaddrIn (List UInt8) (List UInt8) (Buf bufferSize)

/-- All that happens when the server starts. -/
def logOf (es : List Event) : List Entry :=
  (run (step (serve winningNumber lost)) (.init true) es).2

variable {winningNumber : Int} {lost : List UInt8}

/-- What a reply says about the guess. -/
theorem serve_eq_some {running : Bool} {behind : List UInt8} {client : SockaddrIn}
    {datagram : List UInt8} {r : Buf bufferSize}
    (h : (serve winningNumber lost running behind client datagram).2 = some r) :
    r = answer winningNumber lost (guess behind datagram) ∧
      (serve winningNumber lost running behind client datagram).1 =
        decide (guess behind datagram ≠ winningNumber) := by
  cases running with
  | false => cases h
  | true =>
      simp only [serve, if_true, Option.some.injEq] at h ⊢
      exact ⟨h.symm, trivial⟩

variable (winningNumber lost) in
theorem alone_logOf (es : List Event) :
    Alone (serve winningNumber lost) true (run (step (serve winningNumber lost)) (.init true) es).1
      (logOf winningNumber lost es) := alone_run _ true es

theorem answer_eq_won (hlost : reply lost ≠ reply (won winningNumber)) {n : Int}
    (h : answer winningNumber lost n = reply (won winningNumber)) : n = winningNumber := by
  by_contra hne
  rw [answer, if_neg hne] at h
  exact hlost h

/-- **The last reply**: nobody gets anything after the winner. -/
theorem given_after_won (hlost : reply lost ≠ reply (won winningNumber)) {es : List Event}
    {before after : List Entry} {k : SockaddrIn} {datagram behind : List UInt8}
    (hlog : logOf winningNumber lost es =
      before ++ .served k datagram behind (some (reply (won winningNumber))) :: after) :
    ∀ r ∈ given after, r = none := by
  have halone := alone_logOf winningNumber lost es
  rw [hlog] at halone
  obtain ⟨hn, hends⟩ := serve_eq_some halone.reply_eq.symm
  rw [decide_eq_false (not_not.mpr (answer_eq_won hlost hn.symm))] at hends
  rw [← List.singleton_append, ← List.append_assoc] at halone
  rw [halone.given_eq, intake_append, run_append_fst]
  have hserver : (run (serverStep (serve winningNumber lost))
      (run (serverStep (serve winningNumber lost)) true (intake before)).1
      (intake [Log.served k datagram behind (some (reply (won winningNumber)))])).1 = false := hends
  rw [hserver]
  exact given_of_stopped (fun _ _ _ => rfl) (intake after)

theorem mem_given {k : SockaddrIn} {datagram behind : List UInt8} {r : Option (Buf bufferSize)}
    (before after : List Entry) :
    r ∈ given (before ++ .served k datagram behind r :: after) := by
  rw [given_append]
  exact List.mem_append_right _ List.mem_cons_self

/-- The reply for the winner is given once. -/
theorem won_once (hlost : reply lost ≠ reply (won winningNumber)) {es : List Event}
    {before before' after after' : List Entry}
    {k k' : SockaddrIn} {datagram datagram' behind behind' : List UInt8}
    (hlog : logOf winningNumber lost es =
      before ++ .served k datagram behind (some (reply (won winningNumber))) :: after)
    (hlog' : logOf winningNumber lost es =
      before' ++ .served k' datagram' behind' (some (reply (won winningNumber))) :: after') :
    before = before' ∧ k = k' := by
  have hnone := given_after_won hlost hlog
  have hnone' := given_after_won hlost hlog'
  obtain ⟨between, hbefore, hafter⟩ | ⟨between, hbefore, hafter⟩ :=
    List.append_eq_append_iff.mp (hlog.symm.trans hlog')
  · cases between with
    | nil =>
        obtain ⟨hentry, -⟩ := List.cons.inj hafter
        exact ⟨by rw [hbefore, List.append_nil], (Log.served.inj hentry).1⟩
    | cons entry between =>
        have hlater : after = between ++ .served k' datagram' behind' _ :: after' :=
          (List.cons.inj hafter).2
        rw [hlater] at hnone
        exact absurd (hnone _ (mem_given _ _)) (Option.some_ne_none _)
  · cases between with
    | nil =>
        obtain ⟨hentry, -⟩ := List.cons.inj hafter
        exact ⟨by rw [hbefore, List.append_nil], (Log.served.inj hentry).1.symm⟩
    | cons entry between =>
        have hlater : after' = between ++ .served k datagram behind _ :: after :=
          (List.cons.inj hafter).2
        rw [hlater] at hnone'
        exact absurd (hnone' _ (mem_given _ _)) (Option.some_ne_none _)

/-- **One winner**: every reply that somebody is shown is the right one for the guess it
answers; and the one for the winner is shown once at most, to one of all those who guess. -/
theorem one_winner (hlost : reply lost ≠ reply (won winningNumber)) (es : List Event) :
    let log := logOf winningNumber lost es
    (∀ (k : SockaddrIn) (i : Nat) (r : Buf bufferSize), (shown k log)[i]? = some r →
      ∃ datagram behind, (asked k log)[i]? = some datagram ∧
        r = answer winningNumber lost (guess behind datagram)) ∧
      ∀ (k k' : SockaddrIn) (i i' : Nat), (shown k log)[i]? = some (reply (won winningNumber)) →
        (shown k' log)[i']? = some (reply (won winningNumber)) → k = k' ∧ i = i' := by
  intro log
  constructor
  · intro k i r hi
    obtain ⟨datagram, behind, before, after, hasked, hlog, -⟩ := place_of_shown _ true es k hi
    have halone := alone_logOf winningNumber lost es
    rw [show logOf winningNumber lost es = _ from hlog] at halone
    obtain ⟨hr, -⟩ := serve_eq_some halone.reply_eq.symm
    exact ⟨datagram, behind, hasked, hr⟩
  · intro k k' i i' hi hi'
    obtain ⟨datagram, behind, before, after, -, hlog, hlen⟩ := place_of_shown _ true es k hi
    obtain ⟨datagram', behind', before', after', -, hlog', hlen'⟩ := place_of_shown _ true es k' hi'
    obtain ⟨hbefore, hk⟩ := won_once hlost hlog hlog'
    exact ⟨hk, by rw [← hlen, ← hlen', hbefore, hk]⟩

/-- Two who guess: the first one misses, and asks again too late. -/
theorem one_winner_two :
    let lost := ascii "The number inserted was wrong!"
    let es : List Event := [.ask ⟨2, 1, 1, 0⟩ (ascii "8"), .serve 0 [], .deliver 0,
      .ask ⟨2, 1, 1, 0⟩ (ascii "7"), .ask ⟨2, 2, 1, 0⟩ (ascii "7"), .serve 1 [], .serve 0 [],
      .deliver 0]
    let log := logOf 7 lost es
    (∃ datagram behind, (asked ⟨2, 1, 1, 0⟩ log)[0]? = some datagram ∧
        reply lost = answer 7 lost (guess behind datagram)) ∧
      ∀ (k : SockaddrIn) (i : Nat), (shown k log)[i]? = some (reply (won 7)) →
        k = ⟨2, 2, 1, 0⟩ ∧ i = 0 := by
  intro lost es log
  have hlost : reply lost ≠ reply (won 7) := by decide +kernel
  have h := one_winner hlost es
  exact ⟨h.1 _ 0 _ (by decide +kernel), fun k i hi => h.2 k _ i 0 hi (by decide +kernel)⟩

end Reti.Lotteria
