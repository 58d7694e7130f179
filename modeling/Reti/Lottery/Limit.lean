import Reti.Lottery.Isolation

/-!
# Reti.Lottery.Limit

How far the attempt limit reaches.  Within one game a player gets at most
`maxAttempts` guesses: among any `maxAttempts` consecutive replies one is
final.  The final reply closes the game *and* makes the server forget the
player, so an exhausted player who goes on sending starts a new game
(`exhausted_starts_over`); the limit is one of games, not of addresses.
-/

namespace Reti.Lottery

open CStr KeyTable Transducer

/-! ## a player's own game -/

section Game

variable {secretNumber : Int} {a : SockaddrIn}

/-- Every guess of the player is answered by one message. -/
theorem length_run_playGuess {rs : List Recv} (hfrom : ∀ r ∈ rs, r.isFrom a = true)
    (view : Option Nat) :
    (run (playGuess secretNumber) view rs).2.length = rs.length := by
  induction rs generalizing view with
  | nil => rfl
  | cons r rs ih =>
      have hrest := ih fun r' h => hfrom r' (List.mem_cons_of_mem r h)
      cases r with
      | failed => cases hfrom _ List.mem_cons_self
      | got d => simp [playGuess, hrest]

/-- After the exhausted message nothing is held against the player. -/
theorem forgotten_of_exhausted {rs : List Recv} (hfrom : ∀ r ∈ rs, r.isFrom a = true)
    {view : Option Nat}
    (hlast : ((run (playGuess secretNumber) view rs).2.map Packet.text).getLast? = some loseMsg) :
    (run (playGuess secretNumber) view rs).1 = none := by
  induction rs generalizing view with
  | nil => cases hlast
  | cons r rs ih =>
      have hfrom' : ∀ r' ∈ rs, r'.isFrom a = true :=
        fun r' h => hfrom r' (List.mem_cons_of_mem r h)
      cases r with
      | failed => cases hfrom _ List.mem_cons_self
      | got d =>
          cases rs with
          | nil =>
              -- the last guess: its outcome has the text of the exhausted message
              have htext :
                  (verdict secretNumber (guessOf d.payload) (view.getD 0)).text = loseMsg := by
                simpa [playGuess] using hlast
              have hv : verdict secretNumber (guessOf d.payload) (view.getD 0) = .exhausted :=
                text_injective htext
              simp [playGuess, hv, Verdict.attempts]
          | cons r' rs' =>
              have hlen : (run (playGuess secretNumber) (playGuess secretNumber view (.got d)).1
                  (r' :: rs')).2.length = rs'.length + 1 := length_run_playGuess hfrom' _
              rw [run_cons_fst]
              apply ih hfrom'
              rw [run_cons_snd, List.map_append, List.getLast?_append_of_ne_nil] at hlast
              · exact hlast
              · intro hnil
                rw [List.map_eq_nil_iff.mp hnil] at hlen
                cases hlen

/-- A player who has used `n` attempts gets a final reply within the next
`maxAttempts - n` guesses. -/
theorem final_of_attempts_left {rs : List Recv} (hfrom : ∀ r ∈ rs, r.isFrom a = true)
    {view : Option Nat} {m : Nat} (hm : m ≤ rs.length) (hpos : 0 < m)
    (hlimit : maxAttempts ≤ view.getD 0 + m) :
    ∃ t ∈ ((run (playGuess secretNumber) view rs).2.map Packet.text).take m,
      t = winMsg ∨ t = loseMsg := by
  induction m generalizing rs view with
  | zero => omega
  | succ m ih =>
      cases rs with
      | nil => cases hm
      | cons r rs =>
          have hfrom' : ∀ r' ∈ rs, r'.isFrom a = true :=
            fun r' h => hfrom r' (List.mem_cons_of_mem r h)
          cases r with
          | failed => cases hfrom _ List.mem_cons_self
          | got d =>
              simp only [run_cons_snd, playGuess, List.map_cons, List.cons_append, List.nil_append,
                List.take_succ_cons, List.mem_cons]
              cases hv : verdict secretNumber (guessOf d.payload) (view.getD 0) with
              | win => exact ⟨winMsg, Or.inl rfl, Or.inl rfl⟩
              | exhausted => exact ⟨loseMsg, Or.inl rfl, Or.inr rfl⟩
              | retry =>
                  -- not over yet: one attempt more is held against the player
                  have hmore : (verdict secretNumber (guessOf d.payload)
                      (view.getD 0)).attempts (view.getD 0) = some (view.getD 0 + 1) := by
                    rw [hv]; rfl
                  have hlt : view.getD 0 + 1 ≤ maxAttempts - 1 := (attempts_verdict_le hmore).2
                  obtain ⟨t, ht, hfinal⟩ := @ih rs hfrom' (some (view.getD 0 + 1))
                    (Nat.le_of_succ_le_succ hm) (by omega) (by rw [Option.getD_some]; omega)
                  exact ⟨t, Or.inr ht, hfinal⟩

/-- Among any `maxAttempts` consecutive replies of a game one is final. -/
theorem final_in_window {rs : List Recv} (hfrom : ∀ r ∈ rs, r.isFrom a = true)
    (view : Option Nat) {i : Nat}
    (hi : i + maxAttempts ≤ ((run (playGuess secretNumber) view rs).2.map Packet.text).length) :
    ∃ t ∈ (((run (playGuess secretNumber) view rs).2.map Packet.text).drop i).take maxAttempts,
      t = winMsg ∨ t = loseMsg := by
  rw [List.length_map, length_run_playGuess hfrom] at hi
  have hsplit : rs.take i ++ rs.drop i = rs := List.take_append_drop i rs
  have hfront : ∀ r ∈ rs.take i, r.isFrom a = true := fun r h => hfrom r (List.mem_of_mem_take h)
  have hback : ∀ r ∈ rs.drop i, r.isFrom a = true := fun r h => hfrom r (List.mem_of_mem_drop h)
  have hlen : ((run (playGuess secretNumber) view (rs.take i)).2.map Packet.text).length = i := by
    rw [List.length_map, length_run_playGuess hfront, List.length_take]
    omega
  have hdrop : ((run (playGuess secretNumber) view rs).2.map Packet.text).drop i =
      (run (playGuess secretNumber) (run (playGuess secretNumber) view (rs.take i)).1
        (rs.drop i)).2.map Packet.text := by
    conv => lhs; rw [← hsplit, run_append_snd, List.map_append]
    rw [List.drop_left' hlen]
  rw [hdrop]
  have hmax : 0 < maxAttempts := by decide
  exact final_of_attempts_left hback (by rw [List.length_drop]; omega) hmax (by omega)

end Game

/-! ## the limit over runs of the server -/

/-- **An exhausted player starts over**: once the server has sent `a` the
exhausted message it holds nothing against `a`, and answers `a`'s later
datagrams, whatever the other clients send in between, as a server that has
never heard of `a` answers them alone.  Among any `maxAttempts` consecutive
replies to `a` one is final. -/
theorem exhausted_starts_over (secretNumber : Int) (buffer buffer' : Buf bufferSize)
    (rs rs' : List Recv) (hshort : ∀ r ∈ rs ++ rs', r.Short bufferSize)
    (hroom : Along (iteration secretNumber) HasRoom (Server.init buffer) (rs ++ rs'))
    (a : SockaddrIn)
    (hlast : (replies secretNumber (Server.init buffer) rs a).getLast? = some loseMsg) :
    attemptsOf (after secretNumber (Server.init buffer) rs).clients a = none ∧
      replies secretNumber (after secretNumber (Server.init buffer) rs) rs' a =
        replies secretNumber (Server.init buffer') (rs'.filter fun r => r.isFrom a) a ∧
      ∀ i, i + maxAttempts ≤ (replies secretNumber (Server.init buffer) (rs ++ rs') a).length →
        ∃ t ∈ ((replies secretNumber (Server.init buffer) (rs ++ rs') a).drop i).take maxAttempts,
          t = winMsg ∨ t = loseMsg := by
  have hfrom : ∀ rs : List Recv, ∀ r ∈ rs.filter (fun r => r.isFrom a), r.isFrom a = true :=
    fun _ _ hr => (List.mem_filter.mp hr).2
  have hshort₁ : ∀ r ∈ rs, r.Short bufferSize := fun r h => hshort r (List.mem_append_left _ h)
  have hshort₂ : ∀ r ∈ rs', r.Short bufferSize := fun r h => hshort r (List.mem_append_right _ h)
  obtain ⟨hroom₁, hroom₂⟩ := along_append.mp hroom
  have hn := keyed_init buffer
  have hforgotten : attemptsOf (after secretNumber (Server.init buffer) rs).clients a = none := by
    rw [attemptsOf_after hn hshort₁ hroom₁]
    rw [replies_eq_game hn hshort₁ hroom₁] at hlast
    exact forgotten_of_exhausted (hfrom rs) hlast
  refine ⟨hforgotten, ?_, ?_⟩
  · have hshort' : ∀ r ∈ rs'.filter (fun r => r.isFrom a), r.Short bufferSize :=
      fun r hr => hshort₂ r (List.mem_of_mem_filter hr)
    have hroom' : Along (iteration secretNumber) HasRoom (Server.init buffer')
        (rs'.filter fun r => r.isFrom a) :=
      along_alone (keyed_init buffer') (fun _ _ => rfl) hshort' (hfrom rs')
    rw [replies_eq_game (keyed_after hn hshort₁ hroom₁) hshort₂ hroom₂,
      replies_eq_game (keyed_init buffer') hshort' hroom', hforgotten]
    simp [game, List.filter_filter, Server.init, attemptsOf, lookup]
  · intro i hi
    rw [replies_eq_game hn hshort hroom] at hi ⊢
    exact final_in_window (hfrom _) _ hi

/-- Three wrong guesses and, after another player's, the right one. -/
theorem exhausted_starts_over_at_seven :
    replies 7 (after 7 (Server.init (Buf.zero bufferSize))
        (List.replicate 3 (.got ⟨⟨2, 1, 1, 0⟩, ascii "1"⟩)))
        [.got ⟨⟨2, 2, 1, 0⟩, ascii "2"⟩, .got ⟨⟨2, 1, 1, 0⟩, ascii "7"⟩] ⟨2, 1, 1, 0⟩ =
      replies 7 (Server.init (Buf.zero bufferSize))
        [.got ⟨⟨2, 1, 1, 0⟩, ascii "7"⟩] ⟨2, 1, 1, 0⟩ :=
  (exhausted_starts_over 7 (Buf.zero bufferSize) (Buf.zero bufferSize)
    (List.replicate 3 (.got ⟨⟨2, 1, 1, 0⟩, ascii "1"⟩))
    [.got ⟨⟨2, 2, 1, 0⟩, ascii "2"⟩, .got ⟨⟨2, 1, 1, 0⟩, ascii "7"⟩]
    (by decide) (by decide +kernel) ⟨2, 1, 1, 0⟩ (by decide +kernel)).2.1

/-- **The limit does not bind the address**: an exhausted player sends a fourth
guess, and wins. -/
theorem exhausted_player_wins :
    ¬ ∀ (secretNumber : Int) (buffer : Buf bufferSize) (rs rs' : List Recv) (a : SockaddrIn),
      (∀ r ∈ rs ++ rs', r.Short bufferSize) →
      (replies secretNumber (Server.init buffer) rs a).getLast? = some loseMsg →
        ∀ t ∈ replies secretNumber (after secretNumber (Server.init buffer) rs) rs' a,
          t ≠ winMsg ∧ t ≠ tryAgainMsg := by
  intro h
  have hno := h 7 (Buf.zero bufferSize) (List.replicate 3 (.got ⟨⟨2, 1, 1, 0⟩, ascii "1"⟩))
    [.got ⟨⟨2, 1, 1, 0⟩, ascii "7"⟩] ⟨2, 1, 1, 0⟩ (by decide) (by decide +kernel) winMsg
    (by decide +kernel)
  exact hno.1 rfl

end Reti.Lottery
