import Reti.Lottery.Game

/-!
# Reti.Lottery.Isolation

The players do not feel each other: seen from one address, any run of the
lottery server is that address's own game (`replies_isolated`), as long as no
unknown address arrives while the table is full.

`add_client` refuses an unknown address when the table is full, and the
receive loop then charges the guess to the last entry of the table.  The last
section follows that path: one refused guess costs another player an attempt
(`refused_guess_charges_last`).
-/

namespace Reti.Lottery

open CStr KeyTable Transducer

/-- The sender of the datagram has an entry, or the table has room for it. -/
def HasRoom (s : Server) : Recv → Prop
  | .failed => True
  | .got d => Room s d.src

instance (s : Server) : (r : Recv) → Decidable (HasRoom s r)
  | .failed => inferInstanceAs (Decidable True)
  | .got d => inferInstanceAs (Decidable (Room s d.src))

/-- The texts the server sends to `a` while it handles `rs`. -/
def replies (secretNumber : Int) (s : Server) (rs : List Recv) (a : SockaddrIn) :
    List (List UInt8) :=
  textsTo a (run (iteration secretNumber) s rs).2

/-- The server after it has handled `rs`. -/
def after (secretNumber : Int) (s : Server) (rs : List Recv) : Server :=
  (run (iteration secretNumber) s rs).1

theorem keyed_init (buffer : Buf bufferSize) :
    Keyed ClientInfo.addr (Server.init buffer).clients := List.nodup_nil

/-! ## the unwinding of one player -/

/-- With room for every sender, what the server holds against `a` and sends to
`a` changes by `a`'s own datagrams only, and as in `a`'s own game. -/
theorem unwinding (secretNumber : Int) (a : SockaddrIn) :
    Unwinding (iteration secretNumber) (fun s => Keyed ClientInfo.addr s.clients)
      (fun s r => r.Short bufferSize ∧ HasRoom s r) (fun s => attemptsOf s.clients a)
      (fun r => r.isFrom a) (fun p => p.dst = a) (playGuess secretNumber) where
  inv s r hn hok := by
    cases r with
    | failed => exact hn
    | got d =>
        obtain ⟨x, n, turn⟩ := iteration_turn secretNumber hn hok.1
        exact turn.keyed
  own_view s r hn hok hk := by
    cases r with
    | failed => cases hk
    | got d =>
        have hsrc : d.src = a := by simpa [Recv.isFrom] using hk
        obtain ⟨x, n, turn⟩ := iteration_turn secretNumber hn hok.1
        have hx : a = x := hsrc ▸ (turn.own hok.2).symm
        rw [turn.after, if_pos hx, turn.used, ← hx]
        rfl
  own_see s r hn hok hk := by
    cases r with
    | failed => cases hk
    | got d =>
        have hsrc : d.src = a := by simpa [Recv.isFrom] using hk
        obtain ⟨x, n, turn⟩ := iteration_turn secretNumber hn hok.1
        have hx : a = x := hsrc ▸ (turn.own hok.2).symm
        rw [turn.sent, List.filter_cons_of_pos (by simpa using hsrc), List.filter_nil, turn.used,
          ← hx]
        rfl
  other_view s r hn hok hk := by
    cases r with
    | failed => rfl
    | got d =>
        have hsrc : d.src ≠ a := by simpa [Recv.isFrom] using hk
        obtain ⟨x, n, turn⟩ := iteration_turn secretNumber hn hok.1
        have hx : a ≠ x := fun h => hsrc (h ▸ turn.own hok.2).symm
        rw [turn.after, if_neg hx]
  other_see s r hn hok hk := by
    cases r with
    | failed => rfl
    | got d =>
        have hsrc : d.src ≠ a := by simpa [Recv.isFrom] using hk
        obtain ⟨x, n, turn⟩ := iteration_turn secretNumber hn hok.1
        rw [turn.sent, List.filter_cons_of_neg (by simpa using hsrc), List.filter_nil]

/-- `a`'s own game, from `view`, on the datagrams of `a` among `rs`. -/
def game (secretNumber : Int) (view : Option Nat) (rs : List Recv) (a : SockaddrIn) :
    Option Nat × List Packet :=
  run (playGuess secretNumber) view (rs.filter fun r => r.isFrom a)

section Projection

variable {secretNumber : Int} {s : Server} {rs : List Recv}
  (hn : Keyed ClientInfo.addr s.clients) (hshort : ∀ r ∈ rs, r.Short bufferSize)
  (hroom : Along (iteration secretNumber) HasRoom s rs)

include hn hshort hroom

theorem attemptsOf_after (a : SockaddrIn) :
    attemptsOf (after secretNumber s rs).clients a =
      (game secretNumber (attemptsOf s.clients a) rs a).1 :=
  (unwinding secretNumber a).run_view hn (along_and hshort hroom)

theorem replies_eq_game (a : SockaddrIn) :
    replies secretNumber s rs a =
      (game secretNumber (attemptsOf s.clients a) rs a).2.map Packet.text :=
  congrArg (List.map Packet.text)
    ((unwinding secretNumber a).run_see hn (along_and hshort hroom))

theorem keyed_after : Keyed ClientInfo.addr (after secretNumber s rs).clients :=
  run_inv (unwinding secretNumber default).inv hn (along_and hshort hroom)

end Projection

/-! ## a player alone -/

/-- A table that holds at most `a`'s entry has room for `a`. -/
theorem room_of_alone {s : Server} (hn : Keyed ClientInfo.addr s.clients) {a : SockaddrIn}
    (halone : ∀ k, k ≠ a → attemptsOf s.clients k = none) : Room s a := by
  by_cases ha : attemptsOf s.clients a = none
  · have hempty : s.clients = [] := by
      cases hc : s.clients with
      | nil => rfl
      | cons c cs =>
          have hsome : attemptsOf s.clients c.addr = some c.attempts :=
            (attemptsOf_eq_some_iff hn).mpr (by simp [hc])
          by_cases hca : c.addr = a
          · rw [hca, ha] at hsome; cases hsome
          · rw [halone _ hca] at hsome; cases hsome
    right
    rw [Server.clientCount, hempty]
    decide
  · left
    exact Option.isSome_iff_ne_none.mpr ha

/-- Nobody is refused while only `a` plays. -/
theorem along_alone {secretNumber : Int} {s : Server} {a : SockaddrIn}
    (hn : Keyed ClientInfo.addr s.clients)
    (halone : ∀ k, k ≠ a → attemptsOf s.clients k = none) {rs : List Recv}
    (hshort : ∀ r ∈ rs, r.Short bufferSize) (hfrom : ∀ r ∈ rs, r.isFrom a = true) :
    Along (iteration secretNumber) HasRoom s rs := by
  induction rs generalizing s with
  | nil => trivial
  | cons r rs ih =>
      have hr := hfrom r List.mem_cons_self
      have hrest := fun hn' halone' =>
        ih (s := (iteration secretNumber s r).1) hn' halone'
          (fun r' h => hshort r' (List.mem_cons_of_mem r h))
          (fun r' h => hfrom r' (List.mem_cons_of_mem r h))
      cases r with
      | failed => cases hr
      | got d =>
          have hsrc : d.src = a := by simpa [Recv.isFrom] using hr
          have hroom : Room s d.src := hsrc ▸ room_of_alone hn halone
          obtain ⟨x, n, turn⟩ :=
            iteration_turn secretNumber hn (hshort _ List.mem_cons_self)
          refine ⟨hroom, hrest turn.keyed ?_⟩
          intro k hk
          rw [turn.after, if_neg (turn.own hroom ▸ hsrc ▸ hk), halone k hk]

/-! ## isolation -/

/-- **Isolation of players**: as long as every unknown address finds room in
the table, the replies to `a`, and the attempts held against `a`, are those of
the run in which only `a`'s datagrams arrive. -/
theorem replies_isolated (secretNumber : Int) (buffer buffer' : Buf bufferSize) (rs : List Recv)
    (hshort : ∀ r ∈ rs, r.Short bufferSize)
    (hroom : Along (iteration secretNumber) HasRoom (Server.init buffer) rs) (a : SockaddrIn) :
    replies secretNumber (Server.init buffer) rs a =
        replies secretNumber (Server.init buffer') (rs.filter fun r => r.isFrom a) a ∧
      attemptsOf (after secretNumber (Server.init buffer) rs).clients a =
        attemptsOf
          (after secretNumber (Server.init buffer') (rs.filter fun r => r.isFrom a)).clients a := by
  have hshort' : ∀ r ∈ rs.filter (fun r => r.isFrom a), r.Short bufferSize :=
    fun r hr => hshort r (List.mem_of_mem_filter hr)
  have hroom' : Along (iteration secretNumber) HasRoom (Server.init buffer')
      (rs.filter fun r => r.isFrom a) :=
    along_alone (keyed_init buffer') (fun _ _ => rfl) hshort'
      fun r hr => (List.mem_filter.mp hr).2
  -- both sides are `a`'s own game on `a`'s own datagrams
  have hgame : game secretNumber none (rs.filter fun r => r.isFrom a) a =
      game secretNumber none rs a := by
    simp [game, List.filter_filter]
  constructor
  · rw [replies_eq_game (keyed_init buffer) hshort hroom,
      replies_eq_game (keyed_init buffer') hshort' hroom']
    exact congrArg (fun g => g.2.map Packet.text) hgame.symm
  · rw [attemptsOf_after (keyed_init buffer) hshort hroom,
      attemptsOf_after (keyed_init buffer') hshort' hroom']
    exact congrArg Prod.fst hgame.symm

/-- Two players, one of them winning, in either order of arrival. -/
theorem replies_isolated_two_players :
    replies 7 (Server.init (Buf.zero bufferSize))
        [.got ⟨⟨2, 1, 1, 0⟩, ascii "3"⟩, .got ⟨⟨2, 2, 1, 0⟩, ascii "7"⟩,
          .got ⟨⟨2, 1, 1, 0⟩, ascii "5"⟩] ⟨2, 1, 1, 0⟩ =
      replies 7 (Server.init (Buf.zero bufferSize))
        [.got ⟨⟨2, 1, 1, 0⟩, ascii "3"⟩, .got ⟨⟨2, 1, 1, 0⟩, ascii "5"⟩] ⟨2, 1, 1, 0⟩ :=
  (replies_isolated 7 (Buf.zero bufferSize) (Buf.zero bufferSize)
    [.got ⟨⟨2, 1, 1, 0⟩, ascii "3"⟩, .got ⟨⟨2, 2, 1, 0⟩, ascii "7"⟩,
      .got ⟨⟨2, 1, 1, 0⟩, ascii "5"⟩] (by decide) (by decide +kernel) ⟨2, 1, 1, 0⟩).1

/-! ## the refused guess -/

theorem locate_of_full {clients : List ClientInfo} {a : SockaddrIn}
    (h : attemptsOf clients a = none) (hfull : ¬ clients.length < fdSetSize) :
    locate clients a = (clients, (clients.length : Int) - 1) := by
  rw [locate, if_pos (findClient_eq_neg_one_iff.mpr h), addClient, if_neg hfull]

/-- An unknown address and a full table: the guess is played on the entry of
the last client of the table. -/
theorem refused_guess_charges_last (secretNumber : Int) {s : Server}
    (hn : Keyed ClientInfo.addr s.clients) {d : Datagram} (hd : d.payload.length < bufferSize)
    (h : attemptsOf s.clients d.src = none) (hfull : ¬ s.clientCount < fdSetSize)
    {front : List ClientInfo} {last : ClientInfo} (hlast : s.clients = front ++ [last])
    (k : SockaddrIn) :
    attemptsOf (iteration secretNumber s (.got d)).1.clients k =
      if k = last.addr then
        (verdict secretNumber (guessOf d.payload) last.attempts).attempts last.attempts
      else attemptsOf s.clients k := by
  have hlen : s.clients.length = front.length + 1 := by simp [hlast]
  have hidx : (s.clients.length : Int) - 1 = (front.length : Nat) := by omega
  have hi : front.length < s.clients.length := by omega
  have hget : s.clients[front.length] = last := by simp [hlast]
  have hplay := attemptsOf_play hn hi secretNumber (guessOf d.payload) k
  simp only [iteration, locate_of_full h hfull, hidx, guess_receive s.buffer hd]
  rw [hplay, hget]

theorem replies_append (secretNumber : Int) (s : Server) (rs rs' : List Recv) (a : SockaddrIn) :
    replies secretNumber s (rs ++ rs') a =
      replies secretNumber s rs a ++ replies secretNumber (after secretNumber s rs) rs' a := by
  simp [replies, after, textsTo_append, run_append_snd]

/-- The `i`-th of a crowd of different players. -/
def player (i : Nat) : SockaddrIn := ⟨2, 0, UInt32.ofNat i, 0⟩

/-- A guess of `1` by player `i`. -/
def bet (i : Nat) : Recv := .got ⟨player i, ascii "1"⟩

/-- One guess each by the first `n` players of the crowd. -/
def crowd (n : Nat) : List Recv := (List.range n).map bet

theorem player_injective {i j : Nat} (hi : i < UInt32.size) (hj : j < UInt32.size)
    (h : player i = player j) : i = j := by
  have haddr : (UInt32.ofNat i).toNat = (UInt32.ofNat j).toNat :=
    congrArg (fun a => a.sinAddr.toNat) h
  rwa [UInt32.toNat_ofNat_of_lt' hi, UInt32.toNat_ofNat_of_lt' hj] at haddr

/-- The entries of the first `n` players after their first wrong guess. -/
def crowdTable (n : Nat) : List ClientInfo := (List.range n).map fun i => ⟨player i, 1⟩

theorem length_crowdTable (n : Nat) : (crowdTable n).length = n := by
  simp [crowdTable]

theorem attemptsOf_crowdTable_eq_none {n i : Nat} (hi : n ≤ i) (hlt : i < UInt32.size) :
    attemptsOf (crowdTable n) (player i) = none := by
  rw [attemptsOf_eq_none_iff, lookup_eq_none_iff]
  intro c hc
  obtain ⟨j, hj, rfl⟩ := List.mem_map.mp hc
  have hjn : j < n := List.mem_range.mp hj
  exact fun heq => absurd (player_injective (by omega) hlt heq) (by omega)

/-- The crowd fills the table in order of arrival. -/
theorem clients_after_crowd (buffer : Buf bufferSize) {n : Nat} (hle : n ≤ fdSetSize) :
    (after 7 (Server.init buffer) (crowd n)).clients = crowdTable n := by
  induction n with
  | zero => rfl
  | succ n ih =>
      have hcs := ih (Nat.le_of_succ_le hle)
      have hcap : fdSetSize = 1024 := rfl
      have hsize : UInt32.size = 4294967296 := rfl
      have hnew : attemptsOf (crowdTable n) (player n) = none :=
        attemptsOf_crowdTable_eq_none (Nat.le_refl n) (by omega)
      have hloc : locate (crowdTable n) (player n) =
          (crowdTable n ++ [⟨player n, 0⟩], ((crowdTable n).length : Int)) := by
        rw [locate, if_pos (findClient_eq_neg_one_iff.mpr hnew), addClient,
          if_pos (by rw [length_crowdTable]; omega)]
        simp
      have hguess : atoi (receive (after 7 (Server.init buffer) (crowd n)).buffer (ascii "1")).text
          = guessOf (ascii "1") := guess_receive _ (by decide)
      have hone : guessOf (ascii "1") = 1 := by decide
      have hsucc : crowdTable (n + 1) = crowdTable n ++ [⟨player n, 1⟩] := by
        simp [crowdTable, List.range_succ]
      rw [crowd, List.range_succ, List.map_append, List.map_singleton, after, run_append_fst,
        run_cons_fst, run_nil, ← crowd, ← after, bet, hsucc]
      simp only [iteration, hcs, hloc, hguess, hone]
      rw [play_eq _ _ (by simp)]
      simp [verdict, maxAttempts, Verdict.final, countAttempt, modify_append_singleton]

theorem keyed_crowdTable {n : Nat} (hn : n ≤ UInt32.size) :
    Keyed ClientInfo.addr (crowdTable n) := by
  have hmap : (crowdTable n).map ClientInfo.addr = (List.range n).map player := by
    simp [crowdTable, Function.comp_def]
  unfold Keyed
  rw [hmap]
  refine List.Nodup.map_on ?_ List.nodup_range
  intro i hi j hj h
  have hin := List.mem_range.mp hi
  have hjn := List.mem_range.mp hj
  exact player_injective (by omega) (by omega) h

/-- A guess of player 1024, who finds the table full, and then one of player
1023: the latter is sent away after two guesses. -/
theorem replies_after_crowd (buffer : Buf bufferSize) :
    replies 7 (after 7 (Server.init buffer) (crowd 1024)) [bet 1024, bet 1023] (player 1023) =
      [loseMsg] := by
  have hcs := clients_after_crowd buffer (Nat.le_refl fdSetSize)
  change (after 7 (Server.init buffer) (crowd 1024)).clients = crowdTable 1024 at hcs
  generalize after 7 (Server.init buffer) (crowd 1024) = s at hcs
  have hn : Keyed ClientInfo.addr s.clients := hcs ▸ keyed_crowdTable (by decide)
  have hbet : (ascii "1").length < bufferSize := by decide
  -- the guess of player 1024 costs player 1023 an attempt
  have hnew : attemptsOf s.clients (player 1024) = none :=
    hcs ▸ attemptsOf_crowdTable_eq_none (Nat.le_refl 1024) (by decide)
  have hlast : s.clients = crowdTable 1023 ++ [⟨player 1023, 1⟩] := by
    rw [hcs]
    simp [crowdTable, List.range_succ (n := 1023)]
  have hfull : ¬ s.clientCount < fdSetSize := by
    rw [Server.clientCount, hcs, length_crowdTable]
    decide
  have hcharged := refused_guess_charges_last 7 hn (d := ⟨player 1024, ascii "1"⟩) hbet hnew hfull
    hlast (player 1023)
  rw [if_pos rfl] at hcharged
  obtain ⟨x, n, turn⟩ := iteration_turn 7 hn (d := ⟨player 1024, ascii "1"⟩) hbet
  -- and the next one of player 1023 is the third on that entry
  obtain ⟨y, m, turn'⟩ := iteration_turn 7 turn.keyed (d := ⟨player 1023, ascii "1"⟩) hbet
  have hown : y = player 1023 := turn'.own (Or.inl (by rw [hcharged]; decide))
  have hm : m = 2 := by
    rw [turn'.used, hown, hcharged]
    decide
  have hne : player 1024 ≠ player 1023 := by decide
  have hto : ∀ t, textsTo (player 1023) [⟨player 1024, t⟩] = [] := fun t => by
    rw [textsTo, List.filter_cons_of_neg (by simpa using hne), List.filter_nil, List.map_nil]
  simp only [replies, bet, run_cons_snd, run_nil, List.append_nil, turn'.sent, hm, textsTo_append,
    turn.sent, hto]
  decide

/-- **Players are not isolated in a full table**: after 1024 players have made
one wrong guess each, one guess of a further player costs the last of them an
attempt, and that player is sent away after two guesses. -/
theorem players_not_isolated :
    ¬ ∀ (secretNumber : Int) (buffer : Buf bufferSize) (rs : List Recv),
      (∀ r ∈ rs, r.Short bufferSize) → ∀ a,
        replies secretNumber (Server.init buffer) rs a =
          replies secretNumber (Server.init buffer) (rs.filter fun r => r.isFrom a) a := by
  intro h
  have hshort : ∀ r ∈ crowd 1024 ++ [bet 1024, bet 1023], r.Short bufferSize := by
    intro r hr
    have hbet : ∃ i, r = bet i := by
      rcases List.mem_append.mp hr with hr | hr
      · obtain ⟨i, _, rfl⟩ := List.mem_map.mp hr
        exact ⟨i, rfl⟩
      · simp only [List.mem_cons, List.not_mem_nil, or_false] at hr
        rcases hr with rfl | rfl
        · exact ⟨1024, rfl⟩
        · exact ⟨1023, rfl⟩
    obtain ⟨i, rfl⟩ := hbet
    show (ascii "1").length < bufferSize
    decide
  have heq := h 7 (Buf.zero bufferSize) _ hshort (player 1023)
  -- alone, player 1023 is asked to try again twice
  have halone : (crowd 1024 ++ [bet 1024, bet 1023]).filter (fun r => r.isFrom (player 1023)) =
      [bet 1023, bet 1023] := by
    decide +kernel
  have hright : replies 7 (Server.init (Buf.zero bufferSize)) [bet 1023, bet 1023] (player 1023) =
      [tryAgainMsg, tryAgainMsg] := by
    decide +kernel
  rw [halone, hright, replies_append, replies_after_crowd] at heq
  have hend := congrArg List.getLast? heq
  rw [List.getLast?_append] at hend
  revert hend
  decide

end Reti.Lottery
