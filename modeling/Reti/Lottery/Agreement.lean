import Reti.Lottery.Client
import Reti.Lottery.Invariant

/-!
# Reti.Lottery.Agreement

Client and server agree on the end of a game.

`Stage` is the invariant of the composed system: it says, for each point of
the client's loop, what is in flight and which attempts the server holds
against the client.  `sysInv_sysStep` shows that every event keeps it, and
`client_server_agree` reads the agreement off it: the client makes between one
and three exchanges, the last reply and no other is final, and when the client
stops the server holds no entry for it.
-/

namespace Reti.Lottery

open CStr KeyTable Transducer

/-- The attempts the server holds against a player who has been asked to try
again `i` times. -/
def used (i : Nat) : Option Nat := if i = 0 then none else some i

theorem getD_used (i : Nat) : (used i).getD 0 = i := by
  cases i <;> rfl

theorem used_succ (i : Nat) : used (i + 1) = some (i + 1) := rfl

/-- The text ends a game. -/
def Final (t : List UInt8) : Prop := t = winMsg ∨ t = loseMsg

theorem not_final_tryAgainMsg : ¬ Final tryAgainMsg := by
  unfold Final
  decide

theorem final_text {v : Verdict} (h : v.final = true) : Final v.text := by
  cases v with
  | win => exact Or.inl rfl
  | exhausted => exact Or.inr rfl
  | retry => cases h

/-- Where the game stands: the client `c`, what is in flight to the server and
to the client, the attempts `view` the server holds against the client, the
number `n` of events of the client's own so far, and the replies `out`. -/
inductive Stage (c : Client) (toServer toClient : List (List UInt8)) (view : Option Nat)
    (n : Nat) (out : List (List UInt8)) : Prop
  /-- The user is to type the next guess. -/
  | typing (phase : c.phase = .typing) (turn : c.i = out.length) (bound : out.length < 3)
      (toServer_eq : toServer = []) (toClient_eq : toClient = []) (held : view = used out.length)
      (again : ∀ t ∈ out, t = tryAgainMsg) (count : n = 3 * out.length)
  /-- The guess is on its way to the server. -/
  | asked (payload : List UInt8) (short : payload.length < bufferSize)
      (phase : c.phase = .waiting) (turn : c.i = out.length) (bound : out.length < 3)
      (toServer_eq : toServer = [payload]) (toClient_eq : toClient = [])
      (held : view = used out.length) (again : ∀ t ∈ out, t = tryAgainMsg)
      (count : n = 3 * out.length + 1)
  /-- The reply is on its way back. -/
  | answered (v : Verdict) (phase : c.phase = .waiting) (turn : c.i = out.length)
      (bound : out.length < 3) (more : v = .retry → out.length + 1 < 3)
      (toServer_eq : toServer = []) (toClient_eq : toClient = [v.text])
      (held : view = v.attempts out.length) (again : ∀ t ∈ out, t = tryAgainMsg)
      (count : n = 3 * out.length + 2)
  /-- The client has left its loop. -/
  | stopped (before : List (List UInt8)) (last : List UInt8) (phase : c.phase = .stopped)
      (toServer_eq : toServer = []) (toClient_eq : toClient = []) (held : view = none)
      (received : out = before ++ [last]) (bound : out.length ≤ 3) (final : Final last)
      (again : ∀ t ∈ before, t = tryAgainMsg) (count : n = 3 * out.length)

section Steps

variable {c : Client} {toServer toClient : List (List UInt8)} {view : Option Nat} {n : Nat}
  {out : List (List UInt8)}

/-- A typed line is sent. -/
theorem Stage.typeLine (h : Stage c toServer toClient view n out) (hphase : c.phase = .typing)
    {line : List UInt8} (hline : line.length < bufferSize) :
    Stage (c.typeLine line).1 (toServer ++ [(c.typeLine line).2]) toClient view (n + 1) out := by
  cases h with
  | typing _ turn bound toServer_eq toClient_eq held again count =>
      exact .asked _ (length_typeLine_lt c hline) rfl turn bound (by rw [toServer_eq]; rfl)
        toClient_eq held again (by omega)
  | asked _ _ phase | answered _ phase | stopped _ _ phase =>
      rw [hphase] at phase
      cases phase

/-- The server plays the guess in the client's own game. -/
theorem Stage.serve {payload : List UInt8} {rest : List (List UInt8)}
    (h : Stage c toServer toClient view n out) (hsrv : toServer = payload :: rest)
    (secretNumber : Int) (a : SockaddrIn) :
    payload.length < bufferSize ∧
      Stage c rest
        (toClient ++ (playGuess secretNumber view (.got ⟨a, payload⟩)).2.map Packet.text)
        (playGuess secretNumber view (.got ⟨a, payload⟩)).1 (n + 1) out := by
  cases h with
  | asked payload' short phase turn bound toServer_eq toClient_eq held again count =>
      rw [hsrv, List.cons.injEq] at toServer_eq
      obtain ⟨rfl, hrest⟩ := toServer_eq
      refine ⟨short, .answered (verdict secretNumber (guessOf payload) out.length) phase turn bound
        ?_ hrest ?_ ?_ again (by omega)⟩
      · intro hv
        have hmore : (verdict secretNumber (guessOf payload) out.length).attempts out.length =
            some (out.length + 1) := by
          rw [hv]; rfl
        have hle := (attempts_verdict_le hmore).2
        have hmax : maxAttempts = 3 := rfl
        omega
      · simp [playGuess, held, getD_used, toClient_eq]
      · simp [playGuess, held, getD_used]
  | typing _ _ _ toServer_eq | answered _ _ _ _ _ toServer_eq | stopped _ _ _ toServer_eq =>
      rw [hsrv] at toServer_eq
      cases toServer_eq

/-- The client receives the reply: it stops at a final one, and goes on at any
other. -/
theorem Stage.deliver {reply : List UInt8} {rest : List (List UInt8)}
    (h : Stage c toServer toClient view n out) (hcl : toClient = reply :: rest) :
    Stage (c.receiveReply reply) toServer rest view (n + 1) (out ++ [reply]) := by
  have hlen : (out ++ [reply]).length = out.length + 1 := by simp
  cases h with
  | answered v phase turn bound more toServer_eq toClient_eq held again count =>
      rw [hcl, List.cons.injEq] at toClient_eq
      obtain ⟨rfl, hrest⟩ := toClient_eq
      rw [receiveReply_text]
      cases hv : v.final with
      | true =>
          exact .stopped out v.text rfl toServer_eq hrest
            (held.trans (attempts_eq_none_iff.mpr hv)) rfl (by omega) (final_text hv) again
            (by omega)
      | false =>
          have hretry : v = .retry := by
            cases v with
            | retry => rfl
            | win | exhausted => cases hv
          have hbound := more hretry
          subst hretry
          rw [if_neg (by simp), if_pos (by omega)]
          refine .typing rfl (by simp only; omega) (by omega) toServer_eq hrest ?_ ?_ (by omega)
          · rw [held, hlen, used_succ]
            rfl
          · intro t ht
            rcases List.mem_append.mp ht with ht | ht
            · exact again t ht
            · exact List.mem_singleton.mp ht
  | typing _ _ _ _ toClient_eq | asked _ _ _ _ _ _ toClient_eq | stopped _ _ _ _ toClient_eq =>
      rw [hcl] at toClient_eq
      cases toClient_eq

end Steps

/-! ## the invariant of the system -/

/-- The server's table is well formed and the game is at some stage. -/
structure SysInv (a : SockaddrIn) (s : Sys) (es : List Ev) (out : List (List UInt8)) : Prop where
  keyed : Keyed ClientInfo.addr s.server.clients
  stage : Stage s.client s.toServer s.toClient (attemptsOf s.server.clients a)
    (es.countP Ev.own) out

/-- **Step lemma**: every admitted event keeps the invariant of the system. -/
theorem sysInv_sysStep (secretNumber : Int) (a : SockaddrIn) (s : Sys) (es : List Ev)
    (out : List (List UInt8)) (e : Ev) (h : SysInv a s es out)
    (hok : Enabled a s e ∧ FindsRoom a s e) :
    SysInv a (sysStep secretNumber a s e).1 (es ++ [e])
      (out ++ (sysStep secretNumber a s e).2) := by
  have u := unwinding secretNumber a
  obtain ⟨keyed, stage⟩ := h
  cases e with
  | typed line =>
      refine ⟨keyed, ?_⟩
      rw [List.countP_append]
      simpa [sysStep, Ev.own] using stage.typeLine hok.1.1 hok.1.2
  | serve =>
      cases hsrv : s.toServer with
      | nil => exact absurd hsrv hok.1
      | cons payload rest =>
          obtain ⟨hshort, hstage⟩ := stage.serve hsrv secretNumber a
          have hroom : Recv.Short bufferSize (.got ⟨a, payload⟩) ∧
              HasRoom s.server (.got ⟨a, payload⟩) := ⟨hshort, hok.2⟩
          have hown : (Recv.got ⟨a, payload⟩).isFrom a = true := by simp [Recv.isFrom]
          have hview := u.own_view s.server _ keyed hroom hown
          have hsee := u.own_see s.server _ keyed hroom hown
          simp only [sysStep, hsrv]
          refine ⟨u.inv s.server _ keyed hroom, ?_⟩
          rw [List.countP_append, hview, textsTo, hsee]
          simpa [Ev.own] using hstage
  | other r =>
      have hroom : r.Short bufferSize ∧ HasRoom s.server r := ⟨hok.1.2, hok.2⟩
      have hview := u.other_view s.server r keyed hroom hok.1.1
      have hsee := u.other_see s.server r keyed hroom hok.1.1
      refine ⟨u.inv s.server r keyed hroom, ?_⟩
      rw [List.countP_append]
      simpa [sysStep, Ev.own, textsTo, hsee, hview] using stage
  | deliver =>
      cases hcl : s.toClient with
      | nil => exact absurd hcl hok.1.2
      | cons reply rest =>
          simp only [sysStep, hcl]
          refine ⟨keyed, ?_⟩
          rw [List.countP_append]
          simpa [Ev.own] using stage.deliver hcl

/-- **Run lemma**: the invariant of the system holds after every admitted run
from a server that has no entry for `a`. -/
theorem sysInv_playSys {secretNumber : Int} {a : SockaddrIn} {server : Server}
    (hserver : Reachable secretNumber server) (hnew : attemptsOf server.clients a = none)
    (buffer : Buf bufferSize) {es : List Ev} (hes : Admitted secretNumber a server buffer es) :
    SysInv a (playSys secretNumber a server buffer es).1 es
      (playSys secretNumber a server buffer es).2 := by
  refine run_hist (sysInv_sysStep secretNumber a) ?_ hes
  exact {
    keyed := (tableInv_of_reachable hserver).addrs_nodup
    stage := .typing rfl rfl (by simp) rfl rfl (by rw [Sys.start, hnew]; rfl) (by simp) rfl }

/-! ## agreement -/

/-- **Agreement of client and server**: a client is started at an address `a`
that the server does not know, and `es` is any interleaving of its exchanges
with other datagrams in which every unknown sender finds room.  At most nine
events of `es` are the client's own; as long as the client has not stopped one
more of them can happen; and once it has stopped it has made `k` exchanges with
`1 ≤ k ≤ 3`, the last reply and no other is final, and the server holds no
entry for `a`. -/
theorem client_server_agree {secretNumber : Int} {a : SockaddrIn} {server : Server}
    (hserver : Reachable secretNumber server) (hnew : attemptsOf server.clients a = none)
    (buffer : Buf bufferSize) {es : List Ev} (hes : Admitted secretNumber a server buffer es) :
    es.countP Ev.own ≤ 9 ∧
      ((playSys secretNumber a server buffer es).1.client.phase ≠ .stopped →
        ∃ e : Ev, e.own = true ∧ Enabled a (playSys secretNumber a server buffer es).1 e) ∧
      ((playSys secretNumber a server buffer es).1.client.phase = .stopped →
        ∃ before last, (playSys secretNumber a server buffer es).2 = before ++ [last] ∧
          (before ++ [last]).length ≤ 3 ∧
          es.countP Ev.own = 3 * (before ++ [last]).length ∧
          Final last ∧ (∀ t ∈ before, ¬ Final t) ∧
          attemptsOf (playSys secretNumber a server buffer es).1.server.clients a = none) := by
  have hstage := (sysInv_playSys hserver hnew buffer hes).stage
  cases hstage with
  | typing phase _ bound _ _ _ _ count =>
      refine ⟨by omega, fun _ => ⟨.typed [], rfl, phase, by decide⟩, fun hstop => ?_⟩
      rw [phase] at hstop
      cases hstop
  | asked payload _ phase _ bound toServer_eq _ _ _ count =>
      refine ⟨by omega, fun _ => ⟨.serve, rfl, ?_⟩, fun hstop => ?_⟩
      · rw [Enabled, toServer_eq]
        exact List.cons_ne_nil _ _
      · rw [phase] at hstop
        cases hstop
  | answered v phase _ bound _ _ toClient_eq _ _ count =>
      refine ⟨by omega, fun _ => ⟨.deliver, rfl, phase, ?_⟩, fun hstop => ?_⟩
      · rw [toClient_eq]
        exact List.cons_ne_nil _ _
      · rw [phase] at hstop
        cases hstop
  | stopped before last phase _ _ held received bound final again count =>
      refine ⟨by omega, fun hne => absurd phase hne, fun _ => ?_⟩
      refine ⟨before, last, received, received ▸ bound, received ▸ count, final, ?_, held⟩
      intro t ht
      rw [again t ht]
      exact not_final_tryAgainMsg

/-- A game won at the second guess, with another player's guess in between. -/
theorem client_server_agree_second_guess :
    let es : List Ev := [.typed (ascii "3\n"), .serve, .other (.got ⟨⟨2, 2, 1, 0⟩, ascii "4"⟩),
      .deliver, .typed (ascii "7\n"), .serve, .deliver]
    let played :=
      playSys 7 ⟨2, 1, 1, 0⟩ (Server.init (Buf.zero bufferSize)) (Buf.zero bufferSize) es
    played.2 = [tryAgainMsg, winMsg] ∧
      ∃ before last, played.2 = before ++ [last] ∧ (before ++ [last]).length ≤ 3 ∧
        es.countP Ev.own = 3 * (before ++ [last]).length ∧ Final last ∧
        (∀ t ∈ before, ¬ Final t) ∧ attemptsOf played.1.server.clients ⟨2, 1, 1, 0⟩ = none := by
  intro es played
  have hes : Admitted 7 ⟨2, 1, 1, 0⟩ (Server.init (Buf.zero bufferSize)) (Buf.zero bufferSize)
      es := by decide +kernel
  have hagree := client_server_agree (.init (Buf.zero bufferSize)) rfl (Buf.zero bufferSize) hes
  exact ⟨by decide +kernel, hagree.2.2 (by decide +kernel)⟩

end Reti.Lottery
