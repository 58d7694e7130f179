import Reti.AlternatingChat.System

/-!
# Reti.AlternatingChat.Stop

The two programs agree on `STOP`.  Nothing tells a program that the other one has left,
but its buffer still holds what it typed last: if that was `STOP`, the `recv` that
returns 0 finds it there.

`Stage` lists the states that can be reached, turn by turn; the agreement is read off
it.
-/

namespace Reti.AlternatingChat

open CStr Transducer

variable (clientItems serverItems : Nat → List UInt8)

/-- What `%s` shows of the first `t` items of a keyboard. -/
def texts (items : Nat → List UInt8) (t : Nat) : List (List UInt8) :=
  (List.range t).map fun k => cstr (items k)

/-- Nobody has typed `STOP` in the turns before turn `t`. -/
def Quiet (t : Nat) : Prop := ∀ k < t, clientItems k ≠ stopCmd ∧ serverItems k ≠ stopCmd

/-- Somebody has typed `STOP`. -/
def Stopped (s : Sys) : Prop :=
  (∃ k < s.client.typed, clientItems k = stopCmd) ∨ ∃ k < s.server.typed, serverItems k = stopCmd

/-! ## the stages of a conversation -/

/-- The states of turn `t`, in the order in which they follow each other, and the states
in which one or both have left. -/
inductive Stage : Sys → Prop where
  | clientTurn (t) (h : Quiet clientItems serverItems t) (b b') :
    Stage ⟨⟨.types, b, t, texts serverItems t⟩, ⟨.receives, b', t, texts clientItems t⟩, [], []⟩
  | toServer (t) (h : Quiet clientItems serverItems t) (b b') (hb : b.text = cstr (clientItems t)) :
    Stage ⟨⟨.receives, b, t + 1, texts serverItems t⟩, ⟨.receives, b', t, texts clientItems t⟩,
      [b], []⟩
  | serverTurn (t) (h : Quiet clientItems serverItems t) (hc : clientItems t ≠ stopCmd) (b b') :
    Stage ⟨⟨.receives, b, t + 1, texts serverItems t⟩,
      ⟨.types, b', t, texts clientItems (t + 1)⟩, [], []⟩
  | toClient (t) (h : Quiet clientItems serverItems t) (hc : clientItems t ≠ stopCmd) (b b')
    (hb : b'.text = cstr (serverItems t)) :
    Stage ⟨⟨.receives, b, t + 1, texts serverItems t⟩,
      ⟨.receives, b', t + 1, texts clientItems (t + 1)⟩, [], [b']⟩
  | serverLeft (t) (hc : clientItems t = stopCmd) (b b') (hb : b.text = stopCmd) (shown shown') :
    Stage ⟨⟨.receives, b, t + 1, shown⟩, ⟨.returned, b', t, shown'⟩, [], []⟩
  | clientLeft (t) (hs : serverItems t = stopCmd) (b b') (hb : b'.text = stopCmd) (shown shown') :
    Stage ⟨⟨.returned, b, t + 1, shown⟩, ⟨.receives, b', t + 1, shown'⟩, [], []⟩
  | bothLeft (m n) (h : (∃ k < m, clientItems k = stopCmd) ∨ ∃ k < n, serverItems k = stopCmd)
    (b b' shown shown') :
    Stage ⟨⟨.returned, b, m, shown⟩, ⟨.returned, b', n, shown'⟩, [], []⟩

theorem stage_init (b b' : Buf maxBufferSize) : Stage clientItems serverItems (.init b b') :=
  .clientTurn 0 (by intro k hk; cases hk) b b'

variable {clientItems serverItems}

/-- An item that was typed is what the buffer holds. -/
theorem text_type {p : Process} {items : Nat → List UInt8}
    (h : ∀ n, FgetsItem maxBufferSize (items n)) :
    (p.type items).buffer.text = cstr (items p.typed) := by
  exact p.buffer.text_fill_terminated ((h p.typed).length_lt (by decide))

/-- When the other side has closed, what was typed last is compared. -/
theorem receive_nothing {b : Buf maxBufferSize} (h : b.text = stopCmd) (pc : Pc) (typed : Nat)
    (printed : List (List UInt8)) :
    (Process.mk pc b typed printed).receive none =
      ⟨.returned, b, typed, printed ++ [stopCmd]⟩ := by
  simp [Process.receive, h]

theorem cstr_eq_stop_iff {line : List UInt8} (h : FgetsItem maxBufferSize line) :
    cstr line = stopCmd ↔ line = stopCmd := by
  have hstop : stopCmd = ascii "STOP" ++ [newline] := by decide
  rw [hstop]
  exact h.cstr_eq_iff (by decide)

/-- A block replaces what the buffer held; it stops the program if the line in it does. -/
theorem receive_line (p : Process) {block : Buf maxBufferSize} {line : List UInt8}
    (h : FgetsItem maxBufferSize line) (hblock : block.text = cstr line) :
    p.receive (some block) =
      { p with
        pc := if line = stopCmd then .returned else .types
        buffer := block
        printed := p.printed ++ [cstr line] } := by
  simp [Process.receive, hblock, cstr_eq_stop_iff h]

theorem texts_succ (items : Nat → List UInt8) (t : Nat) :
    texts items (t + 1) = texts items t ++ [cstr (items t)] := by
  simp [texts, List.range_succ]

/-- **Step lemma**. -/
theorem stage_step (hc : ∀ n, FgetsItem maxBufferSize (clientItems n))
    (hs : ∀ n, FgetsItem maxBufferSize (serverItems n)) {s : Sys}
    (h : Stage clientItems serverItems s) {e : Side} (he : Enabled s e) :
    Stage clientItems serverItems (step clientItems serverItems s e).1 := by
  cases h with
  | clientTurn t h b b' =>
      cases e with
      | client => exact .toServer t h _ _ (text_type hc)
      | server => simp [Enabled, ready] at he
  | toServer t h b b' hb =>
      cases e with
      | client => simp [Enabled, ready] at he
      | server =>
          simp only [step, List.head?_cons, List.tail_cons, receive_line _ (hc t) hb, ← texts_succ]
          by_cases hstop : clientItems t = stopCmd
          · rw [if_pos hstop]
            exact .serverLeft t hstop b b (by rw [hb, (cstr_eq_stop_iff (hc t)).mpr hstop]) _ _
          · rw [if_neg hstop]
            exact .serverTurn t h hstop b b
  | serverTurn t h hne b b' =>
      cases e with
      | client => simp [Enabled, ready] at he
      | server => exact .toClient t h hne _ _ (text_type hs)
  | toClient t h hne b b' hb =>
      cases e with
      | client =>
          simp only [step, List.head?_cons, List.tail_cons, receive_line _ (hs t) hb, ← texts_succ]
          by_cases hstop : serverItems t = stopCmd
          · rw [if_pos hstop]
            exact .clientLeft t hstop b' b' (by rw [hb, (cstr_eq_stop_iff (hs t)).mpr hstop]) _ _
          · rw [if_neg hstop]
            refine .clientTurn (t + 1) (fun k hk => ?_) b' b'
            cases Nat.lt_succ_iff_lt_or_eq.mp hk with
            | inl hlt => exact h k hlt
            | inr heq => exact heq ▸ ⟨hne, hstop⟩
      | server => simp [Enabled, ready] at he
  | serverLeft t hstop b b' hb shown shown' =>
      cases e with
      | client =>
          simp only [step, List.head?_nil, List.tail_nil, receive_nothing hb]
          exact .bothLeft _ _ (.inl ⟨t, Nat.lt_succ_self t, hstop⟩) _ _ _ _
      | server => simp [Enabled, ready] at he
  | clientLeft t hstop b b' hb shown shown' =>
      cases e with
      | client => simp [Enabled, ready] at he
      | server =>
          simp only [step, List.head?_nil, List.tail_nil, receive_nothing hb]
          exact .bothLeft _ _ (.inr ⟨t, Nat.lt_succ_self t, hstop⟩) _ _ _ _
  | bothLeft m n h b b' shown shown' => cases e <;> simp [Enabled, ready] at he

/-- **Run lemma**. -/
theorem stage_run (hc : ∀ n, FgetsItem maxBufferSize (clientItems n))
    (hs : ∀ n, FgetsItem maxBufferSize (serverItems n)) {s : Sys}
    (h : Stage clientItems serverItems s) {es : List Side}
    (hes : Along (step clientItems serverItems) Enabled s es) :
    Stage clientItems serverItems (run (step clientItems serverItems) s es).1 := by
  have hstep : ∀ s e, Stage clientItems serverItems s → Enabled s e →
      Stage clientItems serverItems (step clientItems serverItems s e).1 :=
    fun _ _ h he => stage_step hc hs h he
  exact run_inv hstep h hes

/-! ## before and after `STOP` -/

/-- Nobody has left, and what each side has displayed is, turn by turn, what the other
one has typed, apart from a block that is still on its way. -/
structure Talking (clientItems serverItems : Nat → List UInt8) (s : Sys) : Prop where
  client : s.client.pc ≠ .returned
  server : s.server.pc ≠ .returned
  clientPrinted :
    s.client.printed ++ s.toClient.map Buf.text = texts serverItems s.server.typed
  serverPrinted :
    s.server.printed ++ s.toServer.map Buf.text = texts clientItems s.client.typed

theorem talking_of_not_stopped {s : Sys} (h : Stage clientItems serverItems s)
    (hn : ¬Stopped clientItems serverItems s) : Talking clientItems serverItems s := by
  cases h with
  | clientTurn t h b b' => constructor <;> simp
  | toServer t h b b' hb => constructor <;> simp [hb, texts_succ]
  | serverTurn t h hne b b' => constructor <;> simp
  | toClient t h hne b b' hb => constructor <;> simp [hb, texts_succ]
  | serverLeft t hstop => exact absurd (.inl ⟨t, Nat.lt_succ_self t, hstop⟩) hn
  | clientLeft t hstop => exact absurd (.inr ⟨t, Nat.lt_succ_self t, hstop⟩) hn
  | bothLeft m n hstop => exact absurd hstop hn

/-- How many of the two have not left. -/
def present (s : Sys) : Nat :=
  (if s.client.pc = .returned then 0 else 1) + if s.server.pc = .returned then 0 else 1

theorem present_le (s : Sys) : present s ≤ 2 := by
  unfold present
  split <;> split <;> decide

/-- If nobody has typed `STOP` before turn `t`, it was typed in turn `t`. -/
theorem Quiet.stop_now {t m n : Nat} (h : Quiet clientItems serverItems t) (hm : m ≤ t + 1)
    (hn : n ≤ t + 1)
    (hstop : (∃ k < m, clientItems k = stopCmd) ∨ ∃ k < n, serverItems k = stopCmd) :
    (m = t + 1 ∧ clientItems t = stopCmd) ∨ (n = t + 1 ∧ serverItems t = stopCmd) := by
  obtain ⟨k, hk, hstop⟩ | ⟨k, hk, hstop⟩ := hstop
  · have hle : t ≤ k := Nat.le_of_not_lt fun hlt => (h k hlt).1 hstop
    obtain rfl : k = t := by omega
    exact .inl ⟨by omega, hstop⟩
  · have hle : t ≤ k := Nat.le_of_not_lt fun hlt => (h k hlt).2 hstop
    obtain rfl : k = t := by omega
    exact .inr ⟨by omega, hstop⟩

theorem Quiet.not_stopped {s : Sys} (h : Quiet clientItems serverItems s.client.typed)
    (hserver : s.server.typed ≤ s.client.typed) : ¬Stopped clientItems serverItems s := by
  intro hstop
  obtain ⟨ht, -⟩ | ⟨ht, -⟩ := h.stop_now (Nat.le_succ _) (Nat.le_succ_of_le hserver) hstop
  · omega
  · omega

/-- **Step lemma**: once `STOP` has been typed, a step is somebody's last, and nothing
more is read from a keyboard. -/
theorem stopped_step (hc : ∀ n, FgetsItem maxBufferSize (clientItems n))
    (hs : ∀ n, FgetsItem maxBufferSize (serverItems n)) {s : Sys}
    (h : Stage clientItems serverItems s) (hstop : Stopped clientItems serverItems s) {e : Side}
    (he : Enabled s e) :
    let s' := (step clientItems serverItems s e).1
    s'.client.typed = s.client.typed ∧ s'.server.typed = s.server.typed ∧
      present s' + 1 = present s := by
  cases h with
  | clientTurn t h b b' => exact absurd hstop (h.not_stopped (Nat.le_refl t))
  | toServer t h b b' hb =>
      obtain ⟨-, hct⟩ | ⟨ht, -⟩ := h.stop_now (Nat.le_refl _) (Nat.le_succ t) hstop
      · cases e with
        | client => simp [Enabled, ready] at he
        | server => simp [step, receive_line _ (hc t) hb, hct, present]
      · exact absurd ht (Nat.ne_of_lt (Nat.lt_succ_self t))
  | serverTurn t h hne b b' =>
      obtain ⟨-, hct⟩ | ⟨ht, -⟩ := h.stop_now (Nat.le_refl _) (Nat.le_succ t) hstop
      · exact absurd hct hne
      · exact absurd ht (Nat.ne_of_lt (Nat.lt_succ_self t))
  | toClient t h hne b b' hb =>
      obtain ⟨-, hct⟩ | ⟨-, hst⟩ := h.stop_now (Nat.le_refl _) (Nat.le_refl _) hstop
      · exact absurd hct hne
      · cases e with
        | client => simp [step, receive_line _ (hs t) hb, hst, present]
        | server => simp [Enabled, ready] at he
  | serverLeft t hct b b' hb shown shown' =>
      cases e with
      | client => simp [step, receive_nothing hb, present]
      | server => simp [Enabled, ready] at he
  | clientLeft t hst b b' hb shown shown' =>
      cases e with
      | client => simp [Enabled, ready] at he
      | server => simp [step, receive_nothing hb, present]
  | bothLeft m n h b b' shown shown' => cases e <;> simp [Enabled, ready] at he

theorem Stopped.of_typed {s s' : Sys} (h : Stopped clientItems serverItems s)
    (hc : s'.client.typed = s.client.typed) (hs : s'.server.typed = s.server.typed) :
    Stopped clientItems serverItems s' := by
  rwa [Stopped, hc, hs]

/-- **Run lemma**: a run after `STOP` reads nothing more, and has as many steps as there
are programs that leave in it. -/
theorem stopped_run (hc : ∀ n, FgetsItem maxBufferSize (clientItems n))
    (hs : ∀ n, FgetsItem maxBufferSize (serverItems n)) {s : Sys}
    (h : Stage clientItems serverItems s) (hstop : Stopped clientItems serverItems s)
    {es : List Side} (hes : Along (step clientItems serverItems) Enabled s es) :
    let s' := (run (step clientItems serverItems) s es).1
    s'.client.typed = s.client.typed ∧ s'.server.typed = s.server.typed ∧
      present s' + es.length = present s := by
  induction es generalizing s with
  | nil => exact ⟨rfl, rfl, rfl⟩
  | cons e es ih =>
      obtain ⟨hclient, hserver, hpresent⟩ := stopped_step hc hs h hstop hes.1
      obtain ⟨hclient', hserver', hpresent'⟩ :=
        ih (stage_step hc hs h hes.1) (hstop.of_typed hclient hserver) hes.2
      refine ⟨hclient'.trans hclient, hserver'.trans hserver, ?_⟩
      rw [run_cons_fst, List.length_cons, ← hpresent, ← hpresent', Nat.add_assoc]

/-- Somebody can take a step as long as not both have left. -/
theorem returned_of_stuck {s : Sys} (h : Stage clientItems serverItems s)
    (hstuck : ∀ e, ¬Enabled s e) : s.client.pc = .returned ∧ s.server.pc = .returned := by
  cases h with
  | clientTurn t h b b' => exact absurd trivial (hstuck .client)
  | toServer t h b b' hb => exact absurd (.inl (by simp)) (hstuck .server)
  | serverTurn t h hne b b' => exact absurd trivial (hstuck .server)
  | toClient t h hne b b' hb => exact absurd (.inl (by simp)) (hstuck .client)
  | serverLeft t hstop => exact absurd (.inr rfl) (hstuck .client)
  | clientLeft t hstop => exact absurd (.inr rfl) (hstuck .server)
  | bothLeft m n hstop => exact ⟨rfl, rfl⟩

/-- **Agreement on `STOP`**: whatever is typed and whatever the buffers held at first, in
every run nobody has left and each side displays what the other one typed as long as
nobody has typed `STOP`.  Once somebody has, nothing more is read from a keyboard, at
most two steps are left, and where no step is left both have returned. -/
theorem stop_agreement (hc : ∀ n, FgetsItem maxBufferSize (clientItems n))
    (hs : ∀ n, FgetsItem maxBufferSize (serverItems n)) (b b' : Buf maxBufferSize)
    {es : List Side} (hes : Along (step clientItems serverItems) Enabled (.init b b') es) :
    let s := (run (step clientItems serverItems) (.init b b') es).1
    (¬Stopped clientItems serverItems s → Talking clientItems serverItems s) ∧
      (Stopped clientItems serverItems s →
        ∀ fs, Along (step clientItems serverItems) Enabled s fs →
          let s' := (run (step clientItems serverItems) s fs).1
          s'.client.typed = s.client.typed ∧ s'.server.typed = s.server.typed ∧ fs.length ≤ 2 ∧
            ((∀ e, ¬Enabled s' e) → s'.client.pc = .returned ∧ s'.server.pc = .returned)) := by
  intro s
  have hstage : Stage clientItems serverItems s := stage_run hc hs (stage_init _ _ b b') hes
  refine ⟨talking_of_not_stopped hstage, fun hstop fs hfs => ?_⟩
  obtain ⟨hclient, hserver, hpresent⟩ := stopped_run hc hs hstage hstop hfs
  have hle := present_le s
  exact ⟨hclient, hserver, by omega, returned_of_stuck (stage_run hc hs hstage hfs)⟩

/-- The client types `STOP` at once: the server leaves, then the client. -/
theorem stop_agreement_client_first :
    let s := (run (step (fun _ => stopCmd) fun _ => ascii "ciao\n") (.init (.zero _) (.zero _))
      [.client]).1
    let s' := (run (step (fun _ => stopCmd) fun _ => ascii "ciao\n") s [.server, .client]).1
    s'.client.typed = s.client.typed ∧ s'.server.typed = s.server.typed ∧
      s'.client.pc = .returned ∧ s'.server.pc = .returned := by
  intro s s'
  have hagree := @stop_agreement (fun _ => stopCmd) (fun _ => ascii "ciao\n") (fun _ => by decide)
    (fun _ => by decide) (.zero _) (.zero _) [.client] (by decide +kernel)
  obtain ⟨hclient, hserver, -, hleft⟩ :=
    hagree.2 (.inl ⟨0, by decide +kernel, rfl⟩) [.server, .client] (by decide +kernel)
  exact ⟨hclient, hserver, hleft fun e => by cases e <;> decide +kernel⟩

end Reti.AlternatingChat
