import Mathlib.Data.List.Basic
import Mathlib.Data.List.Induction

/-!
# Reti.Lib.Transducer

Deterministic machines that read a sequence of events and write outputs:
runs, invariants along runs, simulation of one machine by another, and the
projection of a run onto one observer.

A machine is a plain function `step : σ → ε → σ × List ω`.  `run` threads it
through a list of events and collects the outputs in order.  Side conditions
on the state in which an event arrives are stated with `Along`.

`Unwinding` packages the two classical unwinding conditions: an event of the
observer acts on the observer's view as a local machine does, any other event
leaves the view and the seen outputs alone.  `Unwinding.run_eq` then says that
the observer cannot tell the whole run from the local machine run on the
observer's own events.
-/

namespace Transducer

/-! ## runs -/

/-- The final state and the outputs, in order, of a sequence of events. -/
def run (step : σ → ε → σ × List ω) (s : σ) : List ε → σ × List ω
  | [] => (s, [])
  | e :: es => ((run step (step s e).1 es).1, (step s e).2 ++ (run step (step s e).1 es).2)

variable {step : σ → ε → σ × List ω} {s : σ}

@[simp] theorem run_nil : run step s [] = (s, []) := rfl

@[simp] theorem run_cons_fst (e : ε) (es : List ε) :
    (run step s (e :: es)).1 = (run step (step s e).1 es).1 := rfl

@[simp] theorem run_cons_snd (e : ε) (es : List ε) :
    (run step s (e :: es)).2 = (step s e).2 ++ (run step (step s e).1 es).2 := rfl

/-- The state after two batches of events. -/
theorem run_append_fst (es fs : List ε) :
    (run step s (es ++ fs)).1 = (run step (run step s es).1 fs).1 := by
  induction es generalizing s with
  | nil => rfl
  | cons e es ih => rw [List.cons_append, run_cons_fst, run_cons_fst, ih]

/-- The outputs of two batches of events. -/
theorem run_append_snd (es fs : List ε) :
    (run step s (es ++ fs)).2 = (run step s es).2 ++ (run step (run step s es).1 fs).2 := by
  induction es generalizing s with
  | nil => rfl
  | cons e es ih =>
      rw [List.cons_append, run_cons_snd, run_cons_snd, run_cons_fst, ih, List.append_assoc]

/-- A machine that takes no more notice of what happens. -/
theorem run_stuck (h : ∀ e, step s e = (s, [])) (es : List ε) : run step s es = (s, []) := by
  induction es with
  | nil => rfl
  | cons e es ih => rw [run, h, ih, List.append_nil]

/-! ## side conditions along a run -/

/-- Every event of the run arrives in a state that meets `ok`. -/
def Along (step : σ → ε → σ × List ω) (ok : σ → ε → Prop) : σ → List ε → Prop
  | _, [] => True
  | s, e :: es => ok s e ∧ Along step ok (step s e).1 es

instance Along.decidable (step : σ → ε → σ × List ω) (ok : σ → ε → Prop)
    [∀ s e, Decidable (ok s e)] : (s : σ) → (es : List ε) → Decidable (Along step ok s es)
  | _, [] => inferInstanceAs (Decidable True)
  | s, e :: es =>
      have := Along.decidable step ok (step s e).1 es
      inferInstanceAs (Decidable (ok s e ∧ Along step ok (step s e).1 es))

variable {ok : σ → ε → Prop}

theorem along_append {es fs : List ε} :
    Along step ok s (es ++ fs) ↔
      Along step ok s es ∧ Along step ok (run step s es).1 fs := by
  induction es generalizing s with
  | nil => simp [Along]
  | cons e es ih => simp only [List.cons_append, Along, ih, run_cons_fst, and_assoc]

/-- Conditions agree along a run if they agree in the states of an invariant that the
steps under one of them keep. -/
theorem along_iff_along {Inv : σ → Prop} {ok' : σ → ε → Prop}
    (hstep : ∀ s e, Inv s → ok' s e → Inv (step s e).1)
    (h : ∀ s e, Inv s → (ok s e ↔ ok' s e)) (hs : Inv s)
    (es : List ε) : Along step ok s es ↔ Along step ok' s es := by
  induction es generalizing s with
  | nil => rfl
  | cons e es ih =>
      rw [Along, Along, h s e hs]
      exact and_congr_right fun hok => ih (hstep s e hs hok)

/-- Conditions that agree in the states of an invariant agree along a run. -/
theorem along_congr {Inv : σ → Prop} {ok' : σ → ε → Prop}
    (hstep : ∀ s e, Inv s → Inv (step s e).1) (h : ∀ s e, Inv s → (ok s e ↔ ok' s e)) (hs : Inv s)
    (es : List ε) : Along step ok s es ↔ Along step ok' s es :=
  along_iff_along (fun s e hs _ => hstep s e hs) h hs es

/-- A condition on the events alone holds along a run if every event meets it. -/
@[simp] theorem along_events_iff {P : ε → Prop} {es : List ε} :
    Along step (fun _ e => P e) s es ↔ ∀ e ∈ es, P e := by
  induction es generalizing s with
  | nil => simp [Along]
  | cons e es ih => rw [Along, ih, List.forall_mem_cons]

/-- A condition on the events alone joins a side condition. -/
theorem along_and {P : ε → Prop} {es : List ε} (hP : ∀ e ∈ es, P e) (h : Along step ok s es) :
    Along step (fun s e => P e ∧ ok s e) s es := by
  induction es generalizing s with
  | nil => trivial
  | cons e es ih =>
      exact ⟨⟨hP e List.mem_cons_self, h.1⟩,
        ih (fun e' he => hP e' (List.mem_cons_of_mem e he)) h.2⟩

/-- **Run lemma**: what every admitted step preserves, every admitted run
preserves. -/
theorem run_inv {Inv : σ → Prop} (hstep : ∀ s e, Inv s → ok s e → Inv (step s e).1)
    (hs : Inv s) {es : List ε} (hes : Along step ok s es) : Inv (run step s es).1 := by
  induction es generalizing s with
  | nil => exact hs
  | cons e es ih => exact ih (hstep s e hs hes.1) hes.2

/-- The run lemma for a machine that takes every event in every state. -/
theorem run_inv_of_step {Inv : σ → Prop} (hstep : ∀ s e, Inv s → Inv (step s e).1) (hs : Inv s)
    (es : List ε) : Inv (run step s es).1 := by
  induction es generalizing s with
  | nil => exact hs
  | cons e es ih => exact ih (hstep s e hs)

/-- The run lemma with history: an invariant that relates the state to the
events read and the outputs written so far. -/
theorem run_hist {Inv : σ → List ε → List ω → Prop} {s₀ : σ}
    (hstep : ∀ s es out e, Inv s es out → ok s e →
      Inv (step s e).1 (es ++ [e]) (out ++ (step s e).2))
    (h₀ : Inv s₀ [] []) {es : List ε} (hes : Along step ok s₀ es) :
    Inv (run step s₀ es).1 es (run step s₀ es).2 := by
  induction es using List.reverseRecOn with
  | nil => exact h₀
  | append_singleton es e ih =>
      obtain ⟨hfront, hlast⟩ := along_append.mp hes
      have hinv := hstep _ _ _ e (ih hfront) hlast.1
      rwa [run_append_fst, run_append_snd, run_cons_fst, run_cons_snd, run_nil, List.append_nil]

/-- The same for a machine that takes every event in every state. -/
theorem run_hist_of_step {Inv : σ → List ε → List ω → Prop} {s₀ : σ}
    (hstep : ∀ s es out e, Inv s es out → Inv (step s e).1 (es ++ [e]) (out ++ (step s e).2))
    (h₀ : Inv s₀ [] []) (es : List ε) : Inv (run step s₀ es).1 es (run step s₀ es).2 :=
  run_hist (fun s es out e h _ => hstep s es out e h) h₀ (along_events_iff.mpr fun _ _ => trivial)

/-- If at most one event can happen in each state, then of two runs one is the beginning of
the other. -/
theorem prefix_or_prefix_of_along {Inv : σ → Prop}
    (hstep : ∀ s e, Inv s → ok s e → Inv (step s e).1)
    (hone : ∀ s e f, Inv s → ok s e → ok s f → e = f) (hs : Inv s) {es fs : List ε}
    (hes : Along step ok s es) (hfs : Along step ok s fs) : es <+: fs ∨ fs <+: es := by
  induction es generalizing s fs with
  | nil => exact .inl List.nil_prefix
  | cons e es ih =>
      cases fs with
      | nil => exact .inr List.nil_prefix
      | cons f fs =>
          obtain rfl := hone s e f hs hes.1 hfs.1
          have hrest := ih (hstep s e hs hes.1) hes.2 hfs.2
          simpa only [List.prefix_cons_inj] using hrest

/-- What holds of the outputs of every step holds of those of a run. -/
theorem forall_run_of_step {P : ω → Prop} (hstep : ∀ s e, ∀ o ∈ (step s e).2, P o)
    (s : σ) (es : List ε) : ∀ o ∈ (run step s es).2, P o := by
  induction es generalizing s with
  | nil => simp
  | cons e es ih =>
      rw [run_cons_snd, List.forall_mem_append]
      exact ⟨hstep s e, ih (step s e).1⟩

/-- The outputs of a run all meet `P` exactly if every event meets the condition `ok'`
that decides it for the outputs of one step. -/
theorem forall_run_iff_along {Inv : σ → Prop} {P : ω → Prop} {ok' : σ → ε → Prop}
    (hinv : ∀ s e, Inv s → ok s e → ok' s e → Inv (step s e).1)
    (hout : ∀ s e, Inv s → ok s e → ((∀ o ∈ (step s e).2, P o) ↔ ok' s e))
    (hs : Inv s) {es : List ε} (hes : Along step ok s es) :
    (∀ o ∈ (run step s es).2, P o) ↔ Along step ok' s es := by
  induction es generalizing s with
  | nil => simp [Along]
  | cons e es ih =>
      rw [run_cons_snd, List.forall_mem_append, hout s e hs hes.1, Along]
      exact and_congr_right fun h => ih (hinv s e hs hes.1 h) hes.2

/-! ## two machines -/

/-- Two machines run alike exactly if every event meets the condition `good` under which
they step alike, if no run goes on alike after an event that does not. -/
theorem run_eq_iff_along {step' : σ → ε → σ × List ω} {good : σ → ε → Prop} {P : ε → Prop}
    (hgood : ∀ s e, P e → good s e → step s e = step' s e)
    (hbad : ∀ s e es, P e → ¬good s e → run step s (e :: es) ≠ run step' s (e :: es)) {es : List ε}
    (hes : ∀ e ∈ es, P e) (s : σ) : run step s es = run step' s es ↔ Along step' good s es := by
  induction es generalizing s with
  | nil => exact ⟨fun _ => trivial, fun _ => rfl⟩
  | cons e es ih =>
      have he := hes e List.mem_cons_self
      have hrest := ih (fun e' he' => hes e' (List.mem_cons_of_mem e he')) (step' s e).1
      by_cases h : good s e
      · rw [Along, and_iff_right h, ← hrest, run, run, hgood s e he h, Prod.ext_iff, Prod.ext_iff]
        simp
      · exact iff_of_false (hbad s e es he h) fun hall => h hall.1

/-! ## simulation -/

/-- **Run lemma**: `step'` simulates `step`, seen through `abs` on the states and
`out` on the outputs, if it does so for every happening that both take in, the one
as the event `ev`, the other as `ev'`, in the states of an invariant. -/
theorem run_simulates_of_inv {step' : σ' → ε' → σ' × List ω'} {abs : σ → σ'} {out : ω → ω'}
    {Inv : σ → Prop} {ok : ι → Prop} {ev : ι → ε} {ev' : ι → ε'}
    (hinv : ∀ s i, Inv s → ok i → Inv (step s (ev i)).1)
    (hstep : ∀ s i, Inv s → ok i →
      step' (abs s) (ev' i) = (abs (step s (ev i)).1, (step s (ev i)).2.map out))
    (hs : Inv s) {is : List ι} (his : ∀ i ∈ is, ok i) :
    run step' (abs s) (is.map ev') =
      (abs (run step s (is.map ev)).1, (run step s (is.map ev)).2.map out) := by
  induction is generalizing s with
  | nil => rfl
  | cons i is ih =>
      have hi := his i List.mem_cons_self
      have hrest := ih (hinv s i hs hi) fun j hj => his j (List.mem_cons_of_mem i hj)
      rw [List.map_cons, run, hstep s i hs hi, hrest, List.map_cons, run_cons_fst, run_cons_snd,
        List.map_append]

/-- The same for a simulation in every state. -/
theorem run_simulates {step' : σ' → ε' → σ' × List ω'} {abs : σ → σ'} {out : ω → ω'}
    {ok : ι → Prop} {ev : ι → ε} {ev' : ι → ε'}
    (hstep : ∀ s i, ok i →
      step' (abs s) (ev' i) = (abs (step s (ev i)).1, (step s (ev i)).2.map out))
    (s : σ) {is : List ι} (his : ∀ i ∈ is, ok i) :
    run step' (abs s) (is.map ev') =
      (abs (run step s (is.map ev)).1, (run step s (is.map ev)).2.map out) := by
  have hinv : ∀ s i, True → ok i → (fun _ => True) (step s (ev i)).1 := fun _ _ _ _ => trivial
  exact run_simulates_of_inv hinv (fun s i _ => hstep s i) trivial his

/-- Two machines with the same events and outputs: `step'` runs on what `abs` leaves of the
states. -/
theorem run_abs {step' : σ' → ε → σ' × List ω} {abs : σ → σ'} {Inv : σ → Prop}
    (hinv : ∀ s e, Inv s → Inv (step s e).1)
    (hstep : ∀ s e, Inv s → step' (abs s) e = (abs (step s e).1, (step s e).2)) (hs : Inv s)
    (es : List ε) : run step' (abs s) es = (abs (run step s es).1, (run step s es).2) := by
  induction es generalizing s with
  | nil => rfl
  | cons e es ih => rw [run, hstep s e hs, ih (hinv s e hs), run_cons_fst, run_cons_snd]

/-- Side conditions are on states and events, whatever the outputs are. -/
theorem along_congr_step {step' : σ → ε → σ × List ω'} (h : ∀ s e, (step s e).1 = (step' s e).1)
    {s : σ} {es : List ε} : Along step ok s es ↔ Along step' ok s es := by
  induction es generalizing s with
  | nil => rfl
  | cons e es ih => rw [Along, Along, h, ih]

/-- A machine whose outputs are those of another one, each spelled out. -/
theorem run_expand {step' : σ → ε → σ × List ω'} {f : ω' → List ω}
    (h : ∀ s e, step s e = ((step' s e).1, (step' s e).2.flatMap f)) (s : σ) (es : List ε) :
    run step s es = ((run step' s es).1, (run step' s es).2.flatMap f) := by
  induction es generalizing s with
  | nil => rfl
  | cons e es ih => rw [run, h, ih, run_cons_fst, run_cons_snd, List.flatMap_append]

/-! ## what belongs to one party -/

/-- What belongs to `k` in a list of messages or outputs with their parties. -/
def own [DecidableEq κ] (k : κ) (ms : List (κ × β)) : List β :=
  ms.filterMap fun m => if m.1 = k then some m.2 else none

section

variable [DecidableEq κ]

@[simp] theorem own_nil (k : κ) : own k ([] : List (κ × β)) = [] := rfl

theorem own_append (k : κ) (ms ns : List (κ × β)) : own k (ms ++ ns) = own k ms ++ own k ns :=
  List.filterMap_append

@[simp] theorem own_singleton_self (k : κ) (m : β) : own k [(k, m)] = [m] := by simp [own]

theorem own_singleton_of_ne {k k' : κ} (h : k' ≠ k) (m : β) : own k [(k', m)] = [] := by
  simp [own, h]

@[simp] theorem own_map_self (k : κ) (ms : List β) : own k (ms.map fun m => (k, m)) = ms := by
  simp [own, List.filterMap_map]

theorem own_map_of_ne {k k' : κ} (h : k' ≠ k) (ms : List β) :
    own k (ms.map fun m => (k', m)) = [] := by
  simp [own, List.filterMap_map, h]

theorem own_sublist (k : κ) (ms : List (κ × β)) : (own k ms).Sublist (ms.map Prod.snd) := by
  induction ms with
  | nil => exact .slnil
  | cons m ms ih =>
      have hcons : own k (m :: ms) = own k [m] ++ own k ms := own_append k [m] ms
      obtain ⟨k', m⟩ := m
      by_cases h : k' = k
      · subst h
        rw [hcons, own_singleton_self]
        exact ih.cons_cons m
      · rw [hcons, own_singleton_of_ne h]
        exact ih.cons m

end

/-! ## projecting a run onto one observer -/

/-- The unwinding conditions of one observer, in the states that meet `Inv`:
`view` is what the state holds for the observer, `keep` selects the observer's
own events, `see` the outputs the observer receives, and `loc` is the machine
the observer believes to be talking to. -/
structure Unwinding (step : σ → ε → σ × List ω) (Inv : σ → Prop) (ok : σ → ε → Prop)
    (view : σ → ρ) (keep : ε → Bool) (see : ω → Bool) (loc : ρ → ε → ρ × List ω) : Prop where
  inv : ∀ s e, Inv s → ok s e → Inv (step s e).1
  own_view : ∀ s e, Inv s → ok s e → keep e = true →
    view (step s e).1 = (loc (view s) e).1
  own_see : ∀ s e, Inv s → ok s e → keep e = true →
    (step s e).2.filter see = (loc (view s) e).2
  other_view : ∀ s e, Inv s → ok s e → keep e = false → view (step s e).1 = view s
  other_see : ∀ s e, Inv s → ok s e → keep e = false → (step s e).2.filter see = []

namespace Unwinding

variable {Inv : σ → Prop} {view : σ → ρ} {keep : ε → Bool} {see : ω → Bool}
  {loc : ρ → ε → ρ × List ω}

/-- The observer's view of a run is the local run on the observer's events. -/
theorem run_view (u : Unwinding step Inv ok view keep see loc) (hs : Inv s) {es : List ε}
    (hes : Along step ok s es) :
    view (run step s es).1 = (run loc (view s) (es.filter keep)).1 := by
  induction es generalizing s with
  | nil => rfl
  | cons e es ih =>
      have hrest := ih (u.inv s e hs hes.1) hes.2
      cases hk : keep e with
      | true =>
          rw [List.filter_cons_of_pos hk, run_cons_fst, run_cons_fst, hrest,
            u.own_view s e hs hes.1 hk]
      | false =>
          rw [List.filter_cons_of_neg (by simp [hk]), run_cons_fst, hrest,
            u.other_view s e hs hes.1 hk]

/-- The outputs the observer receives in a run are those of the local run on
the observer's events. -/
theorem run_see (u : Unwinding step Inv ok view keep see loc) (hs : Inv s) {es : List ε}
    (hes : Along step ok s es) :
    (run step s es).2.filter see = (run loc (view s) (es.filter keep)).2 := by
  induction es generalizing s with
  | nil => rfl
  | cons e es ih =>
      have hrest := ih (u.inv s e hs hes.1) hes.2
      rw [run_cons_snd, List.filter_append, hrest]
      cases hk : keep e with
      | true =>
          rw [List.filter_cons_of_pos hk, run_cons_snd, u.own_see s e hs hes.1 hk,
            u.own_view s e hs hes.1 hk]
      | false =>
          rw [List.filter_cons_of_neg (by simp [hk]), u.other_see s e hs hes.1 hk,
            u.other_view s e hs hes.1 hk, List.nil_append]

end Unwinding

end Transducer
