import Reti.Lib.Transducer
import Mathlib.Algebra.Order.Group.Multiset
import Mathlib.Tactic.Abel

/-!
# Reti.Lib.Relay

A server that passes on what it is sent, between two halves of a network that loses messages
and lets them overtake each other, but does not copy any.  If the server passes a message on
to each person once, and not to its author, then nobody is shown a message more often than
the others have posted it: what is on the way counts against what has been posted.
-/

namespace Relay

open Transducer

/-- The server, what is on the way to it with the authors, and what is on the way from it
with the people it goes to. -/
structure Sys (σ κ τ : Type) where
  server : σ
  up : List (κ × τ)
  down : List (κ × τ)

/-- What can happen next. -/
inductive Event (κ τ : Type) where
  | post (author : κ) (text : τ)
  | pass (i : Nat)
  | deliver (i : Nat)
  | loseUp (i : Nat)
  | loseDown (i : Nat)
  deriving DecidableEq, Repr

/-- What people notice of it. -/
inductive Log (κ τ : Type) where
  | posted (author : κ) (text : τ)
  | shown (reader : κ) (text : τ)
  deriving DecidableEq, Repr

def Sys.init (server : σ) : Sys σ κ τ := ⟨server, [], []⟩

variable {σ κ τ : Type} [DecidableEq κ]

/-- One event. -/
def step (pass : σ → κ → τ → σ × List (κ × τ)) (s : Sys σ κ τ) :
    Event κ τ → Sys σ κ τ × List (Log κ τ)
  | .post author text => ({ s with up := s.up ++ [(author, text)] }, [.posted author text])
  | .pass i =>
    match s.up[i]? with
    | some (author, text) =>
      let (server, copies) := pass s.server author text
      (⟨server, s.up.eraseIdx i, s.down ++ copies⟩, [])
    | none => (s, [])
  | .deliver i =>
    match s.down[i]? with
    | some (reader, text) => ({ s with down := s.down.eraseIdx i }, [.shown reader text])
    | none => (s, [])
  | .loseUp i => ({ s with up := s.up.eraseIdx i }, [])
  | .loseDown i => ({ s with down := s.down.eraseIdx i }, [])

/-! ## what concerns one reader -/

/-- What others than `k` have written, of some messages with their authors. -/
def notFrom (k : κ) (ms : List (κ × τ)) : List τ :=
  ms.filterMap fun m => if m.1 = k then none else some m.2

/-- What goes to `k`. -/
def toReader (k : κ) (ms : List (κ × τ)) : List τ :=
  ms.filterMap fun m => if m.1 = k then some m.2 else none

/-- What others than `k` have posted. -/
def others (k : κ) (log : List (Log κ τ)) : List τ :=
  log.filterMap fun
    | .posted author text => if author = k then none else some text
    | _ => none

/-- What `k` has been shown. -/
def shown (k : κ) (log : List (Log κ τ)) : List τ :=
  log.filterMap fun
    | .shown reader text => if reader = k then some text else none
    | _ => none

/-- Each person gets a message at most once, and its author not at all. -/
structure Fair (pass : σ → κ → τ → σ × List (κ × τ)) (Inv : σ → Prop) : Prop where
  inv : ∀ s author text, Inv s → Inv (pass s author text).1
  once : ∀ s author text k, Inv s →
    (toReader k (pass s author text).2).Sublist (notFrom k [(author, text)])

/-- Copies for people who are all different. -/
theorem toReader_sublist {key : α → κ} {room : List α} (hn : (room.map key).Nodup)
    (text : τ) (k : κ) : (toReader k (room.map fun a => (key a, text))).Sublist [text] := by
  induction room with
  | nil => exact List.nil_sublist _
  | cons a room ih =>
      obtain ⟨hnew, hrest⟩ := List.nodup_cons.mp hn
      by_cases hk : key a = k
      · have hnone : toReader k (room.map fun a => (key a, text)) = [] := by
          rw [toReader, List.filterMap_map, List.filterMap_eq_nil_iff]
          intro b hb
          have hne : key b ≠ k := fun h => hnew (List.mem_map.mpr ⟨b, hb, h.trans hk.symm⟩)
          simp [hne]
        have hone : toReader k ((a :: room).map fun a => (key a, text)) =
            text :: toReader k (room.map fun a => (key a, text)) := by simp [toReader, hk]
        rw [hone, hnone]
      · have hskip : toReader k ((a :: room).map fun a => (key a, text)) =
            toReader k (room.map fun a => (key a, text)) := by simp [toReader, hk]
        rw [hskip]
        exact ih hrest

/-- What is on its way to `k`, or may still go there, and what `k` has been shown, is not
more than the others have posted. -/
def Counted (k : κ) (s : Sys σ κ τ) (log : List (Log κ τ)) : Prop :=
  (notFrom k s.up : Multiset τ) + toReader k s.down + shown k log ≤ others k log

section

variable {pass : σ → κ → τ → σ × List (κ × τ)} {Inv : σ → Prop} {s : Sys σ κ τ}
  {log : List (Log κ τ)} {k : κ}

/-- A message is taken out of the ones on their way. -/
theorem coe_filterMap_eraseIdx {f : α → Option β} {ms : List α} {i : Nat} {m : α}
    (hi : ms[i]? = some m) :
    (ms.filterMap f : Multiset β) = [m].filterMap f + (ms.eraseIdx i).filterMap f := by
  obtain ⟨hlt, rfl⟩ := List.getElem?_eq_some_iff.mp hi
  rw [Multiset.coe_add, ← List.filterMap_append]
  exact Multiset.coe_eq_coe.mpr ((List.getElem_cons_eraseIdx_perm hlt).symm.filterMap f)

theorem coe_filterMap_eraseIdx_le (f : α → Option β) (ms : List α) (i : Nat) :
    ((ms.eraseIdx i).filterMap f : Multiset β) ≤ ms.filterMap f :=
  Multiset.coe_le.mpr ((List.eraseIdx_sublist ms i).filterMap f).subperm

section

variable (k : κ)

theorem coe_notFrom_append (ms ns : List (κ × τ)) :
    (notFrom k (ms ++ ns) : Multiset τ) = notFrom k ms + notFrom k ns := by
  rw [notFrom, List.filterMap_append, ← Multiset.coe_add]
  rfl

theorem coe_toReader_append (ms ns : List (κ × τ)) :
    (toReader k (ms ++ ns) : Multiset τ) = toReader k ms + toReader k ns := by
  rw [toReader, List.filterMap_append, ← Multiset.coe_add]
  rfl

theorem others_append (log log' : List (Log κ τ)) :
    others k (log ++ log') = others k log ++ others k log' := List.filterMap_append

theorem shown_append (log log' : List (Log κ τ)) :
    shown k (log ++ log') = shown k log ++ shown k log' := List.filterMap_append

end

/-- Nothing is posted or shown, and no message is added. -/
theorem Counted.frame {s' : Sys σ κ τ} (h : Counted k s log)
    (hup : (notFrom k s'.up : Multiset τ) ≤ notFrom k s.up)
    (hdown : (toReader k s'.down : Multiset τ) ≤ toReader k s.down) :
    Counted k s' (log ++ []) := by
  rw [List.append_nil]
  exact le_trans (by gcongr) h

/-- **Step lemma**: only a message that is passed on changes the server. -/
theorem inv_step (hfair : Fair pass Inv) (hinv : Inv s.server) (e : Event κ τ) :
    Inv (step pass s e).1.server := by
  cases e with
  | pass i =>
      cases hi : s.up[i]? with
      | none => simpa only [step, hi] using hinv
      | some m => simpa only [step, hi] using hfair.inv s.server m.1 m.2 hinv
  | deliver i => cases hi : s.down[i]? <;> simpa only [step, hi] using hinv
  | post author text => exact hinv
  | loseUp i => exact hinv
  | loseDown i => exact hinv

/-- **Step lemma**: a message that is passed on, delivered or lost is not on its way any
more. -/
theorem counted_step (hfair : Fair pass Inv) (hinv : Inv s.server) (h : Counted k s log)
    (e : Event κ τ) : Counted k (step pass s e).1 (log ++ (step pass s e).2) := by
  cases e with
  | post author text =>
      have hothers : others k [.posted author text] = notFrom k [(author, text)] := rfl
      have hshown : shown k [(.posted author text : Log κ τ)] = [] := rfl
      rw [step, Counted, coe_notFrom_append, others_append, shown_append, hothers, hshown,
        List.append_nil, ← Multiset.coe_add]
      calc (notFrom k s.up + notFrom k [(author, text)] + toReader k s.down + shown k log :
            Multiset τ)
          = notFrom k s.up + toReader k s.down + shown k log + notFrom k [(author, text)] := by abel
        _ ≤ others k log + notFrom k [(author, text)] := by
            gcongr
            exact h
  | pass i =>
      cases hi : s.up[i]? with
      | none =>
          simp only [step, hi]
          exact h.frame le_rfl le_rfl
      | some m =>
          obtain ⟨author, text⟩ := m
          have hcopies : (toReader k (pass s.server author text).2 : Multiset τ) ≤
              notFrom k [(author, text)] :=
            Multiset.coe_le.mpr (hfair.once s.server author text k hinv).subperm
          have hup : (notFrom k s.up : Multiset τ) =
              notFrom k [(author, text)] + notFrom k (s.up.eraseIdx i) := coe_filterMap_eraseIdx hi
          simp only [step, hi]
          rw [List.append_nil, Counted, coe_toReader_append]
          calc (notFrom k (s.up.eraseIdx i) + (toReader k s.down +
                toReader k (pass s.server author text).2) + shown k log : Multiset τ)
              ≤ notFrom k (s.up.eraseIdx i) + (toReader k s.down + notFrom k [(author, text)]) +
                shown k log := by gcongr
            _ = notFrom k s.up + toReader k s.down + shown k log := by rw [hup]; abel
            _ ≤ others k log := h
  | deliver i =>
      cases hi : s.down[i]? with
      | none =>
          simp only [step, hi]
          exact h.frame le_rfl le_rfl
      | some m =>
          obtain ⟨reader, text⟩ := m
          have hdown : (toReader k s.down : Multiset τ) =
              toReader k [(reader, text)] + toReader k (s.down.eraseIdx i) :=
            coe_filterMap_eraseIdx hi
          have hothers : others k [(.shown reader text : Log κ τ)] = [] := rfl
          have hshown : shown k [.shown reader text] = toReader k [(reader, text)] := rfl
          simp only [step, hi]
          rw [Counted, others_append, shown_append, hothers, hshown, List.append_nil,
            ← Multiset.coe_add]
          calc (notFrom k s.up + toReader k (s.down.eraseIdx i) +
                (shown k log + toReader k [(reader, text)]) : Multiset τ)
              = notFrom k s.up + toReader k s.down + shown k log := by rw [hdown]; abel
            _ ≤ others k log := h
  | loseUp i => exact h.frame (coe_filterMap_eraseIdx_le _ _ _) le_rfl
  | loseDown i => exact h.frame le_rfl (coe_filterMap_eraseIdx_le _ _ _)

end

variable {pass : σ → κ → τ → σ × List (κ × τ)} {Inv : σ → Prop}

/-- **Run lemma**: what somebody is shown is, in some order, among what the others have
posted, and nothing more often than they have posted it. -/
theorem shown_subperm (hfair : Fair pass Inv) {server : σ} (hs : Inv server)
    (es : List (Event κ τ)) (k : κ) :
    (shown k (run (step pass) (.init server) es).2).Subperm
      (others k (run (step pass) (.init server) es).2) := by
  have hstep (s : Sys σ κ τ) (_ : List (Event κ τ)) (log : List (Log κ τ)) (e : Event κ τ)
      (h : Inv s.server ∧ Counted k s log) :
      Inv (step pass s e).1.server ∧ Counted k (step pass s e).1 (log ++ (step pass s e).2) :=
    ⟨inv_step hfair h.1 e, counted_step hfair h.1 h.2 e⟩
  have hinit : Inv (.init server : Sys σ κ τ).server ∧
      Counted k (.init server) ([] : List (Log κ τ)) := ⟨hs, le_rfl⟩
  obtain ⟨-, hcounted⟩ := run_hist_of_step hstep hinit es
  exact Multiset.coe_le.mp (le_trans (Multiset.le_add_left _ _) hcounted)

end Relay
