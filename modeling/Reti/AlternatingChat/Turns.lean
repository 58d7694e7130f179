import Reti.AlternatingChat.Stop

/-!
# Reti.AlternatingChat.Turns

The strict order that the two programs are to keep: nobody gets a second turn before the
other one has had theirs.  There is no race in it: at any time at most one of the two can go
on, so that the steps come in the same order every time.
-/

namespace Reti.AlternatingChat

open CStr Transducer

variable {clientItems serverItems : Nat → List UInt8}

/-- The order is kept: the client is at most one item ahead, and at most one block is on its
way. -/
structure Ordered (s : Sys) : Prop where
  server_le : s.server.typed ≤ s.client.typed
  client_le : s.client.typed ≤ s.server.typed + 1
  one_block : s.toServer.length + s.toClient.length ≤ 1

/-- In every stage at most one side can go on. -/
theorem enabled_unique {s : Sys} (h : Stage clientItems serverItems s) {e f : Side}
    (he : Enabled s e) (hf : Enabled s f) : e = f := by
  cases h <;> cases e <;> cases f <;> simp [Enabled, ready] at he hf ⊢

/-- **Step lemma**: a program types only when the other one has had its turn. -/
theorem ordered_step {s : Sys} (h : Stage clientItems serverItems s) (ho : Ordered s) {e : Side}
    (he : Enabled s e) : Ordered (step clientItems serverItems s e).1 := by
  obtain ⟨hserver, hclient, hblock⟩ := ho
  cases h <;> cases e <;> simp [Enabled, ready] at he <;>
    constructor <;> simp_all [step, Process.type, Process.receive]

/-- **Turns**: whatever is typed and whatever the buffers held at first, the two programs
take their steps in one and the same order in every run; no keyboard is read twice before
the other one has been read, and there is never more than one block on its way. -/
theorem turns (hc : ∀ n, FgetsItem maxBufferSize (clientItems n))
    (hs : ∀ n, FgetsItem maxBufferSize (serverItems n)) (b b' : Buf maxBufferSize)
    {es : List Side} (hes : Along (step clientItems serverItems) Enabled (.init b b') es) :
    Ordered (run (step clientItems serverItems) (.init b b') es).1 ∧
      ∀ fs, Along (step clientItems serverItems) Enabled (.init b b') fs →
        es <+: fs ∨ fs <+: es := by
  have hstage (s : Sys) (e : Side) (h : Stage clientItems serverItems s) (he : Enabled s e) :
      Stage clientItems serverItems (step clientItems serverItems s e).1 := stage_step hc hs h he
  have hinv (s : Sys) (e : Side) (h : Stage clientItems serverItems s ∧ Ordered s)
      (he : Enabled s e) : Stage clientItems serverItems (step clientItems serverItems s e).1 ∧
        Ordered (step clientItems serverItems s e).1 :=
    ⟨hstage s e h.1 he, ordered_step h.1 h.2 he⟩
  have hinit : Stage clientItems serverItems (.init b b') := stage_init _ _ b b'
  have hordered : Ordered (.init b b') := ⟨Nat.le_refl 0, Nat.zero_le 1, Nat.zero_le 1⟩
  refine ⟨(run_inv hinv ⟨hinit, hordered⟩ hes).2, fun fs hfs => ?_⟩
  exact prefix_or_prefix_of_along hstage (fun _ _ _ h => enabled_unique h) hinit hes hfs

/-- The first three steps. -/
theorem turns_three :
    let step := step (fun _ => ascii "ciao\n") fun _ => ascii "ehi\n"
    let es : List Side := [.client, .server, .server]
    Ordered (run step (.init (.zero _) (.zero _)) es).1 ∧
      ∀ fs, Along step Enabled (.init (.zero _) (.zero _)) fs → es <+: fs ∨ fs <+: es :=
  @turns (fun _ => ascii "ciao\n") (fun _ => ascii "ehi\n") (fun _ => by decide)
    (fun _ => by decide) (.zero _) (.zero _) [.client, .server, .server] (by decide +kernel)

end Reti.AlternatingChat
