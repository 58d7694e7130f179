import Reti.Lib.KeyTable
import Reti.Lib.Transducer

/-!
# Reti.Lib.Forum

Rooms in which whoever says something is heard by everybody else.  People are known by a
key; somebody who speaks is let in first, as long as there is a place, and nobody is sent
away.

Three facts about any sequence of messages: who is in the room can be read off the
speakers alone, each person in it hears exactly the others, and nobody hears anything who
has not spoken.
-/

namespace Forum

open Transducer

variable [DecidableEq κ] (key : α → κ) (cap : Nat)

/-- Everybody in the room but the person who speaks. -/
def others (room : List α) (a : α) : List α := room.filter fun b => key b ≠ key a

/-- Somebody says something: they are let in if there is a place, and the others hear it. -/
def step (room : List α) (m : α × τ) : List α × List (α × τ) :=
  (KeyTable.join key cap room m.1,
    (others key (KeyTable.join key cap room m.1) m.1).map fun b => (b, m.2))

/-- The first `cap` people to speak, each once. -/
def firstSpeakers (ms : List (α × τ)) : List κ := (ms.map fun m => key m.1).eraseDups.take cap

variable {key cap}

/-! ## who is in the room -/

theorem eraseDups_append_singleton [DecidableEq β] (l : List β) (x : β) :
    (l ++ [x]).eraseDups = if x ∈ l then l.eraseDups else l.eraseDups ++ [x] := by
  rw [List.eraseDups_append]
  by_cases h : x ∈ l <;> simp [List.removeAll, h, List.eraseDups_cons]

@[simp] theorem firstSpeakers_nil : firstSpeakers key cap ([] : List (α × τ)) = [] := by
  simp [firstSpeakers]

theorem mem_of_mem_firstSpeakers {ms : List (α × τ)} {k : κ} (hk : k ∈ firstSpeakers key cap ms) :
    ∃ m ∈ ms, key m.1 = k :=
  List.mem_map.mp (List.mem_eraseDups.mp (List.mem_of_mem_take hk))

/-- It does not matter what has been said. -/
theorem firstSpeakers_congr {f : β → α × τ} {g : β → α × τ'} (h : ∀ x, (f x).1 = (g x).1)
    (xs : List β) : firstSpeakers key cap (xs.map f) = firstSpeakers key cap (xs.map g) := by
  simp only [firstSpeakers, List.map_map, Function.comp_def, h]

/-- **Step lemma**: one more speaker. -/
theorem firstSpeakers_append_singleton {room : List α} {ms : List (α × τ)}
    (h : room.map key = firstSpeakers key cap ms) (m : α × τ) :
    (step key cap room m).1.map key = firstSpeakers key cap (ms ++ [m]) := by
  have hmem : (∃ b ∈ room, key b = key m.1) ↔ key m.1 ∈ firstSpeakers key cap ms := by
    rw [← h, List.mem_map]
  have hlen : room.length = (firstSpeakers key cap ms).length := by rw [← h, List.length_map]
  rw [firstSpeakers, List.length_take] at hlen
  rw [firstSpeakers] at h hmem
  rw [firstSpeakers, List.map_append, List.map_singleton, eraseDups_append_singleton]
  simp only [step, KeyTable.join, List.any_eq_true, decide_eq_true_eq, hmem]
  by_cases hin : key m.1 ∈ (ms.map fun m => key m.1).eraseDups.take cap
  · have hspoken : key m.1 ∈ ms.map fun m => key m.1 :=
      List.mem_eraseDups.mp (List.mem_of_mem_take hin)
    rw [if_pos hin, if_pos hspoken, h]
  · rw [if_neg hin]
    by_cases hroom : room.length < cap
    · -- there is a place, so everybody who has spoken is in
      have hall : (ms.map fun m => key m.1).eraseDups.take cap =
          (ms.map fun m => key m.1).eraseDups := List.take_of_length_le (by omega)
      rw [hall] at hin h
      have hspoken : key m.1 ∉ ms.map fun m => key m.1 := fun hs => hin (List.mem_eraseDups.mpr hs)
      rw [if_pos hroom, if_neg hspoken, List.map_append, h, List.map_singleton]
      rw [List.take_of_length_le (by rw [List.length_append, List.length_singleton]; omega)]
    · have hfull : cap ≤ (ms.map fun m => key m.1).eraseDups.length := by omega
      rw [if_neg hroom, h]
      split
      · rfl
      · rw [List.take_append_of_le_length hfull]

/-- **Run lemma**: the room holds the first people who have spoken. -/
theorem map_key_run (ms : List (α × τ)) :
    (run (step key cap) [] ms).1.map key = firstSpeakers key cap ms := by
  induction ms using List.reverseRecOn with
  | nil => simp
  | append_singleton ms m ih =>
      rw [run_append_fst]
      exact firstSpeakers_append_singleton ih m

/-! ## what is heard -/

/-- **Step lemma**: somebody in the room hears the others, once each. -/
theorem heard_step {room : List α} (hn : KeyTable.Keyed key room) {a : α} (ha : a ∈ room)
    (m : α × τ) :
    ((step key cap room m).2.filter fun p => key p.1 = key a) =
      if key m.1 = key a then [] else [(a, m.2)] := by
  have hmem : a ∈ KeyTable.join key cap room m.1 := (KeyTable.prefix_join cap room m.1).subset ha
  have hkeyed := KeyTable.keyed_join hn cap m.1
  simp only [step, others, List.filter_map]
  split
  · rename_i hk
    rw [List.map_eq_nil_iff, List.filter_eq_nil_iff]
    intro b hb
    have hne := of_decide_eq_true (List.mem_filter.mp hb).2
    simpa [hk] using hne
  · rename_i hk
    have hother := KeyTable.filter_others hkeyed hmem (Ne.symm hk)
    rw [Function.comp_def, hother, List.map_singleton]

/-- **Run lemma**: somebody in the room hears everything the others say, in order. -/
theorem heard_run {room : List α} (hn : KeyTable.Keyed key room) {a : α} (ha : a ∈ room)
    (ms : List (α × τ)) :
    ((run (step key cap) room ms).2.filter fun p => key p.1 = key a) =
      (ms.filter fun m => key m.1 ≠ key a).map fun m => (a, m.2) := by
  induction ms generalizing room with
  | nil => rfl
  | cons m ms ih =>
      have hmem : a ∈ (step key cap room m).1 := (KeyTable.prefix_join cap room m.1).subset ha
      have hkeyed : KeyTable.Keyed key (step key cap room m).1 := KeyTable.keyed_join hn cap m.1
      have hrest := ih hkeyed hmem
      rw [run_cons_snd, List.filter_append, heard_step hn ha, hrest]
      by_cases hk : key m.1 = key a <;> simp [hk]

/-- What is heard is heard in the room as it is afterwards. -/
theorem mem_of_mem_step {room : List α} {m : α × τ} {p : α × τ} (hp : p ∈ (step key cap room m).2) :
    p.1 ∈ (step key cap room m).1 := by
  obtain ⟨b, hb, rfl⟩ := List.mem_map.mp hp
  exact (List.mem_filter.mp hb).1

/-- **Run lemma**: nobody hears anything who does not get into the room. -/
theorem mem_of_mem_run {room : List α} {ms : List (α × τ)} {p : α × τ}
    (hp : p ∈ (run (step key cap) room ms).2) : p.1 ∈ (run (step key cap) room ms).1 := by
  let Inv (room : List α) (_ : List (α × τ)) (out : List (α × τ)) : Prop := ∀ p ∈ out, p.1 ∈ room
  have hstep : ∀ room es out m, Inv room es out →
      Inv (step key cap room m).1 (es ++ [m]) (out ++ (step key cap room m).2) := by
    intro room _ out m h p hp
    cases List.mem_append.mp hp with
    | inl hold => exact (KeyTable.prefix_join cap room m.1).subset (h p hold)
    | inr hnew => exact mem_of_mem_step hnew
  have hinit : Inv room [] [] := fun p hp => nomatch hp
  exact run_hist_of_step hstep hinit ms p hp

end Forum
