import Mathlib.Data.List.Basic

/-!
# Reti.Lib.Chunks

Byte streams cut into chunks: when the chunks are as long as they can be, and
that a stream of records of one size can be cut in one way only if every chunk
is to hold one record; and when a reader that cuts a stream anew finds the pieces
it was written in.
-/

namespace Chunks

/-- Chunks of `n` elements each. -/
theorem length_flatten_of_full {cs : List (List α)} (h : ∀ c ∈ cs, c.length = n) :
    cs.flatten.length = n * cs.length := by
  induction cs with
  | nil => rfl
  | cons c cs ih =>
      rw [List.flatten_cons, List.length_append, h c List.mem_cons_self,
        ih fun c' hc' => h c' (List.mem_cons_of_mem c hc'), List.length_cons, Nat.mul_succ,
        Nat.add_comm]

theorem length_flatten_le {cs : List (List α)} (h : ∀ c ∈ cs, c.length ≤ n) :
    cs.flatten.length ≤ n * cs.length := by
  induction cs with
  | nil => exact Nat.zero_le _
  | cons c cs ih =>
      have hc := h c List.mem_cons_self
      have hcs := ih fun c' hc' => h c' (List.mem_cons_of_mem c hc')
      rw [List.flatten_cons, List.length_append, List.length_cons, Nat.mul_succ]
      omega

/-- Chunks of at most `n` elements that hold `n` for each of them are all full. -/
theorem full_of_length_flatten {cs : List (List α)} (h : ∀ c ∈ cs, c.length ≤ n)
    (hlen : cs.flatten.length = n * cs.length) : ∀ c ∈ cs, c.length = n := by
  induction cs with
  | nil => simp
  | cons c cs ih =>
      have hc := h c List.mem_cons_self
      have hle := length_flatten_le fun c' hc' => h c' (List.mem_cons_of_mem c hc')
      rw [List.flatten_cons, List.length_append, List.length_cons, Nat.mul_succ] at hlen
      have hrest := ih (fun c' hc' => h c' (List.mem_cons_of_mem c hc')) (by omega)
      intro d hd
      cases List.mem_cons.mp hd with
      | inl hdc =>
          rw [hdc]
          omega
      | inr hdc => exact hrest d hdc

/-- A stream is cut into full chunks in one way. -/
theorem eq_of_flatten_eq {cs ds : List (List α)} (hn : 0 < n) (hc : ∀ c ∈ cs, c.length = n)
    (hd : ∀ d ∈ ds, d.length = n) (h : cs.flatten = ds.flatten) : cs = ds := by
  have hmul : n * cs.length = n * ds.length := by
    rw [← length_flatten_of_full hc, ← length_flatten_of_full hd, h]
  have hlengths : cs.map List.length = ds.map List.length := by
    rw [List.map_eq_replicate_iff.mpr hc, List.map_eq_replicate_iff.mpr hd,
      Nat.eq_of_mul_eq_mul_left hn hmul]
  exact List.eq_iff_flatten_eq.mpr ⟨h, hlengths⟩

/-! ## two cuts of one stream -/

/-- A stream that is cut into `cs` as far as it has been read, and into `ds` as it
was written: the first cuts are the first of `ds` exactly if they are as long. -/
theorem prefix_iff_length {cs ds : List (List α)} {rest : List α}
    (h : cs.flatten ++ rest = ds.flatten) :
    cs <+: ds ↔ cs.map List.length <+: ds.map List.length := by
  refine ⟨fun hcs => hcs.map _, fun hlen => ?_⟩
  induction cs generalizing ds with
  | nil => exact List.nil_prefix
  | cons c cs ih =>
      cases ds with
      | nil => simp at hlen
      | cons d ds =>
          rw [List.map_cons, List.map_cons, List.cons_prefix_cons] at hlen
          rw [List.flatten_cons, List.flatten_cons, List.append_assoc] at h
          obtain ⟨hcd, hrest⟩ := List.append_inj h hlen.1
          rw [hcd, List.prefix_cons_inj]
          exact ih hrest hlen.2

/-- All of the stream has been read: the cuts are the same exactly if they are as
long. -/
theorem eq_iff_length {cs ds : List (List α)} (h : cs.flatten = ds.flatten) :
    cs = ds ↔ cs.map List.length = ds.map List.length := by
  rw [List.eq_iff_flatten_eq, and_iff_right h]

end Chunks
