import Reti.SortServer.Bounds
import Reti.SortServer.Order
import Reti.Lib.Transducer

/-!
# Reti.SortServer.Sessions

The sorting server over many connections.  All of them use one `buffer`, into which
`strtok` writes as well; the numbers and the answer are made anew for each.

A reply tells the numbers of the request and nothing else, so that it is known by them: two
requests are answered alike exactly if they have the same numbers.
-/

namespace Reti.SortServer

open CStr Transducer

/-! ## the loop over the connections -/

/-- An accepted connection: what `recv` returns, and what `temp` holds when it is declared. -/
structure Accepted where
  ret : RecvRet
  temp : Buf tempSize
  deriving DecidableEq, Repr

/-- What comes of a connection: it is closed with a reply or without one. -/
structure Closed where
  reply : Option (List UInt8)
  deriving DecidableEq, Repr

/-- One turn of the loop.  `accept` may fail; `none` is where a `strcat` has left its array,
and everything after that. -/
def turn (qsort : Qsort) : Option (Buf bufsize) → Option Accepted →
    Option (Buf bufsize) × List Closed
  | some buffer, some ⟨.data chunk, temp⟩ =>
    let (buffer, tokens) := (receive buffer chunk).tokens comma 0
    let numbers := tokens.map atoi
    if numbers.length = 0 then (some buffer, [⟨none⟩])
    else
      match rebuildLoop temp (Buf.zero bufsize) (qsort.sort numbers) with
      | some sorted => (some buffer, [⟨some sorted.text⟩])
      | none => (none, [])
  | some buffer, some _ => (some buffer, [⟨none⟩])
  | some buffer, none => (some buffer, [])
  | none, _ => (none, [])

/-- The request is one that `recv` can return, and its answer fits its array. -/
def Answerable : RecvRet → Prop
  | .data chunk => chunk.length ≤ bufsize - 1 ∧
    ((fields comma (cstr chunk)).map fun f => width (atoi f)).sum +
      2 * ((fields comma (cstr chunk)).length - 1) ≤ bufsize - 1
  | _ => True

instance : (ret : RecvRet) → Decidable (Answerable ret)
  | .data _ => inferInstanceAs (Decidable (_ ∧ _))
  | .error => inferInstanceAs (Decidable True)
  | .closed => inferInstanceAs (Decidable True)

/-- **Step lemma**: a connection is answered as if it were the only one. -/
theorem turn_accepted (qsort : Qsort) (buffer : Buf bufsize) {c : Accepted}
    (hc : Answerable c.ret) :
    ∃ buffer', turn qsort (some buffer) (some c) =
      (some buffer', [⟨serve qsort (Buf.zero bufsize) [c.ret]⟩]) := by
  obtain ⟨ret, temp⟩ := c
  cases ret with
  | error => exact ⟨buffer, rfl⟩
  | closed => exact ⟨buffer, rfl⟩
  | data chunk =>
      obtain ⟨hlen, hwidth⟩ := hc
      have hlt : chunk.length < bufsize := Nat.lt_of_le_pred (by decide) hlen
      have hnumbers : ((receive buffer chunk).tokens comma 0).2.map atoi = parse (cstr chunk) := by
        rw [Buf.tokens_eq, Buf.textAt_zero, text_receive buffer hlt]
        rfl
      have hfits := (fits_iff qsort temp (Buf.zero bufsize) hlen).mpr hwidth
      have hsent := hfits.sent
      have htext := text_receive (Buf.zero bufsize) hlt
      simp only [turn, hnumbers]
      by_cases hnil : parse (cstr chunk) = []
      · have hanswer : answer qsort (cstr chunk) = none := by simp [answer, hnil]
        refine ⟨((receive buffer chunk).tokens comma 0).1, ?_⟩
        rw [if_pos (by simp [hnil]), serve, htext, hanswer]
      · rw [htext] at hsent
        have hreply := hsent hnil
        have hloop := hfits.answer
        rw [htext] at hloop
        obtain ⟨sorted, hsorted⟩ := Option.isSome_iff_exists.mp hloop
        rw [hsorted] at hreply ⊢
        rw [if_neg (by simpa using hnil)]
        exact ⟨_, by rw [← hreply]; rfl⟩

/-- **No trace**: whatever is in the buffer at first, and whoever was served before, every
connection that is accepted is closed with the reply that a server just started would give,
or without one if that gives none. -/
theorem replies_run (qsort : Qsort) (buffer : Buf bufsize) {cs : List (Option Accepted)}
    (hcs : ∀ c, some c ∈ cs → Answerable c.ret) :
    (run (turn qsort) (some buffer) cs).2 =
      cs.filterMap fun c => c.map fun c => ⟨serve qsort (Buf.zero bufsize) [c.ret]⟩ := by
  induction cs generalizing buffer with
  | nil => rfl
  | cons c cs ih =>
      have hrest := fun buffer => ih buffer fun c' h => hcs c' (List.mem_cons_of_mem c h)
      rw [run_cons_snd]
      cases c with
      | none => exact hrest buffer
      | some c =>
          obtain ⟨buffer', hturn⟩ := turn_accepted qsort buffer (hcs c List.mem_cons_self)
          rw [hturn, hrest buffer']
          rfl

/-- A request after a longer one. -/
theorem replies_run_two :
    (run (turn insertionSort) (some (Buf.zero bufsize))
      [some ⟨.data (ascii "3, 2, 1"), Buf.zero tempSize⟩, none,
        some ⟨.data (ascii "7"), Buf.zero tempSize⟩]).2 =
      [⟨serve insertionSort (Buf.zero bufsize) [.data (ascii "3, 2, 1")]⟩,
        ⟨serve insertionSort (Buf.zero bufsize) [.data (ascii "7")]⟩] :=
  replies_run insertionSort (Buf.zero bufsize) (by
    intro c hc
    simp only [List.mem_cons, Option.some.injEq, List.not_mem_nil, or_false, reduceCtorEq,
      false_or] at hc
    obtain rfl | rfl := hc <;> decide)

/-! ## what a reply tells -/

/-- Whatever the two sorts are: the numbers in order can only stand in one way. -/
theorem sort_eq_sort_iff (qsort qsort' : Qsort) {ns ms : List Int} (hns : Near ns) :
    qsort.sort ns = qsort'.sort ms ↔ ns.Perm ms := by
  have hperm := qsort.perm ns
  have hperm' := qsort'.perm ms
  constructor
  · intro heq
    exact hperm.symm.trans (heq ▸ hperm')
  · intro hsame
    have hms : Near ms := fun a ha b hb => hns a (hsame.mem_iff.mpr ha) b (hsame.mem_iff.mpr hb)
    refine List.Perm.eq_of_pairwise ?_ (hns.sorted qsort) (hms.sorted qsort') ?_
    · intro a b _ _
      exact Int.le_antisymm
    · exact hperm.trans (hsame.trans hperm'.symm)

theorem answer_eq_answer_iff (qsort qsort' : Qsort) {text : List UInt8}
    (hnear : Near (parse text)) (text' : List UInt8) :
    answer qsort text = answer qsort' text' ↔ (parse text).Perm (parse text') := by
  rw [← sort_eq_sort_iff qsort qsort' hnear]
  have hperm := qsort.perm (parse text)
  have hperm' := qsort'.perm (parse text')
  constructor
  · intro heq
    by_cases hnil : parse text = []
    · have hnone : answer qsort' text' = none := by
        rw [← heq]
        simp [answer, hnil]
      have hnil' : parse text' = [] := by
        by_contra hne
        rw [(answer_eq_some_iff qsort' text' _).mpr ⟨hne, rfl⟩] at hnone
        cases hnone
      rw [hnil] at hperm
      rw [hnil'] at hperm'
      rw [hnil, hnil', hperm.eq_nil, hperm'.eq_nil]
    · have hsome := (answer_eq_some_iff qsort text _).mpr ⟨hnil, rfl⟩
      rw [heq, answer_eq_some_iff] at hsome
      obtain ⟨hnil', hrebuild⟩ := hsome
      exact rebuild_injective (fun h => hnil (h ▸ hperm).nil_eq.symm)
        (fun h => hnil' (h ▸ hperm').nil_eq.symm) hrebuild
  · intro hsort
    have hnil : parse text = [] ↔ parse text' = [] := by
      rw [← List.length_eq_zero_iff, ← List.length_eq_zero_iff, ← hperm.length_eq,
        ← hperm'.length_eq, hsort]
    ext reply
    rw [answer_eq_some_iff, answer_eq_some_iff, hsort, ne_eq, hnil]

/-- **What a reply tells**: for numbers whose differences are `int`s, two requests are
answered alike exactly if they have the same numbers, however often each; and a reply that
is sent back, if it fits the buffer, is the reply to itself. -/
theorem answer_canonical (qsort qsort' : Qsort) {text : List UInt8} (hnear : Near (parse text)) :
    (∀ text', answer qsort text = answer qsort' text' ↔ (parse text).Perm (parse text')) ∧
      ∀ reply ∈ answer qsort text, reply.length ≤ bufsize - 1 → ∀ buffer,
        serve qsort' buffer [.data reply] = some reply := by
  refine ⟨answer_eq_answer_iff qsort qsort' hnear, fun reply hreply hlen buffer => ?_⟩
  obtain ⟨-, hrebuild⟩ := (answer_eq_some_iff qsort text reply).mp hreply
  have hperm := qsort.perm (parse text)
  have hints : ∀ n ∈ qsort.sort (parse text), IsInt n := fun n hn =>
    isInt_of_mem_parse (hperm.mem_iff.mp hn)
  have hparse : parse reply = qsort.sort (parse text) := by rw [hrebuild, parse_rebuild hints]
  have hnul : 0 ∉ reply := hrebuild ▸ zero_not_mem_rebuild _
  rw [serve_eq qsort' buffer hnul hlen, ← Option.mem_def.mp hreply, eq_comm,
    answer_eq_answer_iff qsort qsort' hnear, hparse]
  exact hperm.symm

/-- Numbers that are sent twice, in two orders. -/
theorem answer_canonical_two :
    answer insertionSort (ascii "2,1,2") = answer contrary (ascii " 1, 2, +2\n") := by
  have hnear : Near (parse (ascii "2,1,2")) := by
    rw [parse_eq_fields]
    decide
  have hiff := (answer_canonical insertionSort contrary hnear).1 (ascii " 1, 2, +2\n")
  rw [hiff, parse_eq_fields, parse_eq_fields]
  decide

end Reti.SortServer
