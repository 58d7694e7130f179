import Mathlib.Data.List.Basic

/-!
# Reti.Lib.LinkedNodes

Singly linked lists in a memory of nodes.  A pointer is the position of a node, nodes are
allocated one behind the other, and a list is built by appending at its end: the walk to
the last node follows `next` until it is null.

`Chain` says which values a list holds.  Its links go to nodes that were allocated later,
so that the walks end: as many turns as there are nodes are enough.
-/

namespace LinkedNodes

structure Node (α : Type) where
  value : α
  next : Option Nat
  deriving DecidableEq, Repr

/-- The nodes allocated so far, at their addresses. -/
abbrev Heap (α : Type) := List (Node α)

/-- The values met from a pointer on, in at most so many turns. -/
def walk (h : Heap α) : Nat → Option Nat → List α
  | 0, _ => []
  | _ + 1, none => []
  | fuel + 1, some p =>
    match h[p]? with
    | some node => node.value :: walk h fuel node.next
    | none => []

/-- The values of the list that starts at `head`. -/
def values (h : Heap α) (head : Option Nat) : List α := walk h h.length head

/-- `while (node->next != NULL) node = node->next`. -/
def last (h : Heap α) : Nat → Nat → Nat
  | 0, p => p
  | fuel + 1, p =>
    match h[p]?.bind Node.next with
    | some q => last h fuel q
    | none => p

/-- A new node, at the next address. -/
def alloc (h : Heap α) (x : α) : Heap α := List.concat h ⟨x, none⟩

/-- `p->next = q`. -/
def link (h : Heap α) (p q : Nat) : Heap α :=
  List.modify h p fun node => { node with next := some q }

/-- A new node at the end of the list: it is the list, or the last node links to it. -/
def append (h : Heap α) (head : Option Nat) (x : α) : Heap α × Option Nat :=
  match head with
  | none => (alloc h x, some h.length)
  | some p => (link (alloc h x) (last h h.length p) h.length, some p)

theorem getElem?_alloc_of_lt {h : Heap α} {p : Nat} (hp : p < h.length) (x : α) :
    (alloc h x)[p]? = h[p]? := by
  rw [alloc, List.concat_eq_append, List.getElem?_append_left hp]

theorem getElem?_alloc_length (h : Heap α) (x : α) : (alloc h x)[h.length]? = some ⟨x, none⟩ := by
  simp [alloc]

theorem getElem?_link_self {h : Heap α} {p : Nat} {x : α} {next : Option Nat}
    (hp : h[p]? = some ⟨x, next⟩) (q : Nat) : (link h p q)[p]? = some ⟨x, some q⟩ := by
  simp [link, hp]

theorem getElem?_link_of_ne {p p' : Nat} (hne : p ≠ p') (h : Heap α) (q : Nat) :
    (link h p q)[p']? = h[p']? := by
  simp [link, hne]

/-! ## chains -/

/-- The list that starts at a pointer holds these values. -/
inductive Chain (h : Heap α) : Option Nat → List α → Prop
  | null : Chain h none []
  | node {p : Nat} {x : α} {next : Option Nat} {xs : List α} : h[p]? = some ⟨x, next⟩ →
      (∀ q, next = some q → p < q) → Chain h next xs → Chain h (some p) (x :: xs)

variable {h : Heap α}

/-- A list has no more nodes than there are from its first one on. -/
theorem Chain.length_le {head : Option Nat} {xs : List α} (hc : Chain h head xs) :
    ∀ p, head = some p → p + xs.length ≤ h.length := by
  induction hc with
  | null => intro p hp; cases hp
  | @node p x next xs hp hlt hrest ih =>
      intro p' hp'
      cases hp'
      obtain ⟨hlen, -⟩ := List.getElem?_eq_some_iff.mp hp
      cases next with
      | none =>
          cases hrest
          exact hlen
      | some q =>
          have hq := ih q rfl
          have hpq := hlt q rfl
          rw [List.length_cons]
          omega

theorem Chain.length_le_heap {head : Option Nat} {xs : List α} (hc : Chain h head xs) :
    xs.length ≤ h.length := by
  cases head with
  | none =>
      cases hc
      exact Nat.zero_le _
  | some p => exact Nat.le_trans (Nat.le_add_left _ p) (hc.length_le p rfl)

theorem Chain.walk_eq {head : Option Nat} {xs : List α} (hc : Chain h head xs) {fuel : Nat}
    (hfuel : xs.length ≤ fuel) : walk h fuel head = xs := by
  induction hc generalizing fuel with
  | null => cases fuel <;> rfl
  | node hp _ _ ih =>
      cases fuel with
      | zero => cases hfuel
      | succ fuel => simp [walk, hp, ih (Nat.le_of_succ_le_succ hfuel)]

/-- Walking through a list meets its values. -/
theorem Chain.values_eq {head : Option Nat} {xs : List α} (hc : Chain h head xs) :
    values h head = xs := hc.walk_eq hc.length_le_heap

/-! ## pushing -/

/-- A new node in front of the list. -/
def push (h : Heap α) (head : Option Nat) (x : α) : Heap α × Option Nat :=
  (h.concat ⟨x, head⟩, some h.length)

/-- The node so many links behind a pointer; a link that is followed must not be null. -/
def getNode (h : Heap α) : Nat → Option Nat → Option (Option Nat)
  | 0, current => some current
  | _ + 1, none => none
  | index + 1, some p => h[p]?.bind fun node => getNode h index node.next

/-- What a pointer points to. -/
def deref (h : Heap α) (p : Option Nat) : Option α := (p.bind fun p => h[p]?).map Node.value

/-- The list that starts at a pointer holds these values, wherever its nodes are. -/
inductive Linked (h : Heap α) : Option Nat → List α → Prop
  | null : Linked h none []
  | node {p : Nat} {x : α} {next : Option Nat} {xs : List α} : h[p]? = some ⟨x, next⟩ →
      Linked h next xs → Linked h (some p) (x :: xs)

theorem Linked.walk_eq {head : Option Nat} {xs : List α} (hl : Linked h head xs) {fuel : Nat}
    (hfuel : xs.length ≤ fuel) : walk h fuel head = xs := by
  induction hl generalizing fuel with
  | null => cases fuel <;> rfl
  | node hp _ ih =>
      cases fuel with
      | zero => cases hfuel
      | succ fuel => simp [walk, hp, ih (Nat.le_of_succ_le_succ hfuel)]

/-- A new node leaves the lists alone. -/
theorem Linked.concat {head : Option Nat} {xs : List α} (hl : Linked h head xs) (node : Node α) :
    Linked (h.concat node) head xs := by
  induction hl with
  | null => exact .null
  | @node p x next xs hp _ ih =>
      obtain ⟨hlen, -⟩ := List.getElem?_eq_some_iff.mp hp
      refine .node ?_ ih
      rw [List.concat_eq_append, List.getElem?_append_left hlen, hp]

theorem Linked.push {head : Option Nat} {xs : List α} (hl : Linked h head xs) (x : α) :
    Linked (push h head x).1 (push h head x).2 (x :: xs) :=
  .node (by simp [LinkedNodes.push]) (hl.concat _)

/-- The links of a list lead to its values, and one behind the last of them to null. -/
theorem Linked.getNode_eq {head : Option Nat} {xs : List α} (hl : Linked h head xs) {index : Nat}
    (hindex : index ≤ xs.length) :
    ∃ p, getNode h index head = some p ∧ deref h p = xs[index]? ∧
      (p = none ↔ index = xs.length) := by
  induction hl generalizing index with
  | null =>
      obtain rfl : index = 0 := by simpa using hindex
      exact ⟨none, rfl, rfl, by simp⟩
  | @node p x next xs hp _ ih =>
      cases index with
      | zero => exact ⟨some p, rfl, by simp [deref, hp], by simp⟩
      | succ index =>
          obtain ⟨q, hq, hval, hnull⟩ := ih (Nat.le_of_succ_le_succ hindex)
          exact ⟨q, by simp [getNode, hp, hq], by simpa using hval, by simpa using hnull⟩

/-- Every link further is one from a null pointer. -/
theorem Linked.getNode_eq_none {head : Option Nat} {xs : List α} (hl : Linked h head xs)
    {index : Nat} (hindex : xs.length < index) : getNode h index head = none := by
  induction hl generalizing index with
  | null =>
      cases index with
      | zero => cases hindex
      | succ index => rfl
  | node hp _ ih =>
      cases index with
      | zero => cases hindex
      | succ index => simp [getNode, hp, ih (Nat.lt_of_succ_lt_succ hindex)]

/-! ## appending -/

/-- The walk to the last node does not go back. -/
theorem Chain.le_last {head : Option Nat} {xs : List α} (hc : Chain h head xs) (fuel : Nat) :
    ∀ p, head = some p → p ≤ last h fuel p := by
  induction hc generalizing fuel with
  | null => intro p hp; cases hp
  | @node p x next xs hp hlt hrest ih =>
      intro p' hp'
      cases hp'
      cases fuel with
      | zero => exact Nat.le_refl _
      | succ fuel =>
          cases next with
          | none => simp [last, hp]
          | some q =>
              have hq := ih fuel q rfl
              have hpq := hlt q rfl
              simp only [last, hp, Option.bind_some]
              omega

/-- **Step lemma**: linking the last node to a new one appends its value. -/
theorem Chain.link_last {head : Option Nat} {xs : List α} (hc : Chain h head xs) (x : α)
    {fuel : Nat} (hfuel : xs.length ≤ fuel) : ∀ p, head = some p →
    Chain (link (alloc h x) (last h fuel p) h.length) (some p) (xs ++ [x]) := by
  induction hc generalizing fuel with
  | null => intro p hp; cases hp
  | @node p y next xs hp hlt hrest ih =>
      intro p' hp'
      cases hp'
      obtain ⟨hlen, -⟩ := List.getElem?_eq_some_iff.mp hp
      have hold : (alloc h x)[p]? = some ⟨y, next⟩ := by rw [getElem?_alloc_of_lt hlen, hp]
      cases fuel with
      | zero => cases hfuel
      | succ fuel =>
          cases next with
          | none =>
              -- this is the last node: it links to the new one from now on
              cases hrest
              have hlast : last h (fuel + 1) p = p := by simp [last, hp]
              rw [hlast]
              have hnew : (link (alloc h x) p h.length)[h.length]? = some ⟨x, none⟩ := by
                rw [getElem?_link_of_ne (Nat.ne_of_lt hlen), getElem?_alloc_length]
              have hend : Chain (link (alloc h x) p h.length) (some h.length) [x] :=
                .node hnew (fun q hq => by cases hq) .null
              refine .node (getElem?_link_self hold h.length) ?_ hend
              intro q hq
              rwa [← Option.some.inj hq]
          | some q =>
              have hlast : last h (fuel + 1) p = last h fuel q := by simp [last, hp]
              have hpq := hlt q rfl
              have hle := hrest.le_last fuel q rfl
              have hne : last h fuel q ≠ p := by omega
              rw [hlast]
              exact .node ((getElem?_link_of_ne hne _ _).trans hold) hlt
                (ih (Nat.le_of_succ_le_succ hfuel) q rfl)

/-- Appending at the end of a list. -/
theorem Chain.append {head : Option Nat} {xs : List α} (hc : Chain h head xs) (x : α) :
    Chain (append h head x).1 (append h head x).2 (xs ++ [x]) := by
  cases head with
  | none =>
      cases hc
      exact .node (getElem?_alloc_length h x) (fun q hq => by cases hq) .null
  | some p => exact hc.link_last x hc.length_le_heap p rfl

/-- Every node of the memory is in the list. -/
def Full (h : Heap α) (head : Option Nat) (xs : List α) : Prop :=
  Chain h head xs ∧ xs.length = h.length

theorem length_append_fst (h : Heap α) (head : Option Nat) (x : α) :
    (append h head x).1.length = h.length + 1 := by
  cases head with
  | none => simp [LinkedNodes.append, alloc]
  | some p => simp [LinkedNodes.append, alloc, link]

theorem Full.nil : Full ([] : Heap α) none [] := ⟨.null, rfl⟩

/-- A list that is built by appending holds every node. -/
theorem Full.append {head : Option Nat} {xs : List α} (hf : Full h head xs) (x : α) :
    Full (append h head x).1 (append h head x).2 (xs ++ [x]) := by
  refine ⟨hf.1.append x, ?_⟩
  rw [length_append_fst, List.length_append, hf.2]
  rfl

/-! ## freeing -/

/-- Memory in which nodes have been freed; those are gone. -/
abbrev Mem (α : Type) := List (Option (Node α))

/-- `next = node->next; free(node); node = next` until `node` is null.  Reading or freeing a
node that is gone, or that never was, is undefined. -/
def freeList (m : Mem α) : Nat → Option Nat → Option (Mem α)
  | _, none => some m
  | 0, some _ => none
  | fuel + 1, some p =>
    match m[p]? with
    | some (some node) => freeList (m.set p none) fuel node.next
    | _ => none

/-- Memory whose first nodes have been freed. -/
def freed (h : Heap α) (p : Nat) : Mem α := List.replicate p none ++ (h.drop p).map some

theorem getElem?_freed {p : Nat} {node : Node α} (hp : h[p]? = some node) :
    (freed h p)[p]? = some (some node) := by
  rw [freed, List.getElem?_append_right (by simp)]
  simp [hp]

theorem set_freed {p : Nat} (hp : p < h.length) : (freed h p).set p none = freed h (p + 1) := by
  rw [freed, List.set_append_right p none (by simp), List.length_replicate, Nat.sub_self,
    List.drop_eq_getElem_cons hp, List.map_cons, List.set_cons_zero, freed,
    List.replicate_succ', List.append_assoc, List.singleton_append]

/-- **Run lemma**: if the rest of the list is the rest of the memory, freeing the one frees
the other. -/
theorem Chain.freeList_eq {head : Option Nat} {xs : List α} (hc : Chain h head xs) {p : Nat}
    (hhead : ∀ q, head = some q → q = p) (hlen : p + xs.length = h.length) {fuel : Nat}
    (hfuel : xs.length ≤ fuel) :
    freeList (freed h p) fuel head = some (List.replicate h.length none) := by
  induction hc generalizing p fuel with
  | null =>
      obtain rfl : p = h.length := by simpa using hlen
      cases fuel <;> simp [freeList, freed]
  | @node q x next xs hq hlt hrest ih =>
      obtain rfl := hhead q rfl
      obtain ⟨hqlen, -⟩ := List.getElem?_eq_some_iff.mp hq
      rw [List.length_cons] at hlen hfuel
      cases fuel with
      | zero => omega
      | succ fuel =>
          rw [freeList, getElem?_freed hq]
          dsimp only
          rw [set_freed hqlen]
          refine ih (fun r hr => ?_) (by omega) (by omega)
          -- a later link would leave out a node
          have hle := hrest.length_le r hr
          have hqr := hlt r hr
          omega

/-- Freeing a list that holds every node frees every node, and each once. -/
theorem Full.freeList_eq {head : Option Nat} {xs : List α} (hf : Full h head xs) :
    freeList (h.map some) h.length head = some (List.replicate h.length none) := by
  obtain ⟨hc, hlen⟩ := hf
  have hhead (q : Nat) (hq : head = some q) : q = 0 := by
    have hle := hc.length_le q hq
    omega
  have hfree := hc.freeList_eq hhead (by omega) (Nat.le_of_eq hlen)
  rwa [freed, List.replicate_zero, List.nil_append, List.drop_zero] at hfree

end LinkedNodes
