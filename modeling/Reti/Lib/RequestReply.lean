import Mathlib.Data.List.Perm.Basic
import Reti.Lib.Transducer

/-!
# Reti.Lib.RequestReply

One server and clients that wait for a reply before they send the next request, over a
network that loses messages and lets them overtake each other.  Requests and replies carry
no numbers: what pairs them is that no client has two of them on the way.

The server is a function of its state, its own input, the client and the request.  It may
leave a request without a reply.
-/

namespace RequestReply

open Transducer

/-- The server, the messages on the way, and the clients that wait. -/
structure Sys (σ κ ρ α : Type) where
  server : σ
  requests : List (κ × ρ)
  replies : List (κ × α)
  waiting : List κ

/-- What can happen next: a client asks, or one of the messages on the way arrives or is
lost.  The server takes an input to a request. -/
inductive Event (κ ρ ι : Type) where
  | ask (client : κ) (request : ρ)
  | serve (i : Nat) (input : ι)
  | deliver (i : Nat)
  | loseRequest (i : Nat)
  | loseReply (i : Nat)
  deriving DecidableEq, Repr

/-- What has happened. -/
inductive Log (κ ρ ι α : Type) where
  | asked (client : κ) (request : ρ)
  | served (client : κ) (request : ρ) (input : ι) (reply : Option α)
  | shown (client : κ) (reply : α)
  deriving DecidableEq, Repr

/-- The state that a system starts in. -/
def Sys.init (server : σ) : Sys σ κ ρ α := ⟨server, [], [], []⟩

variable {σ κ ρ ι α : Type} [DecidableEq κ]

/-- One event. -/
def step (serve : σ → ι → κ → ρ → σ × Option α) (s : Sys σ κ ρ α) :
    Event κ ρ ι → Sys σ κ ρ α × List (Log κ ρ ι α)
  | .ask client request =>
    if client ∈ s.waiting then (s, [])
    else ({ s with requests := s.requests ++ [(client, request)], waiting := client :: s.waiting },
      [.asked client request])
  | .serve i input =>
    match s.requests[i]? with
    | some (client, request) =>
      let (server, reply) := serve s.server input client request
      ({ s with
          server := server
          requests := s.requests.eraseIdx i
          replies := s.replies ++ (reply.map fun a => (client, a)).toList },
        [.served client request input reply])
    | none => (s, [])
  | .deliver i =>
    match s.replies[i]? with
    | some (client, reply) =>
      ({ s with replies := s.replies.eraseIdx i, waiting := s.waiting.erase client },
        [.shown client reply])
    | none => (s, [])
  | .loseRequest i => ({ s with requests := s.requests.eraseIdx i }, [])
  | .loseReply i => ({ s with replies := s.replies.eraseIdx i }, [])

/-! ## what a client asks, what it is served and what it is shown -/

/-- The requests of a client. -/
def asked (k : κ) (log : List (Log κ ρ ι α)) : List ρ :=
  log.filterMap fun
    | .asked client request => if client = k then some request else none
    | _ => none

/-- What the server has done for a client: the requests with the replies, if there were
any. -/
def served (k : κ) (log : List (Log κ ρ ι α)) : List (ρ × Option α) :=
  log.filterMap fun
    | .served client request _ reply => if client = k then some (request, reply) else none
    | _ => none

/-- The replies that have come to a client. -/
def shown (k : κ) (log : List (Log κ ρ ι α)) : List α :=
  log.filterMap fun
    | .shown client reply => if client = k then some reply else none
    | _ => none

section

variable (k : κ) (log log' : List (Log κ ρ ι α))

theorem asked_append : asked k (log ++ log') = asked k log ++ asked k log' :=
  List.filterMap_append

theorem served_append : served k (log ++ log') = served k log ++ served k log' :=
  List.filterMap_append

theorem shown_append : shown k (log ++ log') = shown k log ++ shown k log' :=
  List.filterMap_append

end

/-- A message of another client is taken away. -/
theorem own_eraseIdx_of_ne {k k' : κ} {ms : List (κ × β)} {i : Nat} {m : β}
    (hi : ms[i]? = some (k', m)) (h : k' ≠ k) : own k (ms.eraseIdx i) = own k ms := by
  obtain ⟨hlt, hget⟩ := List.getElem?_eq_some_iff.mp hi
  conv_rhs => rw [← List.take_append_drop i ms, List.drop_eq_getElem_cons hlt, hget]
  rw [List.eraseIdx_eq_take_drop_succ, own_append, own_append, ← List.singleton_append,
    own_append, own_singleton_of_ne h, List.nil_append]

/-- The only message of a client is taken away. -/
theorem own_eraseIdx_self {k : κ} {ms : List (κ × β)} {i : Nat} {m : β} (hi : ms[i]? = some (k, m))
    (hlen : (own k ms).length ≤ 1) : own k ms = [m] ∧ own k (ms.eraseIdx i) = [] := by
  obtain ⟨hlt, hget⟩ := List.getElem?_eq_some_iff.mp hi
  have hown : own k ms = own k (ms.take i) ++ m :: own k (ms.drop (i + 1)) := by
    conv_lhs => rw [← List.take_append_drop i ms, List.drop_eq_getElem_cons hlt, hget]
    rw [own_append, ← List.singleton_append, own_append, own_singleton_self, List.singleton_append]
  rw [hown, List.length_append, List.length_cons] at hlen
  have hbefore : own k (ms.take i) = [] := List.eq_nil_of_length_eq_zero (by omega)
  have hafter : own k (ms.drop (i + 1)) = [] := List.eq_nil_of_length_eq_zero (by omega)
  rw [hbefore, hafter, List.nil_append] at hown
  refine ⟨hown, ?_⟩
  rw [List.eraseIdx_eq_take_drop_succ, own_append, hbefore, hafter, List.nil_append]

/-! ## one exchange at a time -/

/-- How far a client is: it has asked what it has been served, and perhaps `rs` more; it has
been shown what it has been served, but perhaps `as`. -/
structure Paired (k : κ) (s : Sys σ κ ρ α) (log : List (Log κ ρ ι α)) (rs : List ρ)
    (as : List (Option α)) : Prop where
  asked_eq : asked k log = (served k log).map Prod.fst ++ rs
  served_eq : (served k log).map Prod.snd = (shown k log).map some ++ as
  one : rs.length + as.length ≤ 1
  requests : (own k s.requests).Sublist rs
  replies : ((own k s.replies).map some).Sublist as
  idle : k ∉ s.waiting → rs = [] ∧ as = []

/-- Every client is in an exchange or between two. -/
def Inv (s : Sys σ κ ρ α) (log : List (Log κ ρ ι α)) : Prop :=
  ∀ k, ∃ rs as, Paired k s log rs as

variable {serve : σ → ι → κ → ρ → σ × Option α} {s s' : Sys σ κ ρ α} {log : List (Log κ ρ ι α)}

/-- What is none of a client's concern. -/
theorem Paired.frame {k : κ} {rs : List ρ} {as : List (Option α)} (h : Paired k s log rs as)
    (hrequests : (own k s'.requests).Sublist (own k s.requests))
    (hreplies : (own k s'.replies).Sublist (own k s.replies))
    (hwaiting : k ∉ s'.waiting → k ∉ s.waiting) {new : List (Log κ ρ ι α)}
    (hasked : asked k new = []) (hserved : served k new = []) (hshown : shown k new = []) :
    Paired k s' (log ++ new) rs as where
  asked_eq := by
    rw [asked_append, served_append, hasked, hserved, List.append_nil, List.append_nil]
    exact h.asked_eq
  served_eq := by
    rw [served_append, shown_append, hserved, hshown, List.append_nil, List.append_nil]
    exact h.served_eq
  one := h.one
  requests := hrequests.trans h.requests
  replies := (hreplies.map some).trans h.replies
  idle hk := h.idle (hwaiting hk)

/-- A message is lost, or nothing happens. -/
theorem inv_of_sublist (hs : Inv s log) (hrequests : s'.requests.Sublist s.requests)
    (hreplies : s'.replies.Sublist s.replies) (hwaiting : s'.waiting = s.waiting) :
    Inv s' (log ++ []) := by
  intro k
  obtain ⟨rs, as, h⟩ := hs k
  exact ⟨rs, as, h.frame (hrequests.filterMap _) (hreplies.filterMap _) (fun hk => hwaiting ▸ hk)
    rfl rfl rfl⟩

theorem inv_self (hs : Inv s log) : Inv s (log ++ []) :=
  inv_of_sublist hs (.refl _) (.refl _) rfl

/-- A client that does not wait asks. -/
theorem inv_ask (hs : Inv s log) {client : κ} (hidle : client ∉ s.waiting) (request : ρ) :
    Inv { s with requests := s.requests ++ [(client, request)], waiting := client :: s.waiting }
      (log ++ [.asked client request]) := by
  intro k
  obtain ⟨rs, as, h⟩ := hs k
  by_cases hk : client = k
  · subst hk
    obtain ⟨rfl, rfl⟩ := h.idle hidle
    have hrequests : own client s.requests = [] := List.sublist_nil.mp h.requests
    refine ⟨[request], [], ?_, ?_, Nat.le_refl 1, ?_, h.replies, by simp⟩
    · rw [asked_append, served_append, h.asked_eq]
      simp [asked, served]
    · rw [served_append, shown_append, List.map_append, h.served_eq]
      simp [served, shown]
    · rw [own_append, hrequests, own_singleton_self, List.nil_append]
  · have hother : own k (s.requests ++ [(client, request)]) = own k s.requests := by
      rw [own_append, own_singleton_of_ne hk, List.append_nil]
    refine ⟨rs, as, h.frame ?_ ?_ ?_ ?_ rfl rfl⟩
    · rw [hother]
    · exact .refl _
    · exact fun hw hmem => hw (List.mem_cons_of_mem client hmem)
    · simp [asked, hk]

/-- The server takes a request from the network, and answers it or not. -/
theorem inv_serve (hs : Inv s log) {i : Nat} {client : κ} {request : ρ}
    (hi : s.requests[i]? = some (client, request)) (server : σ) (input : ι) (reply : Option α) :
    Inv { s with
        server := server
        requests := s.requests.eraseIdx i
        replies := s.replies ++ (reply.map fun a => (client, a)).toList }
      (log ++ [.served client request input reply]) := by
  intro k
  obtain ⟨rs, as, h⟩ := hs k
  by_cases hk : client = k
  · subst hk
    have hone := h.one
    have hlen := h.requests.length_le
    obtain ⟨hown, hgone⟩ := own_eraseIdx_self hi (by omega)
    have hrs : [request].Sublist rs := hown ▸ h.requests
    obtain rfl : [request] = rs := hrs.eq_of_length_le (by rw [List.length_singleton]; omega)
    rw [List.length_singleton] at hone
    obtain rfl : as = [] := List.eq_nil_of_length_eq_zero (by omega)
    have hreplies : own client s.replies = [] := by simpa using h.replies
    refine ⟨[], [reply], ?_, ?_, Nat.le_refl 1, by rw [hgone], ?_, fun hw => ?_⟩
    · rw [asked_append, served_append, h.asked_eq]
      simp [asked, served]
    · rw [served_append, shown_append, List.map_append, h.served_eq]
      simp [served, shown]
    · rw [own_append, hreplies, List.nil_append]
      cases reply <;> simp
    · exact absurd (h.idle hw).1 (by simp)
  · have hother : own k (s.replies ++ (reply.map fun a => (client, a)).toList) =
        own k s.replies := by
      rw [own_append]
      cases reply <;> simp [own_singleton_of_ne hk]
    refine ⟨rs, as, h.frame ?_ ?_ ?_ rfl ?_ rfl⟩
    · rw [own_eraseIdx_of_ne hi hk]
    · rw [hother]
    · exact id
    · simp [served, hk]

/-- A reply comes to its client, which waits no longer. -/
theorem inv_deliver (hs : Inv s log) {i : Nat} {client : κ} {reply : α}
    (hi : s.replies[i]? = some (client, reply)) :
    Inv { s with replies := s.replies.eraseIdx i, waiting := s.waiting.erase client }
      (log ++ [.shown client reply]) := by
  intro k
  obtain ⟨rs, as, h⟩ := hs k
  by_cases hk : client = k
  · subst hk
    have hone := h.one
    have hlen := h.replies.length_le
    rw [List.length_map] at hlen
    obtain ⟨hown, hgone⟩ := own_eraseIdx_self hi (by omega)
    have has : [some reply].Sublist as := by simpa [hown] using h.replies
    obtain rfl : [some reply] = as := has.eq_of_length_le (by rw [List.length_singleton]; omega)
    rw [List.length_singleton] at hone
    obtain rfl : rs = [] := List.eq_nil_of_length_eq_zero (by omega)
    refine ⟨[], [], ?_, ?_, Nat.zero_le 1, h.requests, by rw [hgone]; exact .slnil, by simp⟩
    · rw [asked_append, served_append, h.asked_eq]
      simp [asked, served]
    · rw [served_append, shown_append, List.map_append, h.served_eq]
      simp [served, shown]
  · refine ⟨rs, as, h.frame ?_ ?_ ?_ rfl rfl ?_⟩
    · exact .refl _
    · rw [own_eraseIdx_of_ne hi hk]
    · exact fun hw hmem => hw ((List.mem_erase_of_ne (Ne.symm hk)).mpr hmem)
    · simp [shown, hk]

/-- **Step lemma**: no client comes to have two messages on the way. -/
theorem inv_step (hs : Inv s log) (e : Event κ ρ ι) :
    Inv (step serve s e).1 (log ++ (step serve s e).2) := by
  cases e with
  | ask client request =>
      by_cases hw : client ∈ s.waiting
      · rw [step, if_pos hw]
        exact inv_self hs
      · rw [step, if_neg hw]
        exact inv_ask hs hw request
  | serve i input =>
      cases hi : s.requests[i]? with
      | none =>
          simp only [step, hi]
          exact inv_self hs
      | some m =>
          simp only [step, hi]
          exact inv_serve hs hi _ input _
  | deliver i =>
      cases hi : s.replies[i]? with
      | none =>
          simp only [step, hi]
          exact inv_self hs
      | some m =>
          simp only [step, hi]
          exact inv_deliver hs hi
  | loseRequest i => exact inv_of_sublist hs (List.eraseIdx_sublist _ i) (.refl _) rfl
  | loseReply i => exact inv_of_sublist hs (.refl _) (List.eraseIdx_sublist _ i) rfl

variable (serve) in
/-- **Run lemma**: what a client has asked is what it has been served, and at most one request
more; what it has been served is what it has been shown, and at most one reply more; and not
both. -/
theorem paired_run (server : σ) (es : List (Event κ ρ ι)) (k : κ) :
    ∃ rs as, Paired k (run (step serve) (.init server) es).1
      (run (step serve) (.init server) es).2 rs as := by
  have hstep (s : Sys σ κ ρ α) (_ : List (Event κ ρ ι)) (log : List (Log κ ρ ι α))
      (e : Event κ ρ ι) (hs : Inv s log) :
      Inv (step serve s e).1 (log ++ (step serve s e).2) := inv_step hs e
  have hinit : Inv (.init server : Sys σ κ ρ α) ([] : List (Log κ ρ ι α)) := fun k =>
    ⟨[], [], rfl, rfl, Nat.zero_le 1, .slnil, .slnil, fun _ => ⟨rfl, rfl⟩⟩
  exact run_hist_of_step hstep hinit es k

variable (serve) in
/-- A reply that is shown is the reply to the request with its number. -/
theorem served_of_shown (server : σ) (es : List (Event κ ρ ι)) (k : κ) {i : Nat} {reply : α}
    (hi : (shown k (run (step serve) (.init server) es).2)[i]? = some reply) :
    ∃ request, (asked k (run (step serve) (.init server) es).2)[i]? = some request ∧
      (served k (run (step serve) (.init server) es).2)[i]? = some (request, some reply) := by
  obtain ⟨rs, as, h⟩ := paired_run serve server es k
  generalize (run (step serve) (.init server) es).2 = log at hi h ⊢
  have hlt : i < (shown k log).length := (List.getElem?_eq_some_iff.mp hi).1
  have hreply : ((served k log).map Prod.snd)[i]? = some (some reply) := by
    rw [h.served_eq, List.getElem?_append_left (by simpa using hlt), List.getElem?_map, hi]
    rfl
  rw [List.getElem?_map, Option.map_eq_some_iff] at hreply
  obtain ⟨⟨request, reply'⟩, hserved, rfl⟩ := hreply
  refine ⟨request, ?_, hserved⟩
  rw [h.asked_eq, List.getElem?_append_left, List.getElem?_map, hserved]
  · rfl
  · rw [List.length_map]
    exact (List.getElem?_eq_some_iff.mp hserved).1

variable (serve) in
theorem take_asked (server : σ) (es : List (Event κ ρ ι)) (k : κ) {i : Nat}
    (hi : i ≤ (served k (run (step serve) (.init server) es).2).length) :
    (asked k (run (step serve) (.init server) es).2).take i =
      ((served k (run (step serve) (.init server) es).2).take i).map Prod.fst := by
  obtain ⟨rs, as, h⟩ := paired_run serve server es k
  rw [h.asked_eq, List.take_append_of_le_length (by rwa [List.length_map]), List.map_take]

/-! ## the server alone -/

/-- What the server is given, in order. -/
def intake (log : List (Log κ ρ ι α)) : List (ι × κ × ρ) :=
  log.filterMap fun
    | .served client request input _ => some (input, client, request)
    | _ => none

/-- What it gives for that. -/
def given (log : List (Log κ ρ ι α)) : List (Option α) :=
  log.filterMap fun
    | .served _ _ _ reply => some reply
    | _ => none

/-- The server as a machine of its own. -/
def serverStep (serve : σ → ι → κ → ρ → σ × Option α) (server : σ) (m : ι × κ × ρ) :
    σ × List (Option α) :=
  ((serve server m.1 m.2.1 m.2.2).1, [(serve server m.1 m.2.1 m.2.2).2])

omit [DecidableEq κ] in
theorem intake_append (log log' : List (Log κ ρ ι α)) :
    intake (log ++ log') = intake log ++ intake log' := List.filterMap_append

omit [DecidableEq κ] in
theorem given_append (log log' : List (Log κ ρ ι α)) :
    given (log ++ log') = given log ++ given log' := List.filterMap_append

/-- The server is where it would be alone, and has given what it would have given. -/
def Alone (serve : σ → ι → κ → ρ → σ × Option α) (server : σ) (s : Sys σ κ ρ α)
    (log : List (Log κ ρ ι α)) : Prop :=
  run (serverStep serve) server (intake log) = (s.server, given log)

omit [DecidableEq κ] in
theorem Alone.frame {server : σ} (hs : Alone serve server s log) (hserver : s'.server = s.server)
    {new : List (Log κ ρ ι α)} (hintake : intake new = []) (hgiven : given new = []) :
    Alone serve server s' (log ++ new) := by
  rw [Alone, intake_append, given_append, hintake, hgiven, List.append_nil, List.append_nil,
    hserver]
  exact hs

/-- **Step lemma**: the server does what it would do alone. -/
theorem alone_step {server : σ} (hs : Alone serve server s log) (e : Event κ ρ ι) :
    Alone serve server (step serve s e).1 (log ++ (step serve s e).2) := by
  cases e with
  | ask client request =>
      by_cases hw : client ∈ s.waiting
      · rw [step, if_pos hw]
        exact hs.frame rfl rfl rfl
      · rw [step, if_neg hw]
        exact hs.frame rfl rfl rfl
  | serve i input =>
      cases hi : s.requests[i]? with
      | none =>
          simp only [step, hi]
          exact hs.frame rfl rfl rfl
      | some m =>
          simp only [step, hi]
          have hserver : (run (serverStep serve) server (intake log)).1 = s.server :=
            congrArg Prod.fst hs
          have hgiven : (run (serverStep serve) server (intake log)).2 = given log :=
            congrArg Prod.snd hs
          rw [Alone, intake_append, given_append]
          refine Prod.ext ?_ ?_
          · rw [run_append_fst, hserver]
            rfl
          · rw [run_append_snd, hserver, hgiven]
            rfl
  | deliver i =>
      cases hi : s.replies[i]? with
      | none =>
          simp only [step, hi]
          exact hs.frame rfl rfl rfl
      | some m =>
          simp only [step, hi]
          exact hs.frame rfl rfl rfl
  | loseRequest i => exact hs.frame rfl rfl rfl
  | loseReply i => exact hs.frame rfl rfl rfl

variable (serve) in
/-- **Run lemma**: what the server has done is a run of its own. -/
theorem alone_run (server : σ) (es : List (Event κ ρ ι)) :
    Alone serve server (run (step serve) (.init server) es).1
      (run (step serve) (.init server) es).2 := by
  have hstep (s : Sys σ κ ρ α) (_ : List (Event κ ρ ι)) (log : List (Log κ ρ ι α))
      (e : Event κ ρ ι) (hs : Alone serve server s log) :
      Alone serve server (step serve s e).1 (log ++ (step serve s e).2) := alone_step hs e
  have hinit : Alone serve server (.init server) [] := rfl
  exact run_hist_of_step hstep hinit es

omit [DecidableEq κ] in
theorem length_given (log : List (Log κ ρ ι α)) : (given log).length = (intake log).length := by
  induction log with
  | nil => rfl
  | cons entry log ih =>
      cases entry with
      | asked client request => exact ih
      | served client request input reply => exact congrArg Nat.succ ih
      | shown client reply => exact ih

omit [DecidableEq κ] in
theorem length_run_serverStep (server : σ) (ms : List (ι × κ × ρ)) :
    (run (serverStep serve) server ms).2.length = ms.length := by
  induction ms generalizing server with
  | nil => rfl
  | cons m ms ih => exact congrArg Nat.succ (ih _)

omit [DecidableEq κ] in
/-- What the server gives from some point on. -/
theorem Alone.given_eq {server : σ} {before after : List (Log κ ρ ι α)}
    (h : Alone serve server s (before ++ after)) :
    given after = (run (serverStep serve) (run (serverStep serve) server (intake before)).1
      (intake after)).2 := by
  have hall : (run (serverStep serve) server (intake (before ++ after))).2 =
      given (before ++ after) := congrArg Prod.snd h
  rw [intake_append, given_append, run_append_snd] at hall
  have hlen : (run (serverStep serve) server (intake before)).2.length = (given before).length := by
    rw [length_run_serverStep, length_given]
  exact (List.append_inj_right hall hlen).symm

omit [DecidableEq κ] in
/-- A reply is what the server gives after all it has been given before. -/
theorem Alone.reply_eq {server : σ} {before after : List (Log κ ρ ι α)} {client : κ} {request : ρ}
    {input : ι} {reply : Option α}
    (h : Alone serve server s (before ++ .served client request input reply :: after)) :
    reply = (serve (run (serverStep serve) server (intake before)).1 input client request).2 :=
  (List.cons.inj h.given_eq).1

/-- The place in the log where a client is served for the `i`-th time. -/
theorem exists_served {k : κ} {i : Nat} {request : ρ} {reply : Option α}
    (hi : (served k log)[i]? = some (request, reply)) :
    ∃ before input after, log = before ++ .served k request input reply :: after ∧
      served k before = (served k log).take i := by
  obtain ⟨hlt, hget⟩ := List.getElem?_eq_some_iff.mp hi
  have hsplit : served k log =
      (served k log).take i ++ (request, reply) :: (served k log).drop (i + 1) := by
    rw [← hget, ← List.drop_eq_getElem_cons hlt, List.take_append_drop]
  obtain ⟨before, rest, hlog, hbefore, hrest⟩ := List.filterMap_eq_append_iff.mp hsplit
  obtain ⟨skipped, entry, after, rfl, hskipped, hentry, -⟩ := List.filterMap_eq_cons_iff.mp hrest
  have hnone : served k skipped = [] := List.filterMap_eq_nil_iff.mpr hskipped
  have hserved : served k (before ++ skipped) = (served k log).take i := by
    rw [served_append, hnone, List.append_nil]
    exact hbefore
  cases entry with
  | asked client request' => cases hentry
  | served client request' input reply' =>
      by_cases hk : client = k
      · simp only [hk, if_pos, Option.some.injEq, Prod.mk.injEq] at hentry
        obtain ⟨rfl, rfl⟩ := hentry
        exact ⟨before ++ skipped, input, after, by rw [hlog, List.append_assoc, hk], hserved⟩
      · simp only [if_neg hk] at hentry
        cases hentry
  | shown client reply' => cases hentry

variable (serve) in
/-- The place in the log where the reply comes from that a client is shown. -/
theorem place_of_shown (server : σ) (es : List (Event κ ρ ι)) (k : κ) {i : Nat} {reply : α}
    (hi : (shown k (run (step serve) (.init server) es).2)[i]? = some reply) :
    ∃ request input before after,
      (asked k (run (step serve) (.init server) es).2)[i]? = some request ∧
        (run (step serve) (.init server) es).2 =
          before ++ .served k request input (some reply) :: after ∧
        (served k before).length = i := by
  obtain ⟨request, hasked, hserved⟩ := served_of_shown serve server es k hi
  obtain ⟨before, input, after, hlog, hbefore⟩ := exists_served hserved
  have hlt := (List.getElem?_eq_some_iff.mp hserved).1
  refine ⟨request, input, before, after, hasked, hlog, ?_⟩
  rw [hbefore, List.length_take]
  exact Nat.min_eq_left (Nat.le_of_lt hlt)

omit [DecidableEq κ] in
/-- A server that has stopped gives nothing. -/
theorem given_of_stopped {stopped : σ}
    (h : ∀ input client request, serve stopped input client request = (stopped, none))
    (ms : List (ι × κ × ρ)) : ∀ r ∈ (run (serverStep serve) stopped ms).2, r = none := by
  have hstep (m : ι × κ × ρ) : serverStep serve stopped m = (stopped, [none]) := by
    rw [serverStep, h]
  induction ms with
  | nil => simp
  | cons m ms ih =>
      rw [run_cons_snd, List.forall_mem_append, hstep]
      exact ⟨by simp, ih⟩

/-! ## how often something is asked -/

/-- The server is given what it serves a client. -/
theorem countP_served_le (k : κ) (p : ρ → Bool) (log : List (Log κ ρ ι α)) :
    (served k log).countP (fun m => p m.1) ≤ (intake log).countP fun m => p m.2.2 := by
  induction log with
  | nil => exact Nat.le_refl 0
  | cons entry log ih =>
      cases entry with
      | asked client request => exact ih
      | served client request input reply =>
          have hintake : intake (.served client request input reply :: log) =
              (input, client, request) :: intake log := rfl
          by_cases hk : client = k
          · have hserved : served k (.served client request input reply :: log) =
                (request, reply) :: served k log := by simp [served, hk]
            rw [hserved, hintake, List.countP_cons, List.countP_cons]
            exact Nat.add_le_add_right ih _
          · have hserved : served k (.served client request input reply :: log) =
                served k log := by simp [served, hk]
            rw [hserved, hintake, List.countP_cons]
            exact Nat.le_add_right_of_le ih
      | shown client reply => exact ih

/-- A client asks something of a kind. -/
def asks (p : ρ → Bool) : Event κ ρ ι → Bool
  | .ask _ request => p request
  | _ => false

/-- What the server is given, and what is on its way to it, has been asked. -/
def Asked (p : ρ → Bool) (s : Sys σ κ ρ α) (es : List (Event κ ρ ι)) (log : List (Log κ ρ ι α)) :
    Prop :=
  (intake log).countP (fun m => p m.2.2) + s.requests.countP (fun m => p m.2) ≤ es.countP (asks p)

omit [DecidableEq κ] in
/-- Nothing is asked, and the server is given nothing. -/
theorem Asked.frame {p : ρ → Bool} {es : List (Event κ ρ ι)} (hs : Asked p s es log)
    (hrequests : s'.requests.Sublist s.requests) {new : List (Log κ ρ ι α)}
    (hintake : intake new = []) (e : Event κ ρ ι) : Asked p s' (es ++ [e]) (log ++ new) := by
  have hless : s'.requests.countP (fun m => p m.2) ≤ s.requests.countP (fun m => p m.2) :=
    hrequests.countP_le
  rw [Asked, intake_append, hintake, List.append_nil, List.countP_append]
  rw [Asked] at hs
  omega

/-- **Step lemma**: the server is given only what has been asked. -/
theorem asked_step {p : ρ → Bool} {es : List (Event κ ρ ι)} (hs : Asked p s es log)
    (e : Event κ ρ ι) : Asked p (step serve s e).1 (es ++ [e]) (log ++ (step serve s e).2) := by
  cases e with
  | ask client request =>
      by_cases hw : client ∈ s.waiting
      · rw [step, if_pos hw]
        exact hs.frame (.refl _) rfl _
      · have hintake : intake [(.asked client request : Log κ ρ ι α)] = [] := rfl
        rw [step, if_neg hw, Asked, intake_append, hintake, List.append_nil, List.countP_append,
          List.countP_append, List.countP_singleton, List.countP_singleton, asks, ← Nat.add_assoc]
        exact Nat.add_le_add_right hs _
  | serve i input =>
      cases hi : s.requests[i]? with
      | none =>
          simp only [step, hi]
          exact hs.frame (.refl _) rfl _
      | some m =>
          obtain ⟨hlt, hget⟩ := List.getElem?_eq_some_iff.mp hi
          have hcount : s.requests.countP (fun m => p m.2) =
              (s.requests.eraseIdx i).countP (fun m => p m.2) + if p m.2 then 1 else 0 := by
            rw [← (List.getElem_cons_eraseIdx_perm hlt).countP_eq, List.countP_cons, hget]
          have hnew (reply : Option α) :
              (intake [(.served m.1 m.2 input reply : Log κ ρ ι α)]).countP (fun m => p m.2.2) =
                if p m.2 then 1 else 0 := List.countP_singleton
          rw [Asked] at hs
          simp only [step, hi, Asked]
          rw [intake_append, List.countP_append, List.countP_append, hnew]
          omega
  | deliver i =>
      cases hi : s.replies[i]? with
      | none =>
          simp only [step, hi]
          exact hs.frame (.refl _) rfl _
      | some m =>
          simp only [step, hi]
          exact hs.frame (.refl _) rfl _
  | loseRequest i => exact hs.frame (List.eraseIdx_sublist _ i) rfl _
  | loseReply i => exact hs.frame (.refl _) rfl _

variable (serve) in
/-- **Run lemma**: the server is given nothing more often than it is asked. -/
theorem countP_intake_le (p : ρ → Bool) (server : σ) (es : List (Event κ ρ ι)) :
    (intake (run (step serve) (.init server) es).2).countP (fun m => p m.2.2) ≤
      es.countP (asks p) := by
  have hstep (s : Sys σ κ ρ α) (es : List (Event κ ρ ι)) (log : List (Log κ ρ ι α))
      (e : Event κ ρ ι) (hs : Asked p s es log) :
      Asked p (step serve s e).1 (es ++ [e]) (log ++ (step serve s e).2) := asked_step hs e
  have hinit : Asked p (.init server : Sys σ κ ρ α) ([] : List (Event κ ρ ι)) [] := Nat.le_refl 0
  exact Nat.le_of_add_right_le (run_hist_of_step hstep hinit es)

variable (serve) in
/-- What holds of every request holds of those the server is given. -/
theorem forall_intake {p : ρ → Prop} [DecidablePred p] (server : σ) {es : List (Event κ ρ ι)}
    (hes : ∀ client request, Event.ask client request ∈ es → p request) :
    ∀ m ∈ intake (run (step serve) (.init server) es).2, p m.2.2 := by
  have hcount := countP_intake_le serve (fun request => !decide (p request)) server es
  have hnone : es.countP (asks fun request => !decide (p request)) = 0 := by
    refine List.countP_eq_zero.mpr fun e he => ?_
    cases e with
    | ask client request => simpa [asks] using hes client request he
    | serve i input => simp [asks]
    | deliver i => simp [asks]
    | loseRequest i => simp [asks]
    | loseReply i => simp [asks]
  rw [hnone, Nat.le_zero, List.countP_eq_zero] at hcount
  exact fun m hm => by simpa using hcount m hm

/-! ## clients that do not feel each other -/

/-- The server keeps a machine for client `k`, which is all it needs to answer `k`: the
requests of others, if they are proper, leave it as it is. -/
structure Private (serve : σ → ι → κ → ρ → σ × Option α) (Inv : σ → Prop) (ok : κ → ρ → Prop)
    (k : κ) (view : σ → τ) (own : τ → ρ → τ × α) : Prop where
  inv : ∀ s i client r, Inv s → ok client r → Inv (serve s i client r).1
  view_self : ∀ s i r, Inv s → ok k r → view (serve s i k r).1 = (own (view s) r).1
  reply_self : ∀ s i r, Inv s → ok k r → (serve s i k r).2 = some (own (view s) r).2
  view_other : ∀ s i client r, Inv s → ok client r → client ≠ k →
    view (serve s i client r).1 = view s

/-- The machine of one client. -/
def ownStep (own : τ → ρ → τ × α) (t : τ) (r : ρ) : τ × List α := ((own t r).1, [(own t r).2])

section

variable {τ : Type} {Inv : σ → Prop} {ok : κ → ρ → Prop} {k : κ} {view : σ → τ}
  {own : τ → ρ → τ × α}

/-- The server has done for `k` what the machine of `k` does. -/
structure InStep (Inv : σ → Prop) (ok : κ → ρ → Prop) (k : κ) (view : σ → τ) (own : τ → ρ → τ × α)
    (t : τ) (s : Sys σ κ ρ α) (log : List (Log κ ρ ι α)) : Prop where
  inv : Inv s.server
  proper : ∀ m ∈ s.requests, ok m.1 m.2
  view_eq : view s.server = (run (ownStep own) t ((served k log).map Prod.fst)).1
  replies_eq : (served k log).map Prod.snd =
    (run (ownStep own) t ((served k log).map Prod.fst)).2.map some

/-- The server does nothing. -/
theorem InStep.frame {t : τ} {new : List (Log κ ρ ι α)} (h : InStep Inv ok k view own t s log)
    (hserver : s'.server = s.server) (hproper : ∀ m ∈ s'.requests, ok m.1 m.2)
    (hnew : served k new = []) : InStep Inv ok k view own t s' (log ++ new) where
  inv := hserver ▸ h.inv
  proper := hproper
  view_eq := by
    rw [served_append, hnew, List.append_nil, hserver]
    exact h.view_eq
  replies_eq := by
    rw [served_append, hnew, List.append_nil]
    exact h.replies_eq

/-- **Step lemma**: server and machine go on together. -/
theorem inStep_step (hp : Private serve Inv ok k view own) {t : τ}
    (h : InStep Inv ok k view own t s log) {e : Event κ ρ ι}
    (he : ∀ client r, e = .ask client r → ok client r) :
    InStep Inv ok k view own t (step serve s e).1 (log ++ (step serve s e).2) := by
  cases e with
  | ask client request =>
      by_cases hw : client ∈ s.waiting
      · rw [step, if_pos hw]
        exact h.frame rfl h.proper rfl
      · rw [step, if_neg hw]
        have hproper : ∀ m ∈ s.requests ++ [(client, request)], ok m.1 m.2 := by
          rw [List.forall_mem_append]
          exact ⟨h.proper, by simpa using he client request rfl⟩
        exact h.frame rfl hproper rfl
  | serve i input =>
      cases hi : s.requests[i]? with
      | none =>
          simp only [step, hi]
          exact h.frame rfl h.proper rfl
      | some m =>
          obtain ⟨client, request⟩ := m
          have hok : ok client request := h.proper _ (List.mem_of_getElem? hi)
          have hrest : ∀ m ∈ s.requests.eraseIdx i, ok m.1 m.2 := fun m hm =>
            h.proper m (List.eraseIdx_subset hm)
          simp only [step, hi]
          by_cases hk : client = k
          · subst hk
            have hone : served client [Log.served client request input
                (serve s.server input client request).2] =
                  [(request, (serve s.server input client request).2)] := by simp [served]
            refine ⟨hp.inv _ _ _ _ h.inv hok, hrest, ?_, ?_⟩
            · rw [served_append, hone, List.map_append, run_append_fst, ← h.view_eq]
              exact hp.view_self _ _ _ h.inv hok
            · rw [served_append, hone, List.map_append, List.map_append, run_append_snd,
                ← h.view_eq, h.replies_eq, List.map_append, hp.reply_self _ _ _ h.inv hok]
              rfl
          · have hnone : served k [Log.served client request input
                (serve s.server input client request).2] = [] := by simp [served, hk]
            refine ⟨hp.inv _ _ _ _ h.inv hok, hrest, ?_, ?_⟩
            · rw [served_append, hnone, List.append_nil, ← h.view_eq]
              exact hp.view_other _ _ _ _ h.inv hok hk
            · rw [served_append, hnone, List.append_nil]
              exact h.replies_eq
  | deliver i =>
      cases hi : s.replies[i]? with
      | none =>
          simp only [step, hi]
          exact h.frame rfl h.proper rfl
      | some m =>
          simp only [step, hi]
          exact h.frame rfl h.proper rfl
  | loseRequest i =>
      exact h.frame rfl (fun m hm => h.proper m (List.eraseIdx_subset hm)) rfl
  | loseReply i => exact h.frame rfl h.proper rfl

/-- **Run lemma**: a client is shown the beginning of what its own machine makes of its
requests, and has asked for at most one reply more than it has been shown. -/
theorem shown_prefix (hp : Private serve Inv ok k view own) {server : σ} (hs : Inv server)
    {es : List (Event κ ρ ι)} (hes : ∀ client r, Event.ask client r ∈ es → ok client r) :
    let log := (run (step serve) (.init server) es).2
    shown k log <+: (run (ownStep own) (view server) (asked k log)).2 ∧
      (asked k log).length ≤ (shown k log).length + 1 := by
  intro log
  subst log
  have hstep (s : Sys σ κ ρ α) (_ : List (Event κ ρ ι)) (log : List (Log κ ρ ι α))
      (e : Event κ ρ ι) (h : InStep Inv ok k view own (view server) s log)
      (he : ∀ client r, e = .ask client r → ok client r) :
      InStep Inv ok k view own (view server) (step serve s e).1 (log ++ (step serve s e).2) :=
    inStep_step hp h he
  have hinit : InStep Inv ok k view own (view server) (.init server : Sys σ κ ρ α)
      ([] : List (Log κ ρ ι α)) := ⟨hs, by simp [Sys.init], rfl, rfl⟩
  have hall : ∀ e ∈ es, ∀ client r, e = .ask client r → ok client r := by
    rintro e he client r rfl
    exact hes client r he
  have h := (run_hist hstep hinit (along_events_iff.mpr hall)).replies_eq
  obtain ⟨rs, as, hpaired⟩ := paired_run serve server es k
  have hserved := hpaired.served_eq
  have hasked := hpaired.asked_eq
  have hone := hpaired.one
  rw [hserved] at h
  constructor
  · -- the replies to what has been served, and perhaps one more
    rw [hasked, run_append_snd]
    refine List.IsPrefix.trans ?_ (List.prefix_append _ _)
    obtain ⟨front, rest, hsplit, hfront, -⟩ := List.map_eq_append_iff.mp h.symm
    have heq : front = shown k _ := List.map_injective_iff.mpr (fun _ _ => Option.some.inj) hfront
    exact ⟨rest, by rw [hsplit, heq]⟩
  · have hlen := congrArg List.length hserved
    rw [List.length_map, List.length_append, List.length_map] at hlen
    rw [hasked, List.length_append, List.length_map, hlen]
    omega

end

end RequestReply
