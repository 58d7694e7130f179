import Reti.ForkServer.Clients

/-!
# Reti.ForkServer.Tables

How many clients a forking server takes in.  That is decided by the descriptors of the
parent, which some of the servers leave as they found them and others fill up, while one
closes the listening socket.
-/

namespace Reti.ForkServer

open Descriptors Transducer

/-! ## the parent at `accept` -/

section

variable {p : Program} {limit listenFd : Nat}

variable (p limit listenFd) in
/-- The parent exits, calls `accept` again as it is, or comes to the end of the body. -/
theorem acceptBody_cases (s : Process) (arrives forkOk : Bool) :
    (acceptCall limit listenFd s.table arrives = none ∧
        ((acceptBody p limit listenFd s arrives forkOk).1 = ⟨.exited, s.table, s.clients⟩ ∨
          (acceptBody p limit listenFd s arrives forkOk).1 = s ∨
          (acceptBody p limit listenFd s arrives forkOk).1 =
            parentNext p listenFd s.table none (s.clients + 1))) ∨
      ∃ fd t, acceptCall limit listenFd s.table arrives = some (fd, t) ∧
        ((forkOk = false ∧ p.forkExits = true ∧
            (acceptBody p limit listenFd s arrives forkOk).1 = ⟨.exited, t, s.clients⟩) ∨
          (acceptBody p limit listenFd s arrives forkOk).1 =
            parentNext p listenFd t (some fd) (s.clients + 1)) := by
  have hfork (t : Table) (conn : Option Nat) :
      (forkOk = false ∧ p.forkExits = true ∧
          (forkCall p listenFd s t conn forkOk).1 = ⟨.exited, t, s.clients⟩) ∨
        (forkCall p listenFd s t conn forkOk).1 =
          parentNext p listenFd t conn (s.clients + 1) := by
    unfold forkCall
    cases forkOk with
    | true => exact .inr rfl
    | false =>
        cases hexits : p.forkExits with
        | true => exact .inl ⟨rfl, rfl, rfl⟩
        | false => exact .inr rfl
  cases hcall : acceptCall limit listenFd s.table arrives with
  | some c =>
      refine .inr ⟨c.1, c.2, rfl, ?_⟩
      rw [acceptBody, hcall]
      exact hfork c.2 (some c.1)
  | none =>
      refine .inl ⟨rfl, ?_⟩
      rw [acceptBody, hcall]
      cases p.acceptFails with
      | exits => exact .inl rfl
      | retries => exact .inr (.inl rfl)
      | goesOn => exact (hfork s.table none).imp (fun h => h.2.2) .inr

@[simp] theorem parentNext_table (t : Table) (conn : Option Nat) (clients : Nat) :
    (parentNext p listenFd t conn clients).table = closeAll p listenFd t conn := rfl

/-! ## servers that close nothing -/

theorem closeAll_of_leaking (hconn : p.closesConn = false) (hlisten : p.closesListen = false)
    (t : Table) (conn : Option Nat) : closeAll p listenFd t conn = t := by
  cases conn <;> simp [closeAll, hconn, hlisten]

/-- What the parent knows: its table has grown by the clients. -/
structure Grown (limit : Nat) (table : Table) (s : Process) (out : List Accepted) : Prop where
  table_eq : s.table = (out.map Accepted.fd).toFinset ∪ table
  nodup : (out.map Accepted.fd).Nodup
  fresh : ∀ a ∈ out, a.fd ∉ table ∧ a.fd < limit

theorem Grown.of_table {table : Table} {s s' : Process} {out : List Accepted}
    (h : Grown limit table s out) (hs : s'.table = s.table) : Grown limit table s' out :=
  ⟨hs.trans h.table_eq, h.nodup, h.fresh⟩

/-- **Step lemma**: a client takes a number that is not in the table. -/
theorem grown_step (hconn : p.closesConn = false) (hlisten : p.closesListen = false) {table : Table}
    {s : Process} {out : List Accepted} (h : Grown limit table s out) (e : Event) :
    Grown limit table (alone p limit listenFd s e).1 (out ++ (alone p limit listenFd s e).2) := by
  obtain hstuck | ⟨pid, arrives, forkOk, -, -, hstep⟩ := alone_cases p limit listenFd s e
  · rwa [hstuck, List.append_nil]
  rw [hstep]
  obtain ⟨hcall, hnext⟩ | ⟨fd, t, hcall, hnext⟩ :=
    acceptBody_cases p limit listenFd s arrives forkOk
  · rw [hcall, Option.toList_none, List.map_nil, List.append_nil]
    refine h.of_table ?_
    obtain hnext | hnext | hnext := hnext
    · rw [hnext]
    · rw [hnext]
    · rw [hnext, parentNext_table, closeAll_of_leaking hconn hlisten]
  · obtain ⟨-, -, hlt, hfd, rfl⟩ := acceptCall_eq_some hcall
    have htable : (acceptBody p limit listenFd s arrives forkOk).1.table = insert fd s.table := by
      obtain ⟨-, -, hnext⟩ | hnext := hnext
      · rw [hnext]
      · rw [hnext, parentNext_table, closeAll_of_leaking hconn hlisten]
    rw [hcall, Option.toList_some, List.map_singleton]
    rw [h.table_eq, Finset.mem_union, List.mem_toFinset, not_or] at hfd
    refine ⟨?_, ?_, ?_⟩
    · rw [htable, h.table_eq]
      ext n
      simp only [Finset.mem_insert, Finset.mem_union, List.mem_toFinset, List.map_append,
        List.mem_append, List.map_singleton, List.mem_singleton]
      tauto
    · rw [List.map_append, List.map_singleton, List.nodup_append_comm]
      exact List.nodup_cons.mpr ⟨hfd.1, h.nodup⟩
    · rw [List.forall_mem_append]
      exact ⟨h.fresh, by simpa using ⟨hfd.2, hlt⟩⟩

end

/-- The servers that close no connection. -/
def leaking : List Program := [chatTcpGold, chatServerTcp, multiClient]

/-- **Run lemma**: so does every client of a run, whatever the children do. -/
theorem grown_run {p : Program} (hp : p ∈ leaking) (limit listenFd : Nat) (table : Table)
    (es : List Event) :
    ∃ s, Grown limit table s (run (step p limit listenFd) (.init table) es).2 := by
  have hopen : ∀ p ∈ leaking, p ∈ servers ∧ p.closesConn = false ∧ p.closesListen = false := by
    decide
  obtain ⟨hserver, hconn, hlisten⟩ := hopen p hp
  rw [(run_alone limit listenFd (confined_of_mem hserver) table es).1]
  have hstart : Grown limit table (.start table) [] := ⟨by simp [Process.start], by simp, by simp⟩
  have hstep (s : Process) (_ : List Event) (out : List Accepted) (e : Event)
      (h : Grown limit table s out) : Grown limit table
        (alone p limit listenFd s e).1 (out ++ (alone p limit listenFd s e).2) :=
    grown_step hconn hlisten h e
  exact ⟨_, run_hist_of_step hstep hstart (es.filter fun e => e.pid == 0)⟩

/-- A server that closes no connection gives no number twice, however many of its clients
have left: it takes in no more clients than the table of the parent has room for. -/
theorem accepted_of_leaking (p : Program) (hp : p ∈ leaking) (limit listenFd : Nat) (table : Table)
    (htable : table ⊆ Finset.range limit) (es : List Event) :
    ((run (step p limit listenFd) (.init table) es).2.map Accepted.fd).Nodup ∧
      (∀ a ∈ (run (step p limit listenFd) (.init table) es).2, a.fd ∉ table) ∧
      (run (step p limit listenFd) (.init table) es).2.length + table.card ≤ limit := by
  obtain ⟨_, -, hnodup, hfresh⟩ := grown_run hp limit listenFd table es
  generalize (run (step p limit listenFd) _ _).2 = out at hnodup hfresh ⊢
  refine ⟨hnodup, fun a ha => (hfresh a ha).1, ?_⟩
  have hdisjoint : Disjoint (out.map Accepted.fd).toFinset table := by
    rw [Finset.disjoint_left]
    intro n hn
    obtain ⟨a, ha, rfl⟩ := List.mem_map.mp (List.mem_toFinset.mp hn)
    exact (hfresh a ha).1
  have hsub : (out.map Accepted.fd).toFinset ∪ table ⊆ Finset.range limit := by
    refine Finset.union_subset (fun n hn => ?_) htable
    obtain ⟨a, ha, rfl⟩ := List.mem_map.mp (List.mem_toFinset.mp hn)
    exact Finset.mem_range.mpr (hfresh a ha).2
  calc out.length + table.card
      = ((out.map Accepted.fd).toFinset ∪ table).card := by
        rw [Finset.card_union_of_disjoint hdisjoint, List.toFinset_card_of_nodup hnodup,
          List.length_map]
    _ ≤ (Finset.range limit).card := Finset.card_le_card hsub
    _ = limit := Finset.card_range limit

theorem accepted_of_leaking_full :
    chatTcpGold ∈ leaking ∧ ({0, 1, 2, 3} : Table) ⊆ Finset.range 5 ∧
      (run (step chatTcpGold 5 3) (.init {0, 1, 2, 3})
        [.accept 0 true true, .served 1 true, .accept 0 true true]).2.length +
          ({0, 1, 2, 3} : Table).card ≤ 5 := by
  have hp : chatTcpGold ∈ leaking := by decide
  have htable : ({0, 1, 2, 3} : Table) ⊆ Finset.range 5 := by decide
  exact ⟨hp, htable, (accepted_of_leaking chatTcpGold hp 5 3 {0, 1, 2, 3} htable _).2.2⟩

/-! ## a server that closes the listening socket -/

section

variable {p : Program} {limit listenFd : Nat}

/-- A parent that takes in nobody any more. -/
def Done (listenFd : Nat) (s : Process) : Prop := s.pc = .exited ∨ listenFd ∉ s.table

theorem Done.of_table {s s' : Process} (h : Done listenFd s) (hpc : s.pc = .accepting)
    (hs : s'.table ⊆ s.table) : Done listenFd s' :=
  have hfd : listenFd ∉ s.table := h.resolve_left fun hexited => by simp [hpc] at hexited
  .inr fun hmem => hfd (hs hmem)

variable (p limit) in
theorem done_step {s : Process} (h : Done listenFd s) (e : Event) :
    Done listenFd (alone p limit listenFd s e).1 ∧ (alone p limit listenFd s e).2 = [] := by
  obtain hstuck | ⟨_, arrives, forkOk, -, hpc, hstep⟩ := alone_cases p limit listenFd s e
  · exact hstuck ▸ ⟨h, rfl⟩
  have hfd : listenFd ∉ s.table := h.resolve_left fun hexited => by simp [hpc] at hexited
  rw [hstep, acceptCall_of_closed hfd]
  refine ⟨?_, rfl⟩
  obtain ⟨-, hnext⟩ | ⟨fd, t, hcall, -⟩ :=
    acceptBody_cases p limit listenFd s arrives forkOk
  · obtain hnext | hnext | hnext := hnext
    · exact hnext ▸ .inl rfl
    · rwa [hnext]
    · exact hnext ▸ h.of_table hpc (closeAll_subset s.table none)
  · rw [acceptCall_of_closed hfd] at hcall
    cases hcall

theorem done_run {s : Process} (h : Done listenFd s) (es : List Event) :
    (run (alone p limit listenFd) s es).2 = [] := by
  induction es generalizing s with
  | nil => rfl
  | cons e es ih =>
      obtain ⟨hnext, hout⟩ := done_step p limit h e
      rw [run_cons_snd, hout, ih hnext, List.append_nil]

variable (limit listenFd) in
/-- **Step lemma**: the first client is the last. -/
theorem done_of_accepted (hlisten : p.closesListen = true) (s : Process) (e : Event) :
    (alone p limit listenFd s e).2 = [] ∨
      (alone p limit listenFd s e).2.length = 1 ∧ Done listenFd (alone p limit listenFd s e).1 := by
  obtain hstuck | ⟨_, arrives, forkOk, -, -, hstep⟩ := alone_cases p limit listenFd s e
  · exact .inl (by rw [hstuck])
  obtain ⟨hcall, -⟩ | ⟨fd, t, hcall, hnext⟩ :=
    acceptBody_cases p limit listenFd s arrives forkOk
  · exact .inl (by rw [hstep, hcall]; rfl)
  · refine .inr ⟨by rw [hstep, hcall]; rfl, ?_⟩
    rw [hstep]
    obtain ⟨-, -, hnext⟩ | hnext := hnext
    · exact hnext ▸ .inl rfl
    · exact hnext ▸ .inr (not_mem_closeAll hlisten t (some fd))

theorem run_length_of_closesListen (hlisten : p.closesListen = true) (s : Process)
    (es : List Event) : (run (alone p limit listenFd) s es).2.length ≤ 1 := by
  induction es generalizing s with
  | nil => simp
  | cons e es ih =>
      rw [run_cons_snd]
      obtain hnone | ⟨hone, hdone⟩ := done_of_accepted limit listenFd hlisten s e
      · rw [hnone, List.nil_append]
        exact ih _
      · rw [done_run hdone, List.append_nil]
        exact hone.le

end

/-- The dice server never has a second player: the parent, like the child that comes back
to `accept`, has closed the listening socket. -/
theorem one_player (limit listenFd : Nat) (table : Table) (es : List Event) :
    (run (step mpDice limit listenFd) (.init table) es).2.length ≤ 1 := by
  rw [(run_alone limit listenFd (confined_of_mem (p := mpDice) (by decide)) table es).1]
  exact run_length_of_closesListen rfl _ _

/-! ## servers that close every connection -/

section

variable {p : Program} {limit listenFd : Nat}

theorem closeAll_of_steady (hconn : p.closesConn = true) (hlisten : p.closesListen = false)
    (t : Table) (fd : Nat) : closeAll p listenFd t (some fd) = close t fd := by
  simp [closeAll, hconn, hlisten]

/-- **Step lemma**: the parent at `accept` serves a client, and is back as it was. -/
theorem alone_steady (hconn : p.closesConn = true) (hlisten : p.closesListen = false)
    (hmost : p.most = none) {table : Table} (hfd : listenFd ∈ table) (hfree : lowest table < limit)
    {s : Process} (hs : s.pc = .accepting ∧ s.table = table) :
    ((alone p limit listenFd s (.accept 0 true true)).1.pc = .accepting ∧
        (alone p limit listenFd s (.accept 0 true true)).1.table = table) ∧
      (alone p limit listenFd s (.accept 0 true true)).2 = [⟨0, lowest table⟩] := by
  obtain ⟨hpc, htable⟩ := hs
  have hcall : acceptCall limit listenFd s.table true =
      some (lowest table, insert (lowest table) table) := by
    rw [acceptCall, if_pos ⟨htable ▸ hfd, rfl⟩, allocate, htable, if_pos hfree]
  have hbody : (acceptBody p limit listenFd s true true).1 =
      parentNext p listenFd (insert (lowest table) table) (some (lowest table))
        (s.clients + 1) := by
    rw [acceptBody, hcall]
    rfl
  simp only [alone, hpc, hbody, hcall, parentNext, hmost, closeAll_of_steady hconn hlisten,
    close_insert (lowest_not_mem table)]
  simp

/-- **Run lemma**: one client after the other. -/
theorem run_steady (hconn : p.closesConn = true) (hlisten : p.closesListen = false)
    (hmost : p.most = none) {table : Table} (hfd : listenFd ∈ table) (hfree : lowest table < limit)
    (n : Nat) {s : Process} (hs : s.pc = .accepting ∧ s.table = table) :
    ((run (alone p limit listenFd) s (List.replicate n (.accept 0 true true))).1.pc = .accepting ∧
        (run (alone p limit listenFd) s (List.replicate n (.accept 0 true true))).1.table =
          table) ∧
      (run (alone p limit listenFd) s (List.replicate n (.accept 0 true true))).2 =
        List.replicate n ⟨0, lowest table⟩ := by
  induction n generalizing s with
  | zero => exact ⟨hs, rfl⟩
  | succ n ih =>
      obtain ⟨hnext, hout⟩ := alone_steady hconn hlisten hmost hfd hfree hs
      obtain ⟨hlast, hrest⟩ := ih hnext
      rw [List.replicate_succ, run_cons_fst, run_cons_snd, hout, hrest]
      exact ⟨hlast, rfl⟩

end

/-- The servers that close the connection and go on. -/
def steady : List Program := [serverclientChat, tcpState, smallCapper, modular, timeCount]

/-- A server that closes the connection in the parent takes in every client that comes, all
with one and the same number, whatever its children do meanwhile. -/
theorem accepted_of_steady (p : Program) (hp : p ∈ steady) (limit listenFd : Nat) (table : Table)
    (hfd : listenFd ∈ table) (hfree : lowest table < limit) (es : List Event)
    (hes : ∀ e ∈ es, e.pid = 0 → e = .accept 0 true true) :
    (run (step p limit listenFd) (.init table) es).2 =
        List.replicate (es.countP fun e => e.pid == 0) ⟨0, lowest table⟩ ∧
      (parent (run (step p limit listenFd) (.init table) es).1).table = table := by
  have hcloses : ∀ p ∈ steady, p ∈ servers ∧ p.closesConn = true ∧ p.closesListen = false ∧
      p.most = none := by decide
  obtain ⟨hserver, hconn, hlisten, hmost⟩ := hcloses p hp
  obtain ⟨hout, hparent⟩ := run_alone limit listenFd (confined_of_mem hserver) table es
  have hown : es.filter (fun e => e.pid == 0) =
      List.replicate (es.countP fun e => e.pid == 0) (.accept 0 true true) := by
    rw [List.countP_eq_length_filter]
    refine List.eq_replicate_of_mem fun e he => ?_
    exact hes e (List.mem_filter.mp he).1 (by simpa using (List.mem_filter.mp he).2)
  rw [hout, hparent, hown]
  generalize es.countP _ = n
  obtain ⟨hpc, hrun⟩ := run_steady hconn hlisten hmost hfd hfree n
    (s := .start table) ⟨rfl, rfl⟩
  exact ⟨hrun, hpc.2⟩

theorem accepted_of_steady_twice :
    smallCapper ∈ steady ∧ 3 ∈ ({0, 1, 2, 3} : Table) ∧ lowest {0, 1, 2, 3} < 8 ∧
      (∀ e ∈ [Event.accept 0 true true, .served 1 true, .accept 0 true true], e.pid = 0 →
        e = .accept 0 true true) ∧
      (run (step smallCapper 8 3) (.init {0, 1, 2, 3})
        [.accept 0 true true, .served 1 true, .accept 0 true true]).2 = [⟨0, 4⟩, ⟨0, 4⟩] := by
  have hp : smallCapper ∈ steady := by decide
  have hfd : 3 ∈ ({0, 1, 2, 3} : Table) := by decide
  have hfree : lowest {0, 1, 2, 3} < 8 := by decide
  have hes : ∀ e ∈ [Event.accept 0 true true, .served 1 true, .accept 0 true true], e.pid = 0 →
      e = .accept 0 true true := by decide
  have hrun := (accepted_of_steady smallCapper hp 8 3 {0, 1, 2, 3} hfd hfree _ hes).1
  exact ⟨hp, hfd, hfree, hes, hrun.trans (by decide)⟩

end Reti.ForkServer
