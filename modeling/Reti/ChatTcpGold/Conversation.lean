import Reti.ChatTcpGold.Client
import Reti.ChatTcpGold.Seniority

/-!
# Reti.ChatTcpGold.Conversation

The TCP chat from a keyboard to the screens of the others: the client that types, its child
in the server, and the clients that are in the child's copy of `clients`.

The child lives until a broadcast meets a connection that the client has closed.  Whoever
has a slot before that one still gets the line, and nobody gets another one of this writer.
-/

namespace Reti.ChatTcpGold

open CStr Transducer

/-! ## what arrives from a client -/

/-- The chunks that the child of `c` receives, each with the connections that are broken
then. -/
def arrivals (c : Nat) (es : List Event) : List (List UInt8 × List Nat) :=
  es.filterMap fun
    | .recv c' chunk broken => if c' = c then some (chunk, broken) else none
    | _ => none

/-- Nobody but `c` says anything. -/
def Event.Of (c : Nat) : Event → Prop
  | .recv c' _ _ => c' = c
  | _ => True

instance (c : Nat) : (e : Event) → Decidable (e.Of c)
  | .recv c' _ _ => inferInstanceAs (Decidable (c' = c))
  | .accept _ _ _ => inferInstanceAs (Decidable True)
  | .acceptFailed => inferInstanceAs (Decidable True)
  | .hangup _ => inferInstanceAs (Decidable True)
  | .eof _ => inferInstanceAs (Decidable True)

/-- A broadcast of `c` comes to `d` before it meets a broken connection. -/
def State.reaches (s : State) (c d : Nat) (broken : List Nat) : Bool :=
  d ∈ (s.hearers c).takeWhile (· ∉ broken)

/-- The number of lines of `c` that come to `d`. -/
def State.reached (s : State) (c d : Nat) (es : List Event) : Nat :=
  (((arrivals c es).map Prod.snd).takeWhile (s.reaches c d)).length

/-! ## the end of a child -/

/-- The process is running after the loop exactly if no connection is broken. -/
theorem broadcastLoop_snd (msg : Message) (broken fds : List Nat) :
    (broadcastLoop msg broken fds).2 = true ↔ ∀ fd ∈ fds.filter (· ≠ 0), fd ∉ broken := by
  induction fds with
  | nil => simp [broadcastLoop]
  | cons fd fds ih =>
      by_cases h0 : fd = 0
      · rw [broadcastLoop, if_neg (by simpa using h0), ih,
          List.filter_cons_of_neg (by simpa using h0)]
      · rw [List.filter_cons_of_pos (by simpa using h0), List.forall_mem_cons, ← ih]
        by_cases hb : fd ∈ broken <;> simp [broadcastLoop, h0, hb]

/-- **Step lemma**: a client without a child does not get one. -/
theorem not_serves_step {s : State} {c : Nat} (hc : c ∈ s.accepted) (hdead : ¬s.Serves c)
    {e : Event} (he : e.Possible s) : ¬(step s e).1.Serves c := by
  have hother : ∀ {c' : Nat} (child : Option Child), c ≠ c' →
      ¬∃ d, Function.update s.children c' child c = some d ∧ d.running := by
    intro c' child hne
    rw [Function.update_of_ne hne]
    exact hdead
  cases e with
  | accept fd forkOk stack =>
      have hne : c ≠ fd := fun h => he.2 (h ▸ hc)
      cases forkOk with
      | false => exact hdead
      | true => exact hother _ hne
  | acceptFailed => exact hdead
  | recv c' chunk broken =>
      have hne : c ≠ c' := fun h => hdead (h ▸ he.1)
      obtain ⟨child, hchild, -⟩ := he.1
      simp only [step, hchild]
      exact hother _ hne
  | hangup c' => exact hdead
  | eof c' =>
      have hne : c ≠ c' := fun h => hdead (h ▸ he)
      obtain ⟨child, hchild, -⟩ := he
      simp only [step, hchild]
      exact hother _ hne

/-- **Run lemma**: nothing arrives any more. -/
theorem arrivals_of_not_serves {s : State} {c : Nat} (hc : c ∈ s.accepted) (hdead : ¬s.Serves c)
    {fs : List Event} (hfs : Along step (fun s e => e.Possible s) s fs) : arrivals c fs = [] := by
  induction fs generalizing s with
  | nil => rfl
  | cons e fs ih =>
      have hrest := ih ((accepted_step s e).subset hc) (not_serves_step hc hdead hfs.1) hfs.2
      cases e with
      | recv c' chunk broken =>
          have hne : c' ≠ c := fun h => hdead (h ▸ hfs.1.1)
          simpa [arrivals, hne] using hrest
      | accept fd forkOk stack => exact hrest
      | acceptFailed => exact hrest
      | hangup c' => exact hrest
      | eof c' => exact hrest

/-! ## what one client is sent -/

section

variable {s : State} {c : Nat} {m : Message} {broken : List Nat}

/-- What the child of `c` sends for a whole struct. -/
theorem filter_step_recv (hs : Inv s) (hc : s.Serves c) (m : Message) (broken : List Nat)
    (d : Nat) : ((step s (.recv c m.mem.bytes broken)).2.filter fun p => p.fd = d) =
      if s.reaches c d broken then [⟨d, m⟩] else [] := by
  obtain ⟨child, hchild, hrun⟩ := hc
  have hnodup : ((s.hearers c).takeWhile (· ∉ broken)).Nodup :=
    hs.accepted_nodup.sublist ((List.takeWhile_sublist _).trans
      ((List.take_sublist _ _).trans (List.take_sublist _ _)))
  simp only [step, hchild, handleChunk, Message.fill_whole, broadcastMessage]
  rw [broadcastLoop_fst, fds_of_serves hs hchild hrun, filter_sent hnodup]
  simp only [State.reaches, decide_eq_true_eq]

/-- A broadcast that has not come to one of its hearers has been broken off. -/
theorem not_serves_of_not_reaches (hs : Inv s) (hc : s.Serves c) {d : Nat}
    (hd : d ∈ s.hearers c) (hnot : ¬s.reaches c d broken = true) :
    ¬(step s (.recv c m.mem.bytes broken)).1.Serves c := by
  obtain ⟨child, hchild, hrun⟩ := hc
  rintro ⟨child', hchild', hrun'⟩
  simp only [step, hchild, handleChunk, Function.update_self, Option.some.injEq] at hchild'
  rw [← hchild'] at hrun'
  have hfree : ∀ fd ∈ s.hearers c, fd ∉ broken := by
    rw [← fds_of_serves hs hchild hrun]
    exact (broadcastLoop_snd _ _ _).mp hrun'
  refine hnot (decide_eq_true ?_)
  rwa [List.takeWhile_eq_self_iff.mpr (by simpa using hfree)]

/-- **Run lemma**: of the structs of `c` that arrive whole, `d` is sent the first ones, up to
the one at which the child meets a broken connection in front of `d`. -/
theorem heard_of_arrivals (hs : Inv s) (hc : c ∈ s.accepted) {fs : List Event}
    (hfs : Along step (fun s e => e.Possible s) s fs) (honly : ∀ e ∈ fs, e.Of c)
    {ms : List Message} (hms : (arrivals c fs).map Prod.fst <+: ms.map fun m => m.mem.bytes)
    (d : Nat) :
    ((run step s fs).2.filter fun p => p.fd = d) =
      (ms.take (s.reached c d fs)).map fun m => ⟨d, m⟩ := by
  induction fs generalizing s ms with
  | nil => rfl
  | cons e fs ih =>
      have hgrows := accepted_step s e
      have hhearers : (step s e).1.hearers c = s.hearers c := hearers_of_grown hgrows hc
      have hreaches : (step s e).1.reaches c d = s.reaches c d := by
        funext broken
        rw [State.reaches, State.reaches, hhearers]
      have hrest {ms : List Message} :=
        @ih (step s e).1 (inv_step hs hfs.1) (hgrows.subset hc) hfs.2
          (fun e' he' => honly e' (List.mem_cons_of_mem e he')) ms
      -- the other events send nothing, and nothing arrives with them
      have hquiet (hsent : (step s e).2 = []) (harrivals : arrivals c (e :: fs) = arrivals c fs)
          (hms : (arrivals c fs).map Prod.fst <+: ms.map fun m => m.mem.bytes) :
          ((run step s (e :: fs)).2.filter fun p => p.fd = d) =
            (ms.take (s.reached c d (e :: fs))).map fun m => ⟨d, m⟩ := by
        rw [run_cons_snd, hsent, List.nil_append, hrest hms, State.reached, State.reached,
          harrivals, hreaches]
      cases e with
      | recv c' chunk broken =>
          obtain rfl : c' = c := honly _ List.mem_cons_self
          have harrivals : arrivals c' (.recv c' chunk broken :: fs) =
              (chunk, broken) :: arrivals c' fs := by simp [arrivals]
          rw [harrivals, List.map_cons] at hms
          cases ms with
          | nil => simp at hms
          | cons m ms =>
              rw [List.map_cons, List.cons_prefix_cons] at hms
              obtain ⟨rfl, hms⟩ := hms
              rw [run_cons_snd, List.filter_append, filter_step_recv hs hfs.1.1, hrest hms,
                State.reached, State.reached, harrivals, hreaches, List.map_cons]
              by_cases hd : s.reaches c' d broken = true
              · rw [if_pos hd, List.takeWhile_cons_of_pos hd, List.length_cons, List.take_succ_cons,
                  List.map_cons, List.singleton_append]
              · rw [if_neg hd, List.takeWhile_cons_of_neg hd, List.nil_append, List.length_nil,
                  List.take_zero]
                -- nothing comes to `d` later either
                by_cases hmem : d ∈ s.hearers c'
                · have hdead := not_serves_of_not_reaches (m := m) hs hfs.1.1 hmem hd
                  rw [arrivals_of_not_serves (hgrows.subset hc) hdead hfs.2]
                  rfl
                · have hnever : s.reaches c' d = fun _ => false := by
                    funext broken
                    rw [State.reaches, decide_eq_false_iff_not]
                    exact fun h => hmem ((List.takeWhile_sublist _).subset h)
                  rw [hnever]
                  simp
      | accept fd forkOk stack => exact hquiet rfl rfl hms
      | acceptFailed => exact hquiet rfl rfl hms
      | hangup c' => exact hquiet rfl rfl hms
      | eof c' =>
          obtain ⟨child, hchild, -⟩ := hfs.1
          exact hquiet (by simp only [step, hchild]) rfl hms

end

/-! ## from the keyboard to the screen -/

/-- **Conversation**: from any state the server can reach, while nobody else says anything,
what somebody types at a client whose structs arrive whole appears on the screen of every
hearer that goes on reading, line by line with its time and the username, up to `exit`; at the
end of the input the last line appears again at each turn.  A hearer is sent as many of these
lines as have arrived before a broadcast was broken off in front of it, and nobody else is sent
any of them. -/
theorem conversation_heard {es fs : List Event} (hrun : Run (es ++ fs)) {c : Nat}
    (hc : c ∈ (after es).accepted) (honly : ∀ e ∈ fs, e.Of c) (stack : Message)
    {username : List UInt8} (hline : FgetsItem 32 username) (h0 : 0 ∉ username) {ts : List Turn}
    (hts : ∀ t ∈ ts, t.Proper) (hfirst : ∀ t ∈ ts.head?, t.line.isSome)
    (harrives : (arrivals c fs).map Prod.fst <+:
      (run Client.turn (.start stack username) ts).2.map fun m => m.mem.bytes)
    (d : Nat) (reader : Message) :
    let heard := (run step (after es) fs).2.filter fun p => p.fd = d
    receiveMessages reader (heard.map fun p => .data p.msg.mem.bytes) =
      ((conversation [] ts).take ((after es).reached c d fs)).map
        fun p => screen (chomp username) p.1 p.2 := by
  intro heard
  obtain ⟨hes, hfs⟩ := along_append.mp hrun
  have hheard : heard = _ := heard_of_arrivals (inv_after hes) hc hfs honly harrives d
  have huser := terminated_chompBuf stack.username hline (by decide) h0
  have hlast : ∀ t ∈ ts.head?, t.line = none →
      Terminated (Client.start stack username).msg.message [] ∧ newline ∉ ([] : List UInt8) := by
    intro t ht hnone
    have hsome := hfirst t ht
    rw [hnone] at hsome
    cases hsome
  have hprinted := printed_run (c := .start stack username) rfl huser hts hlast
  generalize (run Client.turn (.start stack username) ts).2 = sent at hheard hprinted
  have hchunks : heard.map (fun p => RecvRet.data p.msg.mem.bytes) =
      ((sent.take ((after es).reached c d fs)).map fun m => m.mem.bytes).map .data := by
    rw [hheard, List.map_map, List.map_map]
    rfl
  have hshown : receiveMessages reader (heard.map fun p => .data p.msg.mem.bytes) =
      (handleClient reader ((sent.take ((after es).reached c d fs)).map
        fun m => .data m.mem.bytes)).map Message.printed := by
    rw [hchunks, receiveMessages_eq, List.map_map]
    rfl
  rw [hshown, handleClient_whole, List.map_take, hprinted, List.map_take]

/-- The first client leaves between two lines of the second one, which is shown the first
line and not the other. -/
theorem conversation_heard_broken :
    let es : List Event := [.accept 4 true blank, .accept 5 true blank]
    let ts : List Turn :=
      [⟨some (ascii "ciao\n"), ascii "12:00", true⟩, ⟨none, ascii "12:01", true⟩]
    let bytes := (run Client.turn (.start blank (ascii "anna\n")) ts).2.map fun m => m.mem.bytes
    let fs : List Event :=
      [.recv 5 (bytes.headD []) [], .hangup 4, .recv 5 (bytes.tail.headD []) [4]]
    let heard := (run step (after es) fs).2.filter fun p => p.fd = 5
    receiveMessages blank (heard.map fun p => .data p.msg.mem.bytes) =
      [screen (ascii "anna") (ascii "12:00") (ascii "ciao")] := by
  intro es ts bytes fs heard
  have h := @conversation_heard es fs (by decide +kernel) 5 (by decide) (by decide) blank
    (ascii "anna\n") (by decide) (by decide) ts (by decide) (by decide) (by decide +kernel) 5 blank
  rw [show receiveMessages blank _ = _ from h]
  decide +kernel

end Reti.ChatTcpGold
