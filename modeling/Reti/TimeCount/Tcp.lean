import Reti.Net
import Reti.Lib.Decimal
import Reti.Lib.Transducer

/-!
# Reti.TimeCount.Tcp

The TCP server for the time and the number of times it was asked for
(`Client-Server-TCP/server_tcp_simple.c`).  Every connection is answered by a child
process, which counts in its own copy of `counter`.
-/

namespace Reti.TimeCount.Tcp

open CStr Transducer

def timeCmd : List UInt8 := ascii "T\n"

def countCmd : List UInt8 := ascii "N\n"

/-! ## processes -/

/-- A child: its copy of `counter`, and whether it has not exited yet. -/
structure Child where
  counter : Int
  running : Bool
  deriving DecidableEq, Repr

/-- The parent's `counter`, and the children in the order of their connections.  A
connection for which `fork` failed has a child that never runs. -/
structure Server where
  counter : Int
  children : List Child
  deriving DecidableEq, Repr

def Server.init : Server := ⟨0, []⟩

/-- What can happen next: `accept` and `fork` return in the parent; `read` returns in
a child, which answers with what `ctime` gives it, if `write` succeeds, and exits. -/
inductive Event where
  | accept (forked : Bool)
  | read (conn : Nat) (ret : RecvRet) (timestr : List UInt8) (writeOk : Bool)
  deriving DecidableEq, Repr

/-- What is written to a connection, with the request it answers. -/
structure Answer where
  conn : Nat
  request : List UInt8
  text : List UInt8
  deriving DecidableEq, Repr

def Enabled (s : Server) : Event → Prop
  | .accept _ => True
  | .read i ret _ _ => s.children[i]?.any Child.running = true ∧ ret.Fits 255

instance (s : Server) : (e : Event) → Decidable (Enabled s e)
  | .accept _ => inferInstanceAs (Decidable True)
  | .read _ _ _ _ => inferInstanceAs (Decidable (_ ∧ _))

/-- The string in `buffer` after `bzero` and `read`, unless that fails. -/
def request : RecvRet → Option (List UInt8)
  | .error => none
  | .closed => some []
  | .data chunk => some ((Buf.zero 256).fill chunk).text

/-- The three branches: `counter` and what is written.  The last one writes 20 bytes
of a literal that has 17; `rodata` is what follows it. -/
def answer (rodata : List UInt8) (counter : Int) (request timestr : List UInt8) :
    Int × List UInt8 :=
  if request = timeCmd then (counter + 1, timestr ++ [0])
  else if request = countCmd then (counter, printInt counter)
  else (counter, (ascii "Message received" ++ 0 :: rodata).take 20)

variable (rodata : List UInt8)

/-- What the child of connection `i` does from `read` to its exit. -/
def handle (i : Nat) (child : Child) (ret : RecvRet) (timestr : List UInt8) (writeOk : Bool) :
    Child × List Answer :=
  match request ret with
  | none => (⟨child.counter, false⟩, [])
  | some req =>
    let (counter, text) := answer rodata child.counter req timestr
    (⟨counter, false⟩, if writeOk then [⟨i, req, text⟩] else [])

def step (s : Server) : Event → Server × List Answer
  | .accept forked => ({ s with children := s.children ++ [⟨s.counter, forked⟩] }, [])
  | .read i ret timestr writeOk =>
    match s.children[i]? with
    | none => (s, [])
    | some child =>
      let (child, answers) := handle rodata i child ret timestr writeOk
      ({ s with children := s.children.set i child }, answers)

/-! ## the copies of the counter -/

/-- Nobody has counted but a child that has exited. -/
structure Inv (s : Server) : Prop where
  parent : s.counter = 0
  running : ∀ c ∈ s.children, c.running = true → c.counter = 0

theorem inv_init : Inv Server.init where
  parent := rfl
  running := by simp [Server.init]

/-- A child exits when it has answered. -/
theorem running_handle (i : Nat) (child : Child) (ret : RecvRet) (timestr : List UInt8)
    (writeOk : Bool) : (handle rodata i child ret timestr writeOk).1.running = false := by
  unfold handle
  cases request ret <;> rfl

/-- **Step lemma**: what a child counts is lost with it. -/
theorem inv_step {s : Server} (hs : Inv s) (e : Event) : Inv (step rodata s e).1 := by
  cases e with
  | accept forked =>
      constructor
      · exact hs.parent
      · intro c hc hrun
        cases List.mem_append.mp hc with
        | inl h => exact hs.running c h hrun
        | inr h =>
            rw [List.mem_singleton.mp h]
            exact hs.parent
  | read i ret timestr writeOk =>
      simp only [step]
      cases s.children[i]? with
      | none => exact hs
      | some child =>
          constructor
          · exact hs.parent
          · intro c hc hrun
            cases List.mem_or_eq_of_mem_set hc with
            | inl h => exact hs.running c h hrun
            | inr h =>
                rw [h, running_handle] at hrun
                cases hrun

/-- **Run lemma**. -/
theorem inv_run (es : List Event) : Inv (run (step rodata) Server.init es).1 := by
  have hstep : ∀ s e, Inv s → Inv (step rodata s e).1 := fun _ e hs => inv_step rodata hs e
  exact run_inv_of_step hstep inv_init es

/-! ## the answer to `N` -/

/-- How often the time was given to connections before connection `i`. -/
def earlierTimes (i : Nat) (out : List Answer) : Nat :=
  out.countP fun a => a.request = timeCmd ∧ a.conn < i

/-- In every run the number is 0. -/
theorem answer_count {es : List Event} {i : Nat} {chunk timestr : List UInt8}
    (he : Enabled (run (step rodata) Server.init es).1 (.read i (.data chunk) timestr true))
    (hreq : request (.data chunk) = some countCmd) :
    (step rodata (run (step rodata) Server.init es).1 (.read i (.data chunk) timestr true)).2 =
      [⟨i, countCmd, decimal 0⟩] := by
  have hs := inv_run rodata es
  generalize (run (step rodata) Server.init es).1 = s at he hs ⊢
  obtain ⟨hrun, -⟩ := he
  simp only [step]
  cases hc : s.children[i]? with
  | none => simp [hc] at hrun
  | some child =>
      have h0 : child.counter = 0 :=
        hs.running child (List.mem_of_getElem? hc) (by simpa [hc] using hrun)
      simp only [handle, hreq, h0]
      rfl

/-- **No lost count**: in any run, the answer to an `N` is the number of times given to
earlier connections exactly if there were none. -/
theorem answered_count_iff {es : List Event} {i : Nat} {chunk timestr : List UInt8}
    (he : Enabled (run (step rodata) Server.init es).1 (.read i (.data chunk) timestr true))
    (hreq : request (.data chunk) = some countCmd) :
    (step rodata (run (step rodata) Server.init es).1 (.read i (.data chunk) timestr true)).2 =
        [⟨i, countCmd, decimal (earlierTimes i (run (step rodata) Server.init es).2)⟩] ↔
      earlierTimes i (run (step rodata) Server.init es).2 = 0 := by
  rw [answer_count rodata he hreq]
  constructor
  · intro h
    have htext := congrArg Answer.text (List.cons.inj h).1
    exact (decimal_injective htext).symm
  · intro h
    rw [h]

/-- The third of three connections has been given the time when the second one asks for the
number. -/
theorem count_second :
    let es : List Event := [.accept true, .accept true, .accept true,
      .read 2 (.data (ascii "T\n")) (ascii "Thu\n") true, .read 0 .closed [] true]
    let server := (run (step []) Server.init es).1
    (run (step []) Server.init es).2.map Answer.request = [timeCmd, []] ∧
      (step [] server (.read 1 (.data (ascii "N\n")) [] true)).2 =
        [⟨1, countCmd, decimal (earlierTimes 1 (run (step []) Server.init es).2)⟩] := by
  intro es server
  exact ⟨by decide, (answered_count_iff [] (by decide) (by decide)).mpr (by decide)⟩

/-- One connection asks for the time, the next one is told 0. -/
theorem count_lost :
    (run (step []) Server.init
      [.accept true, .read 0 (.data (ascii "T\n")) (ascii "Thu\n") true, .accept true,
        .read 1 (.data (ascii "N\n")) [] true]).2 =
      [⟨0, timeCmd, ascii "Thu\n" ++ [0]⟩, ⟨1, countCmd, ascii "0"⟩] := by
  decide

end Reti.TimeCount.Tcp
