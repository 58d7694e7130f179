import Reti.SquareSum.System

/-!
# Reti.SquareSum.Oblivious

The server for the sum of two squares computes the sum and does nothing with it: the answer
is a line that somebody types.  Hence nothing that is sent to anybody depends on the numbers.
-/

namespace Reti.SquareSum

open CStr Transducer

/-- A datagram that the server takes, and the line typed at the server in this turn. -/
structure Arrival where
  client : SockaddrIn
  text : List UInt8
  line : List UInt8
  deriving DecidableEq, Repr

/-- The server without the network, and what it sends. -/
def serverStep (server : Server) (a : Arrival) : Server × List Packet :=
  let (server, replies, _) := serve server a.client ⟨a.text, .first⟩ a.line
  (server, replies.map fun text => ⟨a.client, text⟩)

/-- The datagram is what closes the server, if the server looks at it. -/
def Arrival.Closes (a : Arrival) : Prop := (readLine a.text).text = ascii "close\n"

instance (a : Arrival) : Decidable a.Closes := inferInstanceAs (Decidable (_ = _))

/-- The datagram without its number. -/
def Arrival.hidden (a : Arrival) : Arrival :=
  { a with text := if a.Closes then ascii "close\n" else [] }

/-- The server without its number. -/
def Server.hidden : Server → Server
  | .second x => .second { x with value := 0 }
  | server => server

theorem closes_hidden (a : Arrival) : a.hidden.Closes ↔ a.Closes := by
  by_cases h : a.Closes
  · have hclose : (readLine (ascii "close\n")).text = ascii "close\n" := by decide +kernel
    simp [Arrival.hidden, Arrival.Closes, hclose, show (readLine a.text).text = _ from h]
  · have hempty : (readLine []).text ≠ ascii "close\n" := by decide +kernel
    have htext : a.hidden.text = [] := by simp [Arrival.hidden, h]
    exact iff_of_false (by rwa [Arrival.Closes, htext]) h

theorem operand_empty (c : SockaddrIn) (place : Place) : operand c ⟨[], place⟩ = ⟨c, place, 0⟩ := by
  have hvalue : atoi ((readLine []).store 0 0).text = 0 := by decide +kernel
  simp [operand, hvalue]

/-- **Step lemma**: the server does the same with the number and without it. -/
theorem serverStep_hidden (server : Server) (a : Arrival) :
    serverStep server.hidden a.hidden =
      ((serverStep server a).1.hidden, (serverStep server a).2.map id) := by
  have hcloses : (readLine a.hidden.text).text = ascii "close\n" ↔
      (readLine a.text).text = ascii "close\n" := closes_hidden a
  cases server with
  | first =>
      by_cases h : (readLine a.text).text = ascii "close\n"
      · simp [serverStep, serve, Server.hidden, h, hcloses.mpr h]
      · have htext : a.hidden.text = [] := by simp [Arrival.hidden, Arrival.Closes, h]
        have hclose := mt hcloses.mp h
        rw [htext] at hclose
        simp [serverStep, serve, Server.hidden, h, hclose, htext, operand_empty]
        simp [Arrival.hidden, operand]
  | second x => simp [serverStep, serve, Server.hidden, Arrival.hidden]
  | closed => rfl

/-- Two runs in which the same clients send at the same times and the same lines are typed,
but the numbers differ, cannot be told apart by what is sent to the clients. -/
theorem sent_oblivious {as as' : List Arrival}
    (h : as.map Arrival.hidden = as'.map Arrival.hidden) :
    (run serverStep .first as).2 = (run serverStep .first as').2 := by
  have hrun (bs : List Arrival) : (run serverStep .first (bs.map Arrival.hidden)).2 =
      (run serverStep .first bs).2 := by
    have hstep (s : Server) (b : Arrival) (_ : True) : serverStep s.hidden b.hidden = _ :=
      serverStep_hidden s b
    have hbs : ∀ b ∈ bs, True := fun _ _ => trivial
    have hall := run_simulates hstep .first hbs
    simpa [Server.hidden] using congrArg Prod.snd hall
  rw [← hrun as, h, hrun as']

/-- Three and four, or five and six. -/
theorem sent_oblivious_four :
    let as := [(⟨default, ascii "3", []⟩ : Arrival), ⟨default, ascii "4", ascii "25\n"⟩]
    let as' := [(⟨default, ascii "5", []⟩ : Arrival), ⟨default, ascii "6", ascii "25\n"⟩]
    as.map Arrival.hidden = as'.map Arrival.hidden ∧
      (run serverStep .first as).2 = (run serverStep .first as').2 := by
  intro as as'
  have h : as.map Arrival.hidden = as'.map Arrival.hidden := by decide +kernel
  exact ⟨h, sent_oblivious h⟩

end Reti.SquareSum
