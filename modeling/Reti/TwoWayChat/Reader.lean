import Reti.TwoWayChat.Server

/-!
# Reti.TwoWayChat.Reader

The loop of a child over what it receives from its client.  It cuts the last character
of the text off, whatever it is, by a store in front of the NUL: there has to be a NUL,
and a character in front of it.
-/

namespace Reti.TwoWayChat

open CStr

/-! ## the loop -/

/-- Where a child is in its loop, or that it has read or written outside `buffer`. -/
inductive Status where
  | reading
  | left
  | undefined
  deriving DecidableEq, Repr

/-- `buffer` after `bzero` and `recv`. -/
def received : RecvRet → Buf bufferSize
  | .data chunk => (Buf.zero bufferSize).fill chunk
  | _ => Buf.zero bufferSize

/-- `buffer[strlen(buffer) - 1] = '\0'`. -/
def cut (buffer : Buf bufferSize) : Option (Buf bufferSize) :=
  buffer.strlen.bind fun k => buffer.storeBefore k 0

/-- The body of the loop and the test for the next turn, with what is written to the
pipe. -/
def body (ret : RecvRet) : Status × List (List UInt8) :=
  if ret = .closed then (.left, [])
  else
    match cut (received ret) with
    | none => (.undefined, [])
    | some buffer =>
      (if buffer.text = ascii "exit" then .left else .reading, [buffer.text])

def readerStep : Status → RecvRet → Status × List (List UInt8)
  | .reading, ret => body ret
  | s, _ => (s, [])

/-! ## what the loop is for -/

/-- The text of a chunk without the newline at its end is forwarded; the loop ends with
the connection, with an error and with `exit`. -/
def intendedTurn : RecvRet → Status × List (List UInt8)
  | .data chunk =>
    (if chomp (cstr chunk) = ascii "exit" then .left else .reading, [chomp (cstr chunk)])
  | _ => (.left, [])

def intendedStep : Status → RecvRet → Status × List (List UInt8)
  | .reading, ret => intendedTurn ret
  | s, _ => (s, [])

/-- A line that ends with its newline, and leaves room for the NUL; or the end of the
connection. -/
def Plain : RecvRet → Prop
  | .error => False
  | .closed => True
  | .data chunk => (cstr chunk).length < bufferSize ∧ (cstr chunk).getLast? = some newline

instance : (ret : RecvRet) → Decidable (Plain ret)
  | .error => inferInstanceAs (Decidable False)
  | .closed => inferInstanceAs (Decidable True)
  | .data _ => inferInstanceAs (Decidable (_ ∧ _))

/-! ## one turn -/

theorem text_received {chunk : List UInt8} (h : chunk.length ≤ bufferSize) :
    (received (.data chunk)).text = cstr chunk := Buf.text_zero_fill h

/-- A turn that stays in `buffer` forwards the line of the chunk. -/
theorem body_data {chunk : List UInt8} (h : chunk.length ≤ bufferSize)
    (hlen : (cstr chunk).length < bufferSize) (hne : cstr chunk ≠ []) :
    body (.data chunk) =
      (if (cstr chunk).dropLast = ascii "exit" then .left else .reading,
        [(cstr chunk).dropLast]) := by
  have htext := text_received h
  obtain ⟨c, hc, hcut⟩ := (received (.data chunk)).cut_last_eq_some (by rwa [htext])
    (by rwa [htext])
  rw [htext] at hcut
  simp [body, cut, hc, hcut]

/-- The lines are those that the child of the system writes to its pipe. -/
theorem body_eq_line {chunk : List UInt8} (h : chunk.length ≤ bufferSize)
    (hlen : (cstr chunk).length < bufferSize) (hne : cstr chunk ≠ []) :
    body (.data chunk) =
      (if line chunk = ascii "exit" then .left else .reading, [line chunk]) := by
  rw [body_data h hlen hne, line, Buf.text_zero_fill h]

theorem body_undefined {ret : RecvRet} (hret : ret ≠ .closed)
    (h : bufferSize ≤ (received ret).text.length ∨ (received ret).text = []) :
    body ret = (.undefined, []) := by
  simp [body, cut, hret, (received ret).cut_last_eq_none h]

theorem body_of_plain {ret : RecvRet} (hret : ret.Fits bufferSize) (h : Plain ret) :
    body ret = intendedTurn ret := by
  cases ret with
  | error => cases h
  | closed => rfl
  | data chunk =>
      obtain ⟨hlen, hlast⟩ := h
      have hne : cstr chunk ≠ [] := by
        intro hnil
        simp [hnil] at hlast
      have hchomp : chomp (cstr chunk) = (cstr chunk).dropLast := if_pos hlast
      rw [body_data hret.2 hlen hne, intendedTurn, hchomp]

/-- Any other turn leaves `buffer`, or forwards something else. -/
theorem body_of_not_plain {ret : RecvRet} (hret : ret.Fits bufferSize) (h : ¬Plain ret) :
    (body ret).1 = .undefined ∨
      ∃ l l', l ≠ l' ∧ (body ret).2 = [l] ∧ (intendedTurn ret).2 = [l'] := by
  cases ret with
  | error =>
      have hnil : (received .error).text = [] := Buf.text_zero bufferSize
      rw [body_undefined (by simp) (Or.inr hnil)]
      exact Or.inl rfl
  | closed => exact absurd trivial h
  | data chunk =>
      have htext := text_received hret.2
      by_cases hin : (cstr chunk).length < bufferSize ∧ cstr chunk ≠ []
      · obtain ⟨hlen, hne⟩ := hin
        have hpos := List.length_pos_of_ne_nil hne
        have hchomp : chomp (cstr chunk) = cstr chunk := if_neg fun hlast => h ⟨hlen, hlast⟩
        refine Or.inr ⟨(cstr chunk).dropLast, cstr chunk, ?_, ?_, ?_⟩
        · intro heq
          have hdrop := congrArg List.length heq
          rw [List.length_dropLast] at hdrop
          omega
        · rw [body_data hret.2 hlen hne]
        · rw [intendedTurn, hchomp]
      · rw [not_and_or, not_lt, not_not] at hin
        rw [body_undefined (by simp) (by rwa [htext])]
        exact Or.inl rfl

/-! ## the whole loop -/

theorem intendedStep_eq (s : Status) (ret : RecvRet) :
    intendedStep s ret = if s = .reading then intendedTurn ret else (s, []) := by
  cases s <;> rfl

/-- Nothing that is intended is undefined. -/
theorem intended_run_ne_undefined (rets : List RecvRet) :
    (Transducer.run intendedStep .reading rets).1 ≠ .undefined := by
  have hstep : ∀ s ret, s ≠ .undefined → (intendedStep s ret).1 ≠ .undefined := by
    intro s ret hs
    rw [intendedStep_eq]
    split
    · cases ret with
      | data chunk =>
          simp only [intendedTurn]
          split <;> simp
      | _ => simp [intendedTurn]
    · exact hs
  exact Transducer.run_inv_of_step hstep (by simp) rets

/-- A chunk arrives while the child is reading. -/
def PlainThere (s : Status) (ret : RecvRet) : Prop := s = .reading → Plain ret

instance (s : Status) (ret : RecvRet) : Decidable (PlainThere s ret) :=
  inferInstanceAs (Decidable (_ → _))

/-- A chunk that is not plain is not taken as intended, whatever comes after it. -/
theorem run_ne_of_not_plain {ret : RecvRet} (hret : ret.Fits bufferSize) (h : ¬Plain ret)
    (rets : List RecvRet) :
    Transducer.run readerStep .reading (ret :: rets) ≠
      Transducer.run intendedStep .reading (ret :: rets) := by
  intro heq
  obtain hlost | ⟨l, l', hne, hl, hl'⟩ := body_of_not_plain hret h
  · have hend : (Transducer.run readerStep .reading (ret :: rets)).1 = .undefined := by
      show (Transducer.run readerStep (body ret).1 rets).1 = _
      rw [hlost, Transducer.run_stuck fun _ => rfl]
    rw [heq] at hend
    exact intended_run_ne_undefined _ hend
  · have hout : (body ret).2 ++ _ = (intendedTurn ret).2 ++ _ := congrArg Prod.snd heq
    rw [hl, hl'] at hout
    exact hne (List.cons.inj hout).1

/-- **Client reader**: a child stays in its buffer, forwards the lines of its client and
leaves at the right moment, exactly if what it receives until then is lines that end with
a newline and leave room for the NUL, or the end of the connection. -/
theorem reader_intended_iff {rets : List RecvRet} (hrets : ∀ ret ∈ rets, ret.Fits bufferSize) :
    Transducer.run readerStep .reading rets = Transducer.run intendedStep .reading rets ↔
      Transducer.Along intendedStep PlainThere .reading rets := by
  have hgood : ∀ s ret, RecvRet.Fits bufferSize ret → PlainThere s ret →
      readerStep s ret = intendedStep s ret := by
    intro s ret hret hplain
    cases s with
    | reading => exact body_of_plain hret (hplain rfl)
    | left => rfl
    | undefined => rfl
  have hbad : ∀ s ret rets, RecvRet.Fits bufferSize ret → ¬PlainThere s ret →
      Transducer.run readerStep s (ret :: rets) ≠ Transducer.run intendedStep s (ret :: rets) := by
    intro s ret rets hret hplain
    obtain ⟨rfl, hnot⟩ := Classical.not_imp.mp hplain
    exact run_ne_of_not_plain hret hnot rets
  exact Transducer.run_eq_iff_along hgood hbad hrets .reading

/-- Two lines and the end. -/
theorem reader_intended_exit :
    Transducer.run readerStep .reading [.data (ascii "hi\n"), .data (ascii "exit\n"), .error] =
      Transducer.run intendedStep .reading
        [.data (ascii "hi\n"), .data (ascii "exit\n"), .error] :=
  (reader_intended_iff (by decide)).mpr (by decide)

/-- Without a newline, the last character is lost; and after an error the child stores in
front of its buffer. -/
theorem reader_fails :
    Transducer.run readerStep .reading [.data (ascii "hi")] = (.reading, [ascii "h"]) ∧
      Transducer.run intendedStep .reading [.data (ascii "hi")] = (.reading, [ascii "hi"]) ∧
      Transducer.run readerStep .reading [.error] = (.undefined, []) := by
  decide +kernel

end Reti.TwoWayChat
