import Reti.Net
import Reti.Lib.CString
import Reti.Lib.Transducer

/-!
# Reti.Modular.Handler

The loop of `clientHandler` in the modular TCP server (`sv_modular.c`).  It keeps what
`recv` returns in an `unsigned long`: the loop ends when that is not greater than zero,
and a failed `recv` is greater.  What was received is printed as a string.
-/

namespace Reti.Modular

open CStr Transducer

/-- The size of `buff`. -/
def buffLen : Nat := 128

/-- Where the handler is in its loop, or that it has read behind `buff`. -/
inductive Status where
  | receiving
  | done
  | undefined
  deriving DecidableEq, Repr

/-! ## the loop -/

/-- `SIZE_MAX` of a 64-bit `size_t`. -/
def sizeMax : Nat := 18446744073709551615

/-- `(size_t) recv(…)`. -/
def bytes : RecvRet → Nat
  | .error => sizeMax
  | .closed => 0
  | .data chunk => chunk.length

/-- `buff` after `bzero` and `recv`. -/
def received : RecvRet → Buf buffLen
  | .data chunk => (Buf.zero buffLen).fill chunk
  | _ => Buf.zero buffLen

/-- `fprintf(stdout, "TERM: %s", …)`. -/
def term (text : List UInt8) : List UInt8 := ascii "TERM: " ++ text

/-- The body of the loop and its test, with what is printed. -/
def body (ret : RecvRet) : Status × List (List UInt8) :=
  if 0 < bytes ret then
    match (received ret).readString with
    | some text => (.receiving, [term text])
    | none => (.undefined, [])
  else
    (.done, [])

def handlerStep : Status → RecvRet → Status × List (List UInt8)
  | .receiving, ret => body ret
  | s, _ => (s, [])

/-! ## what the loop is for -/

/-- Every chunk is printed, and the first outcome without one is the end. -/
def intendedStep : Status → RecvRet → Status × List (List UInt8)
  | .receiving, .data chunk => (.receiving, [term chunk])
  | .receiving, _ => (.done, [])
  | s, _ => (s, [])

/-- What `recv` returns in C programs that send each other strings. -/
def Text : RecvRet → Prop
  | .data chunk => RecvRet.Fits buffLen (.data chunk) ∧ 0 ∉ chunk
  | _ => True

instance : (ret : RecvRet) → Decidable (Text ret)
  | .data _ => inferInstanceAs (Decidable (_ ∧ _))
  | .error => inferInstanceAs (Decidable True)
  | .closed => inferInstanceAs (Decidable True)

/-- No failure, and no chunk that leaves `buff` without a NUL, while the handler is
receiving. -/
def Plain (s : Status) (ret : RecvRet) : Prop :=
  s = .receiving → ret ≠ .error ∧ bytes ret < buffLen

instance (s : Status) (ret : RecvRet) : Decidable (Plain s ret) :=
  inferInstanceAs (Decidable (_ → _))

/-! ## one turn -/

theorem body_error : body .error = (.receiving, [term []]) := by
  have hread : (received .error).readString = some [] :=
    (Buf.readString_eq_some_iff _).mpr ⟨(Buf.text_zero buffLen).symm, by decide +kernel⟩
  have hpos : 0 < bytes .error := by decide
  rw [body, if_pos hpos, hread]

theorem body_data {chunk : List UInt8} (h : Text (.data chunk)) :
    body (.data chunk) =
      if chunk.length < buffLen then (.receiving, [term chunk]) else (.undefined, []) := by
  obtain ⟨⟨hne, hlen⟩, h0⟩ := h
  have htext : (received (.data chunk)).text = chunk := by
    rw [received, Buf.text_zero_fill hlen, cstr_of_not_mem h0]
  have hpos : 0 < bytes (.data chunk) := List.length_pos_of_ne_nil hne
  rw [body, if_pos hpos, Buf.readString, htext]
  by_cases hfits : chunk.length < buffLen <;> simp [Buf.zero_mem_bytes_iff, htext, hfits]

theorem handlerStep_of_plain {s : Status} {ret : RecvRet} (hret : Text ret) (h : Plain s ret) :
    handlerStep s ret = intendedStep s ret := by
  cases s with
  | receiving =>
      obtain ⟨herror, hlen⟩ := h rfl
      cases ret with
      | error => exact absurd rfl herror
      | closed => rfl
      | data chunk => exact (body_data hret).trans (if_pos hlen)
  | done => rfl
  | undefined => rfl

/-! ## the whole loop -/

/-- Of the loop and what it is for, only one prints something after an outcome that is not
plain. -/
theorem run_ne_of_not_plain {s : Status} {ret : RecvRet} (hret : Text ret) (h : ¬Plain s ret)
    (rets : List RecvRet) :
    run handlerStep s (ret :: rets) ≠ run intendedStep s (ret :: rets) := by
  obtain ⟨rfl, hnot⟩ := Classical.not_imp.mp h
  cases ret with
  | error =>
      -- the handler has printed, and nothing is intended any more
      have hend : run intendedStep .done rets = (.done, []) := run_stuck (fun _ => rfl) rets
      simp [run, handlerStep, body_error, intendedStep, hend]
  | closed => exact absurd ⟨by simp, by decide⟩ hnot
  | data chunk =>
      have hfull : ¬chunk.length < buffLen := fun hlen => hnot ⟨by simp, hlen⟩
      have hend : run handlerStep .undefined rets = (.undefined, []) :=
        run_stuck (fun _ => rfl) rets
      simp [run, handlerStep, body_data hret, hfull, intendedStep, hend]

/-- **Client handler**: the loop prints the chunks, in order, stays in `buff` and ends at the
first outcome that is none, exactly if it does not fail before and no chunk before fills
`buff`. -/
theorem handler_intended_iff {rets : List RecvRet} (hrets : ∀ ret ∈ rets, Text ret) :
    run handlerStep .receiving rets = run intendedStep .receiving rets ↔
      Along intendedStep Plain .receiving rets := by
  have hgood : ∀ s ret, Text ret → Plain s ret → handlerStep s ret = intendedStep s ret :=
    fun _ _ => handlerStep_of_plain
  have hbad : ∀ s ret rets, Text ret → ¬Plain s ret →
      run handlerStep s (ret :: rets) ≠ run intendedStep s (ret :: rets) :=
    fun _ _ rets hret h => run_ne_of_not_plain hret h rets
  exact run_eq_iff_along hgood hbad hrets .receiving

/-- A chunk and the end of the connection. -/
theorem handler_intended_hello :
    run handlerStep .receiving [.data (ascii "hello\n"), .closed] =
      run intendedStep .receiving [.data (ascii "hello\n"), .closed] :=
  (handler_intended_iff (by decide)).mpr (by decide)

/-- While `recv` fails, the handler prints and goes on. -/
theorem handler_never_ends :
    run handlerStep .receiving [.error, .error] =
        (.receiving, [ascii "TERM: ", ascii "TERM: "]) ∧
      run handlerStep .receiving [.error, .error] ≠
        run intendedStep .receiving [.error, .error] := by
  decide +kernel

end Reti.Modular
