import Reti.Net
import Reti.Lib.Decimal
import Reti.Lib.Transducer

/-!
# Reti.TimeCount.Udp

The UDP server for the time and the number of times it was asked for
(`Client-Server-UDP/server_udp.c`).  One process answers everybody, so nothing is
lost of the count, but the number is written to an array of five characters.
-/

namespace Reti.TimeCount.Udp

open CStr Transducer

def maxline : Nat := 4096

def timeCmd : List UInt8 := ascii "T\n"

def countCmd : List UInt8 := ascii "N\n"

/-! ## the server -/

/-- The server between two iterations; `cli_addr` keeps the last sender when
`recvfrom` fails. -/
structure Server where
  counter : Int
  cliAddr : SockaddrIn
  deriving DecidableEq, Repr

def Server.init (cliAddr : SockaddrIn) : Server := ⟨0, cliAddr⟩

/-- What an iteration meets: how `recvfrom` returns, and the string of `ctime`. -/
structure Event where
  recv : Recv
  timestr : List UInt8
  deriving DecidableEq, Repr

/-- What an iteration does: `sendto`, or a `sprintf` whose text does not fit its
array. -/
inductive Output where
  | sent (p : Packet)
  | overflow
  deriving DecidableEq, Repr

/-- The string in `buffer` after `bzero` and `recvfrom`, which writes nothing if it
fails. -/
def request : Recv → List UInt8
  | .failed => (Buf.zero maxline).text
  | .got d => ((Buf.zero maxline).fill d.payload).text

def Server.sender (s : Server) : Recv → SockaddrIn
  | .failed => s.cliAddr
  | .got d => d.src

/-- `counter++`, in 32 bits. -/
def increment (counter : Int) : Int := (counter + 1).bmod 4294967296

/-- `sprintf(cnt, "%d\n", counter)` and `sendto` of the string with its NUL; `cnt` is
not initialised. -/
def sendCount (cnt : Buf 5) (dst : SockaddrIn) (counter : Int) : Output :=
  match cnt.strcpy (printInt counter ++ [newline]) with
  | some cnt => .sent ⟨dst, cnt.text ++ [0]⟩
  | none => .overflow

-- `cnt` before `sprintf`, and the byte behind the literal `ricevuto`, of which one
-- too many is sent
variable (cnt : Buf 5) (rodata : UInt8)

/-- One iteration of `for (;;)`. -/
def iteration (s : Server) (e : Event) : Server × List Output :=
  let buffer := request e.recv
  let cliAddr := s.sender e.recv
  if buffer = timeCmd then
    (⟨increment s.counter, cliAddr⟩, [.sent ⟨cliAddr, e.timestr ++ [0]⟩])
  else if buffer = countCmd then
    (⟨s.counter, cliAddr⟩, [sendCount cnt cliAddr s.counter])
  else
    (⟨s.counter, cliAddr⟩, [.sent ⟨cliAddr, ascii "ricevuto\n" ++ [0, rodata]⟩])

/-! ## the counter -/

/-- How many of the requests asked for the time. -/
def times (es : List Event) : Nat := es.countP fun e => request e.recv = timeCmd

/-- **Run lemma**: the counter counts them, in 32 bits. -/
theorem counter_run (cliAddr : SockaddrIn) (es : List Event) :
    (run (iteration cnt rodata) (.init cliAddr) es).1.counter =
      (times es : Int).bmod 4294967296 := by
  induction es using List.reverseRecOn with
  | nil => rfl
  | append_singleton es e ih =>
      have htimes : times (es ++ [e]) =
          times es + if request e.recv = timeCmd then 1 else 0 := by
        simp [times, List.countP_append, List.countP_cons]
      rw [run_append_fst, htimes]
      simp only [run_cons_fst, run_nil, iteration]
      by_cases h : request e.recv = timeCmd
      · rw [if_pos h, if_pos h]
        show increment _ = _
        rw [increment, ih]
        push_cast
        exact Int.bmod_add_bmod
      · rw [if_neg h, if_neg h, Nat.add_zero, ← ih]
        split <;> rfl

/-! ## the answer to `N` -/

/-- The text of a number with its newline and NUL. -/
def countText (n : Nat) : List UInt8 := decimal n ++ [newline, 0]

/-- It fits the array if the number has at most three digits. -/
theorem length_countText_le_iff (n : Nat) : (countText n).length ≤ 5 ↔ n ≤ 999 := by
  have hdigits : (decimal n).length ≤ 3 ↔ n < 1000 := length_decimal_le_iff n (by decide)
  have hlen : (countText n).length = (decimal n).length + 2 := by simp [countText]
  omega

/-- What `sprintf` writes is sent if it fits, and fits if it is sent. -/
theorem sendCount_eq_sent_iff (dst : SockaddrIn) (counter : Int) (text : List UInt8) :
    sendCount cnt dst counter = .sent ⟨dst, text⟩ ↔
      text = printInt counter ++ [newline, 0] ∧ text.length ≤ 5 := by
  have hnul : 0 ∉ printInt counter ++ [newline] := by
    rw [List.mem_append, not_or]
    exact ⟨zero_not_mem_printInt counter, by decide⟩
  have hlen : (printInt counter ++ [newline, 0]).length =
      (printInt counter ++ [newline]).length + 1 := by simp
  have happend : printInt counter ++ [newline] ++ [0] = printInt counter ++ [newline, 0] := by simp
  unfold sendCount
  by_cases hfits : (printInt counter ++ [newline]).length < 5
  · rw [cnt.strcpy_eq_some hfits]
    show Output.sent ⟨dst, (cnt.fill _).text ++ [0]⟩ = _ ↔ _
    rw [cnt.text_fill_terminated hfits, cstr_of_not_mem hnul, happend, Output.sent.injEq,
      Packet.mk.injEq]
    constructor
    · intro h
      rw [← h.2]
      exact ⟨rfl, by omega⟩
    · intro h
      exact ⟨rfl, h.1.symm⟩
  · rw [cnt.strcpy_eq_none (Nat.not_lt.mp hfits)]
    constructor
    · intro h
      cases h
    · intro h
      rw [h.1] at h
      omega

theorem iteration_count (s : Server) {d : Datagram} (hreq : request (.got d) = countCmd)
    (timestr : List UInt8) :
    (iteration cnt rodata s ⟨.got d, timestr⟩).2 = [sendCount cnt d.src s.counter] := by
  have hne : countCmd ≠ timeCmd := by decide
  simp [iteration, hreq, hne, Server.sender]

/-- **The answer to `N`**: in any run, it is the number of requests for the time with
its newline and NUL, and fits the array, exactly if there were at most 999. -/
theorem count_iff (cliAddr : SockaddrIn) (es : List Event) {d : Datagram}
    (hreq : request (.got d) = countCmd) (timestr : List UInt8) :
    (iteration cnt rodata (run (iteration cnt rodata) (.init cliAddr) es).1 ⟨.got d, timestr⟩).2 =
        [.sent ⟨d.src, decimal (times es) ++ [newline, 0]⟩] ↔
      times es ≤ 999 := by
  have hcounter := counter_run cnt rodata cliAddr es
  rw [iteration_count _ _ _ hreq, List.cons.injEq, and_iff_left rfl, sendCount_eq_sent_iff,
    ← length_countText_le_iff, countText]
  constructor
  · exact And.right
  · intro hlen
    have hsmall := (length_countText_le_iff (times es)).mp hlen
    have hexact : (times es : Int).bmod 4294967296 = times es := by
      exact Int.bmod_eq_of_le (by omega) (by omega)
    rw [hcounter, hexact, printInt_natCast]
    exact ⟨rfl, hlen⟩

/-- A client that asks for the time. -/
def askTime (timestr : List UInt8) : Event := ⟨.got ⟨default, timeCmd⟩, timestr⟩

/-- One time has been given. -/
theorem count_one :
    (iteration (Buf.zero 5) 0 (run (iteration (Buf.zero 5) 0) (.init default) [askTime []]).1
        ⟨.got ⟨default, countCmd⟩, []⟩).2 =
      [.sent ⟨default, decimal (times [askTime []]) ++ [newline, 0]⟩] :=
  (count_iff (Buf.zero 5) 0 default [askTime []] (d := ⟨default, countCmd⟩) (by decide +kernel)
    []).mpr (by decide +kernel)

/-- A thousand times have been given: the number does not fit the array. -/
theorem count_overflows :
    (iteration (Buf.zero 5) 0
        (run (iteration (Buf.zero 5) 0) (.init default) (List.replicate 1000 (askTime []))).1
        ⟨.got ⟨default, countCmd⟩, []⟩).2 = [.overflow] := by
  have htime : request (askTime []).recv = timeCmd := by decide +kernel
  have htimes : times (List.replicate 1000 (askTime [])) = 1000 := by
    rw [times, List.countP_replicate, if_pos (by simpa using htime)]
  have hcounter := counter_run (Buf.zero 5) 0 default (List.replicate 1000 (askTime []))
  rw [htimes] at hcounter
  have hreq : request (.got ⟨default, countCmd⟩) = countCmd := by decide +kernel
  rw [iteration_count _ _ _ hreq, hcounter]
  decide

end Reti.TimeCount.Udp
