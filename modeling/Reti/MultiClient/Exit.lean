import Reti.Net
import Reti.Lib.CString

/-!
# Reti.MultiClient.Exit

The multi-client TCP messenger (`multiclient/cl_multi.c` and the child of
`multiclient/sv_multi.c`): the client puts its username in front of every message it
sends, and both programs leave their loops on a buffer that begins with `E`.

The client looks at what it has sent and not at what was typed, so the first byte is
always `[`, and neither loop is left because of a message.  The child also looks at its
buffer before anything was stored in it.
-/

namespace Reti.MultiClient

open CStr

/-- `sizeof(sendbuff)`, and the size of every other array of the two programs. -/
def bufferSize : Nat := 1024

/-- The byte of `'E'`. -/
def exitByte : UInt8 := 69

/-- `buffer[0] == 'E'`. -/
def isExit (buffer : Buf bufferSize) : Bool := buffer.bytes.head? = some exitByte

/-! ## the client -/

/-- `fgets` into an array, then `b[strcspn(b, "\n")] = 0`. -/
def getLine (b : Buf bufferSize) (line : List UInt8) : Buf bufferSize :=
  (b.fill (line ++ [0])).store (strcspn (b.fill (line ++ [0])).bytes [newline]) 0

/-- What is formatted for a typed line. -/
def message (username : Buf bufferSize) (line : List UInt8) : List UInt8 :=
  ascii "[" ++ username.text ++ ascii "]: " ++ (getLine (Buf.zero bufferSize) line).text

/-- `sprintf(sendbuff, "[%s]: %s", username, messagebuff)`: `none` when it does not fit. -/
def format (username : Buf bufferSize) (line : List UInt8) : Option (Buf bufferSize) :=
  (Buf.zero bufferSize).strcpy (message username line)

/-- One iteration of the client, as its environment has it: what was typed (nothing, when
`fgets` fails), and what `send` returns. -/
structure Turn where
  typed : List UInt8
  check : Int
  deriving DecidableEq, Repr

/-- Where the client is: in front of the keyboard, behind its loop, stopped by a failing
`send`, or past the end of `sendbuff`. -/
inductive ClientStatus where
  | typing
  | ended
  | failed
  | overflow
  deriving DecidableEq, Repr

/-- The client: the blocks it has sent, and where it is. -/
structure Client where
  sent : List (List UInt8)
  status : ClientStatus
  deriving DecidableEq, Repr

/-- `do … while (sendbuff[0] != 'E')`. -/
def clientLoop (username : Buf bufferSize) : List Turn → Client
  | [] => ⟨[], .typing⟩
  | turn :: turns =>
    match format username turn.typed with
    | none => ⟨[], .overflow⟩
    | some sendbuff =>
      if turn.check < 0 then ⟨[], .failed⟩
      else if isExit sendbuff then ⟨[sendbuff.text], .ended⟩
      else
        { clientLoop username turns with
          sent := sendbuff.text :: (clientLoop username turns).sent }

/-! ## the child of the server -/

/-- Where the child is: in `recv`, behind its loop, or stopped because `recv` returned
nothing. -/
inductive ChildStatus where
  | waiting
  | left
  | closed
  deriving DecidableEq, Repr

/-- The child: the strings it has printed, and where it is. -/
structure Child where
  printed : List (List UInt8)
  status : ChildStatus
  deriving DecidableEq, Repr

/-- The buffer after `bzero` and a `recv` of `chunk`. -/
def received (chunk : List UInt8) : Buf bufferSize := (Buf.zero bufferSize).fill chunk

/-- `while (buffer[0] != 'E')`, with what the calls of `recv` return; at first `buffer`
holds what happened to be on the stack. -/
def childLoop (buffer : Buf bufferSize) : List RecvRet → Child
  | [] => ⟨[], if isExit buffer then .left else .waiting⟩
  | .data chunk :: rets =>
    if isExit buffer then ⟨[], .left⟩
    else
      { childLoop (received chunk) rets with
        printed := (received chunk).text :: (childLoop (received chunk) rets).printed }
  | _ :: _ => ⟨[], if isExit buffer then .left else .closed⟩

/-! ## agreement on the exit message -/

/-- A typed line that begins with `E`. -/
def asksExit (line : List UInt8) : Bool := line.head? = some exitByte

/-- The lines up to the first one that begins with `E`, which is the last of them. -/
def upToExit : List (List UInt8) → List (List UInt8)
  | [] => []
  | line :: lines => line :: if asksExit line then [] else upToExit lines

/-- Both loops are left on the first typed line that begins with `E`, and on no other:
the client has sent, and the child has printed, the messages up to that one. -/
structure Agree (username buffer : Buf bufferSize) (turns : List Turn) : Prop where
  client : clientLoop username turns =
    ⟨(upToExit (turns.map Turn.typed)).map (message username),
      if (turns.map Turn.typed).any asksExit then .ended else .typing⟩
  child : childLoop buffer ((clientLoop username turns).sent.map .data) =
    ⟨(upToExit (turns.map Turn.typed)).map (message username),
      if (turns.map Turn.typed).any asksExit then .left else .waiting⟩

/-! ## messages -/

/-- A message that fits `sendbuff`, and a `send` that succeeds. -/
def Goes (username : Buf bufferSize) (turn : Turn) : Prop :=
  (message username turn.typed).length < bufferSize ∧ 0 ≤ turn.check

instance (username : Buf bufferSize) (turn : Turn) : Decidable (Goes username turn) :=
  inferInstanceAs (Decidable (_ ∧ _))

theorem zero_not_mem_message (username : Buf bufferSize) (line : List UInt8) :
    0 ∉ message username line := by
  have hopen : 0 ∉ ascii "[" := by decide
  have hclose : 0 ∉ ascii "]: " := by decide
  simp [message, hopen, hclose, Buf.text, zero_not_mem_cstr]

/-- An array that begins with a message does not begin with `E`. -/
theorem isExit_of_message {username b : Buf bufferSize} {line rest : List UInt8}
    (h : b.bytes = message username line ++ rest) : isExit b = false := by
  have hne : (91 : UInt8) ≠ exitByte := by decide
  have hopen : ascii "[" = [91] := by decide
  simp [isExit, h, message, hopen, hne]

theorem format_eq {username : Buf bufferSize} {line : List UInt8}
    (h : (message username line).length < bufferSize) :
    ∃ sendbuff, format username line = some sendbuff ∧ isExit sendbuff = false ∧
      sendbuff.text = message username line := by
  refine ⟨_, Buf.strcpy_eq_some _ h, ?_, ?_⟩
  · exact isExit_of_message (Buf.bytes_fill_terminated _ h)
  · rw [Buf.text_fill_terminated _ h, cstr_of_not_mem (zero_not_mem_message username line)]

theorem isExit_received {username : Buf bufferSize} {line : List UInt8}
    (h : (message username line).length < bufferSize) :
    isExit (received (message username line)) = false :=
  isExit_of_message (Buf.bytes_fill _ (Nat.le_of_lt h))

theorem text_received {username : Buf bufferSize} {line : List UInt8}
    (h : (message username line).length < bufferSize) :
    (received (message username line)).text = message username line := by
  rw [received, Buf.text_zero_fill (Nat.le_of_lt h),
    cstr_of_not_mem (zero_not_mem_message username line)]

/-! ## the loops -/

/-- **Run lemma**: the client sends every message and is never behind its loop. -/
theorem clientLoop_eq {username : Buf bufferSize} {turns : List Turn}
    (h : ∀ turn ∈ turns, Goes username turn) :
    clientLoop username turns =
      ⟨(turns.map Turn.typed).map (message username), .typing⟩ := by
  induction turns with
  | nil => rfl
  | cons turn turns ih =>
      obtain ⟨hlen, hcheck⟩ := h turn List.mem_cons_self
      obtain ⟨sendbuff, hformat, hexit, htext⟩ := format_eq hlen
      have hrest := ih fun t ht => h t (List.mem_cons_of_mem turn ht)
      simp [clientLoop, hformat, Int.not_lt.mpr hcheck, hexit, htext, hrest]

/-- **Run lemma**: so is the child, unless it never enters its loop. -/
theorem childLoop_eq {username : Buf bufferSize} {lines : List (List UInt8)}
    (h : ∀ line ∈ lines, (message username line).length < bufferSize)
    {buffer : Buf bufferSize} (hbuffer : isExit buffer = false) :
    childLoop buffer ((lines.map (message username)).map .data) =
      ⟨lines.map (message username), .waiting⟩ := by
  induction lines generalizing buffer with
  | nil => simp [childLoop, hbuffer]
  | cons line lines ih =>
      have hlen := h line List.mem_cons_self
      have hrest := ih (fun l hl => h l (List.mem_cons_of_mem line hl)) (isExit_received hlen)
      rw [List.map_cons, List.map_cons, childLoop, if_neg (Bool.eq_false_iff.mp hbuffer), hrest,
        text_received hlen]

theorem childLoop_of_isExit {buffer : Buf bufferSize} (h : isExit buffer = true)
    (rets : List RecvRet) : childLoop buffer rets = ⟨[], .left⟩ := by
  cases rets with
  | nil => simp [childLoop, h]
  | cons ret rets => cases ret <;> simp [childLoop, h]

/-- Nobody asks to leave: all of the lines count. -/
theorem upToExit_eq_self {lines : List (List UInt8)} (h : ∀ line ∈ lines, asksExit line = false) :
    upToExit lines = lines := by
  induction lines with
  | nil => rfl
  | cons line lines ih =>
      have hrest := ih fun l hl => h l (List.mem_cons_of_mem line hl)
      simp [upToExit, h line List.mem_cons_self, hrest]

/-! ## agreement -/

/-- The client does not agree if somebody asks to leave: it goes on typing. -/
theorem Agree.asksExit_eq_false {username buffer : Buf bufferSize} {turns : List Turn}
    (hagree : Agree username buffer turns) (h : ∀ turn ∈ turns, Goes username turn) :
    (turns.map Turn.typed).any asksExit = false := by
  by_contra hany
  have hstatus := hagree.client
  rw [clientLoop_eq h, if_pos (Bool.of_not_eq_false hany)] at hstatus
  cases congrArg Client.status hstatus

/-- The child does not agree if it leaves before it has received anything. -/
theorem Agree.isExit_eq_false {username buffer : Buf bufferSize} {turns : List Turn}
    (hagree : Agree username buffer turns)
    (hnone : (turns.map Turn.typed).any asksExit = false) : isExit buffer = false := by
  by_contra hexit
  have hstatus := hagree.child
  rw [childLoop_of_isExit (Bool.of_not_eq_false hexit), hnone] at hstatus
  cases congrArg Child.status hstatus

/-- Otherwise nobody is to leave, and nobody does. -/
theorem agree_of_none {username buffer : Buf bufferSize} {turns : List Turn}
    (h : ∀ turn ∈ turns, Goes username turn)
    (hnone : (turns.map Turn.typed).any asksExit = false) (hbuffer : isExit buffer = false) :
    Agree username buffer turns := by
  have hlines : ∀ line ∈ turns.map Turn.typed, (message username line).length < bufferSize := by
    intro line hline
    obtain ⟨turn, hturn, rfl⟩ := List.mem_map.mp hline
    exact (h turn hturn).1
  have hall : upToExit (turns.map Turn.typed) = turns.map Turn.typed :=
    upToExit_eq_self (by simpa using hnone)
  constructor
  · simp [clientLoop_eq h, hall, hnone]
  · rw [clientLoop_eq h, childLoop_eq hlines hbuffer, hall, hnone]
    rfl

/-- **Agreement on the exit message**: whatever the username and the messages, the loops
are left as they should be exactly if nobody asks to leave, and the child's buffer does
not happen to begin with `E`. -/
theorem agree_iff {username : Buf bufferSize} {turns : List Turn}
    (h : ∀ turn ∈ turns, Goes username turn) (buffer : Buf bufferSize) :
    Agree username buffer turns ↔
      (∀ turn ∈ turns, asksExit turn.typed = false) ∧ isExit buffer = false := by
  have hany : (turns.map Turn.typed).any asksExit = false ↔
      ∀ turn ∈ turns, asksExit turn.typed = false := by simp
  rw [← hany]
  constructor
  · intro hagree
    have hnone := hagree.asksExit_eq_false h
    exact ⟨hnone, hagree.isExit_eq_false hnone⟩
  · rintro ⟨hnone, hbuffer⟩
    exact agree_of_none h hnone hbuffer

/-- A conversation in which nobody asks to leave. -/
theorem agree_without_exit :
    Agree (getLine (Buf.zero bufferSize) (ascii "ada\n")) (Buf.zero bufferSize)
      [⟨ascii "ciao\n", 11⟩, ⟨ascii "come va?\n", 15⟩] :=
  (agree_iff (by decide +kernel) _).mpr (by decide +kernel)

/-- Neither end leaves its loop on a message that begins with `E`. -/
theorem not_agree_exit :
    (clientLoop (getLine (Buf.zero bufferSize) (ascii "ada\n")) [⟨ascii "Exit\n", 11⟩]).status =
        .typing ∧
      ¬Agree (getLine (Buf.zero bufferSize) (ascii "ada\n")) (Buf.zero bufferSize)
        [⟨ascii "Exit\n", 11⟩] := by
  have hsent : Goes (getLine (Buf.zero bufferSize) (ascii "ada\n")) ⟨ascii "Exit\n", 11⟩ := by
    decide +kernel
  have h : ∀ turn ∈ [Turn.mk (ascii "Exit\n") 11],
      Goes (getLine (Buf.zero bufferSize) (ascii "ada\n")) turn := by
    simpa using hsent
  constructor
  · rw [clientLoop_eq h]
  · rw [agree_iff h]
    decide +kernel

end Reti.MultiClient
