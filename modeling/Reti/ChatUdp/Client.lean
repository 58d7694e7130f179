import Reti.ChatUdp.Server

/-!
# Reti.ChatUdp.Client

The client of the UDP chat (`cl_chat.c`).  After the username has been read the
process forks: the parent reads lines and sends the struct `sendbuffer`, the
child receives into `MSGBuffer` and prints.  Each process works on its own copy
of the memory, so the two structs are never shared.

A `strcpy` that would leave its array has no defined outcome and is reported as
`none`.
-/

namespace Reti.ChatUdp

open CStr

/-- The length of `username`. -/
abbrev usernameLen : Nat := 32

/-- The length of `content_buffer`. -/
abbrev contentBufferLen : Nat := 1024

/-- A running client: the parent's `sendbuffer` and the child's `MSGBuffer`. -/
structure Client where
  sendbuffer : Message
  msgBuffer : Message
  deriving DecidableEq, Repr

/-- Before the fork: `fgets` reads `line` into `username`, its newline is cut off
and the rest copied to `sender`.  The two blocks that `malloc` returns and the
array `username` hold anything. -/
def start (sendbuffer msgBuffer : Message) (username : Buf usernameLen) (line : List UInt8) :
    Option Client :=
  let username := username.fill (line ++ [0])
  let username := username.store (strcspn username.bytes [newline]) 0
  (sendbuffer.sender.strcpy username.text).map fun sender =>
    ⟨⟨sender, sendbuffer.content⟩, msgBuffer⟩

/-- One iteration of the parent: the line goes through the cleared
`content_buffer` to `content`.  The bytes of `sendbuffer` are then sent. -/
def Client.typeLine (c : Client) (line : List UInt8) : Option Client :=
  let contentBuffer := (Buf.zero contentBufferLen).fill (line ++ [0])
  let contentBuffer := contentBuffer.store (strcspn contentBuffer.bytes [newline]) 0
  (c.sendbuffer.content.strcpy contentBuffer.text).map fun content =>
    ⟨⟨c.sendbuffer.sender, content⟩, c.msgBuffer⟩

/-- What the child writes to the terminal for a message. -/
def shown (sender content : List UInt8) : List UInt8 :=
  ascii "\r\x1b[K<" ++ sender ++ ascii ">: " ++ content ++ ascii "\n<<YOU>>: "

/-- One iteration of the child, and what it prints; `none` is a failed
`recvfrom`, which leaves `MSGBuffer` as it is. -/
def Client.receive (c : Client) (payload : Option (List UInt8)) : Client × List UInt8 :=
  let msg := match payload with
    | none => c.msgBuffer
    | some bytes => c.msgBuffer.fill bytes
  (⟨c.sendbuffer, msg⟩, shown msg.senderText msg.contentText)

/-! ## what the structs hold -/

/-- The array holds the string, ended by a NUL. -/
def Holds (b : Buf n) (text : List UInt8) : Prop := ∃ rest, b.bytes = text ++ 0 :: rest

/-- The bytes are a struct from which the two strings are read back. -/
structure Carries (bytes sender content : List UInt8) : Prop where
  length_eq : bytes.length = sizeofMessage
  sender_eq : cstr bytes = sender
  content_eq : cstr (bytes.drop 64) = content

/-- Copying a string that fits. -/
theorem strcpy_holds (dst : Buf n) {src : List UInt8} (h : src.length < n) :
    ∃ b, dst.strcpy src = some b ∧ Holds b src :=
  ⟨_, dst.strcpy_eq_some h, _, dst.bytes_fill_terminated h⟩

/-- The members of a struct hold two strings: its bytes carry them, whatever the
members held behind the NULs. -/
theorem carries_of_holds {m : Message} {sender content : List UInt8} (hs : Holds m.sender sender)
    (hc : Holds m.content content) (hs0 : 0 ∉ sender) (hc0 : 0 ∉ content) :
    Carries m.mem.bytes sender content where
  length_eq := m.mem.length_eq
  sender_eq := by
    obtain ⟨rest, hbytes⟩ := hs
    show cstr (m.sender.bytes ++ m.content.bytes) = sender
    rw [hbytes, List.append_assoc, List.cons_append, cstr_append_zero, cstr_of_not_mem hs0]
  content_eq := by
    obtain ⟨rest, hbytes⟩ := hc
    show cstr ((m.sender.bytes ++ m.content.bytes).drop 64) = content
    rw [List.drop_left' m.sender.length_eq, hbytes, cstr_append_zero, cstr_of_not_mem hc0]

/-! ## the three steps of a message -/

/-- The username arrives in `sender` and stays within it. -/
theorem start_spec (sendbuffer msgBuffer : Message) (username : Buf usernameLen) {line : List UInt8}
    (hline : FgetsItem usernameLen line) (h0 : 0 ∉ line) :
    ∃ c, start sendbuffer msgBuffer username line = some c ∧
      Holds c.sendbuffer.sender (chomp line) := by
  have hlen : (chomp line).length < 64 := length_chomp_lt hline (by decide) (by decide)
  obtain ⟨b, hb, hholds⟩ := strcpy_holds sendbuffer.sender hlen
  refine ⟨⟨⟨b, sendbuffer.content⟩, msgBuffer⟩, ?_, hholds⟩
  simp only [start]
  rw [username.text_cut_line (by decide) hline h0, hb]
  rfl

/-- The line arrives in `content` and stays within it; `sender` is not touched. -/
theorem typeLine_spec (c : Client) {line : List UInt8} (hline : FgetsItem contentBufferLen line)
    (h0 : 0 ∉ line) :
    ∃ c', c.typeLine line = some c' ∧ c'.sendbuffer.sender = c.sendbuffer.sender ∧
      Holds c'.sendbuffer.content (chomp line) := by
  have hlen : (chomp line).length < 2048 := length_chomp_lt hline (by decide) (by decide)
  obtain ⟨b, hb, hholds⟩ := strcpy_holds c.sendbuffer.content hlen
  refine ⟨⟨⟨c.sendbuffer.sender, b⟩, c.msgBuffer⟩, ?_, rfl, hholds⟩
  simp only [Client.typeLine]
  rw [(Buf.zero contentBufferLen).text_cut_line (by decide) hline h0, hb]
  rfl

/-- A struct received is printed as what it carries, whatever was received
before. -/
theorem receive_spec (c : Client) {bytes sender content : List UInt8}
    (h : Carries bytes sender content) : (c.receive (some bytes)).2 = shown sender content := by
  simp only [Client.receive, Message.senderText, Message.contentText]
  rw [c.msgBuffer.bytes_fill_whole h.length_eq, h.sender_eq, h.content_eq]

end Reti.ChatUdp
