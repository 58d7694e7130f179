import Reti.Lib.CString

/-!
# Reti.Dice.Login

How a player of the dice game comes in: the client (`mp_dice_cl.c`) reads a name and sends
it in a struct, the server (`mp_dice_ds.c`) answers with a welcome.  The welcome is built
as a string, but sent with the size of the struct.

The memory that the programs do not initialise is arbitrary: the block of `getline`, what
follows the literal `"__NIL"`, `client_socket` with the padding before it, the slot of the
server, and `welcome_str`.
-/

namespace Reti.Dice

open CStr

def usernameLen : Nat := 33

/-- `client_socket` and the three bytes of padding in front of it. -/
def restLen : Nat := 7

/-- `sizeof(Client)`. -/
abbrev sizeofClient : Nat := usernameLen + restLen

/-- The size of `welcome_str`. -/
def welcomeLen : Nat := 128

def noName : List UInt8 := ascii "__NIL"

def greeting : List UInt8 := ascii "Welcome to D20 "

/-! ## the client -/

/-- `local_client.username` before the loop: the literal and what follows it. -/
def initial (username : Buf usernameLen) : Buf usernameLen := username.fill (noName ++ [0])

/-- `bzero`, `bcopy` of the first bytes of the block, and the cut at the newline. -/
def enter (username block : Buf usernameLen) : Buf usernameLen :=
  let copied := (username.memset 0).fill block.bytes
  copied.store (strcspn copied.bytes [newline]) 0

/-- The loop over the lines `getline` reads, of whose block the first bytes are kept: the
name with which it is left. -/
def login (username block : Buf usernameLen) : List (List UInt8) → Option (Buf usernameLen)
  | [] => if username.text = noName then none else some username
  | line :: lines =>
    if username.text = noName then
      let block := block.fill (line ++ [0])
      if 32 < (cstr line).length then login username block lines
      else login (enter username block) block lines
    else some username

/-! ## the server -/

/-- What the server sends after it has received the bytes of a struct into `slot`. -/
def welcome (slot : Buf sizeofClient) (welcomeStr : Buf welcomeLen) (client : List UInt8) :
    Option (List UInt8) :=
  let username : Buf usernameLen := (slot.fill client).left
  username.readString.bind fun name =>
    (welcomeStr.strcpy (greeting ++ name)).map fun welcomeStr => welcomeStr.bytes.take sizeofClient

/-- The login of a player who types `lines`, with the struct delivered whole. -/
def session (username block : Buf usernameLen) (rest : Buf restLen) (slot : Buf sizeofClient)
    (welcomeStr : Buf welcomeLen) (lines : List (List UInt8)) : Option (List UInt8) :=
  (login (initial username) block lines).bind fun username =>
    welcome slot welcomeStr (username.append rest).bytes

/-! ## names -/

/-- The username of a line: without its newline. -/
def nameOf (line : List UInt8) : List UInt8 := line.takeWhile fun b => b ≠ 0 ∧ b ∉ [newline]

/-- The client takes the line for a username. -/
def Accepted (line : List UInt8) : Prop := (cstr line).length ≤ 32 ∧ nameOf line ≠ noName

instance (line : List UInt8) : Decidable (Accepted line) := inferInstanceAs (Decidable (_ ∧ _))

theorem nameOf_prefix_cstr (line : List UInt8) : nameOf line <+: cstr line := by
  rw [nameOf, takeWhile_line_eq]
  exact List.takeWhile_prefix _

theorem length_nameOf_le {line : List UInt8} (h : (cstr line).length ≤ 32) :
    (nameOf line).length ≤ 32 := Nat.le_trans (nameOf_prefix_cstr line).length_le h

/-! ## the loop -/

theorem text_initial (username : Buf usernameLen) : (initial username).text = noName := by
  have hfits : noName.length < usernameLen := by decide
  have hnul : (0 : UInt8) ∉ noName := by decide
  rw [initial, Buf.text_fill_terminated _ hfits, cstr_of_not_mem hnul]

/-- The name that is stored is that of the line. -/
theorem text_enter (username block : Buf usernameLen) {line : List UInt8}
    (h : (cstr line).length ≤ 32) :
    (enter username (block.fill (line ++ [0]))).text = nameOf line := by
  have hfits : (cstr line).length < usernameLen := Nat.lt_succ_of_le h
  simp only [enter, Buf.fill_bytes]
  exact block.text_cut_of_cstr hfits

theorem login_of_named {username : Buf usernameLen} (h : username.text ≠ noName)
    (block : Buf usernameLen) (lines : List (List UInt8)) :
    login username block lines = some username := by
  cases lines <;> simp [login, h]

/-- **Step lemma**: an accepted line ends the loop with its name. -/
theorem login_accepted {username : Buf usernameLen} (hnil : username.text = noName)
    (block : Buf usernameLen) {line : List UInt8} (h : Accepted line)
    (lines : List (List UInt8)) :
    ∃ name, login username block (line :: lines) = some name ∧ name.text = nameOf line := by
  have htext := text_enter username block h.1
  refine ⟨enter username (block.fill (line ++ [0])), ?_, htext⟩
  rw [login, if_pos hnil, if_neg (Nat.not_lt.mpr h.1)]
  exact login_of_named (htext ▸ h.2) _ lines

/-- **Step lemma**: any other line leaves the client without a name. -/
theorem login_rejected {username : Buf usernameLen} (hnil : username.text = noName)
    (block : Buf usernameLen) {line : List UInt8} (h : ¬Accepted line)
    (lines : List (List UInt8)) :
    ∃ username' block' : Buf usernameLen, username'.text = noName ∧
      login username block (line :: lines) = login username' block' lines := by
  rw [login, if_pos hnil]
  by_cases hlong : 32 < (cstr line).length
  · exact ⟨username, block.fill (line ++ [0]), hnil, if_pos hlong⟩
  · have hname : nameOf line = noName :=
      Classical.not_not.mp fun hne => h ⟨Nat.not_lt.mp hlong, hne⟩
    have htext := text_enter username block (Nat.not_lt.mp hlong)
    exact ⟨_, block.fill (line ++ [0]), htext.trans hname, if_neg hlong⟩

/-- **Run lemma**: the loop is left with the name of the first line that is accepted. -/
theorem login_eq_some {username : Buf usernameLen} (hnil : username.text = noName)
    (block : Buf usernameLen) {before : List (List UInt8)} (hbefore : ∀ l ∈ before, ¬Accepted l)
    {line : List UInt8} (h : Accepted line) (after : List (List UInt8)) :
    ∃ name, login username block (before ++ line :: after) = some name ∧
      name.text = nameOf line := by
  induction before generalizing username block with
  | nil => exact login_accepted hnil block h after
  | cons l before ih =>
      rw [List.forall_mem_cons] at hbefore
      obtain ⟨username', block', hnil', hlogin⟩ :=
        login_rejected hnil block hbefore.1 (before ++ line :: after)
      rw [List.cons_append, hlogin]
      exact ih hnil' block' hbefore.2

/-! ## the welcome -/

/-- The welcome to a name that fits the struct is the start of `welcome_str`, whatever its
length. -/
theorem welcome_eq (slot : Buf sizeofClient) (welcomeStr : Buf welcomeLen)
    {username : Buf usernameLen} (h : username.text.length ≤ 32) (rest : Buf restLen) :
    welcome slot welcomeStr (username.append rest).bytes =
      some ((greeting ++ username.text ++
        0 :: welcomeStr.bytes.drop (greeting.length + username.text.length + 1)).take
          sizeofClient) := by
  have hread : username.readString = some username.text :=
    username.readString_eq_some_iff.mpr ⟨rfl, Nat.lt_succ_of_le h⟩
  have hgreeting : greeting.length = 15 := by decide
  have hfits : (greeting ++ username.text).length < welcomeLen := by
    rw [List.length_append, welcomeLen]
    omega
  simp only [welcome, Buf.fill_bytes, Buf.left_append, hread, Option.bind_some]
  rw [welcomeStr.strcpy_eq_some hfits, Option.map_some, welcomeStr.bytes_fill_terminated hfits,
    List.length_append]

/-- **Step lemma**: forty bytes are sent, so only a name of 24 characters is welcomed with
its NUL and nothing behind it. -/
theorem welcome_exact_iff (slot : Buf sizeofClient) (welcomeStr : Buf welcomeLen)
    {username : Buf usernameLen} (h : username.text.length ≤ 32) (rest : Buf restLen) :
    welcome slot welcomeStr (username.append rest).bytes =
        some (greeting ++ username.text ++ [0]) ↔ username.text.length = 24 := by
  have hgreeting : greeting.length = 15 := by decide
  have hsize : sizeofClient = 40 := by decide
  rw [welcome_eq slot welcomeStr h, Option.some.injEq, hsize]
  constructor
  · intro heq
    have hlen := congrArg List.length heq
    have hdrop : welcomeStr.bytes.length = 128 := welcomeStr.length_eq
    simp only [List.length_take, List.length_append, List.length_cons, List.length_nil,
      List.length_drop] at hlen
    omega
  · intro hlen
    rw [List.append_cons]
    exact List.take_left' (by simp [hgreeting, hlen])

/-- **Login**: whatever lines the client has turned down before, and whatever is in the
memory, the welcome to the name of an accepted line is exactly the greeting, the name and a
NUL, exactly if the name has 24 characters. -/
theorem session_welcome_iff (username block : Buf usernameLen) (rest : Buf restLen)
    (slot : Buf sizeofClient) (welcomeStr : Buf welcomeLen) {before : List (List UInt8)}
    (hbefore : ∀ l ∈ before, ¬Accepted l) {line : List UInt8} (h : Accepted line)
    (after : List (List UInt8)) :
    session username block rest slot welcomeStr (before ++ line :: after) =
        some (greeting ++ nameOf line ++ [0]) ↔ (nameOf line).length = 24 := by
  obtain ⟨name, hlogin, htext⟩ := login_eq_some (text_initial username) block hbefore h after
  have hlen : name.text.length ≤ 32 := htext ▸ length_nameOf_le h.1
  rw [session, hlogin, Option.bind_some, ← htext]
  exact welcome_exact_iff slot welcomeStr hlen rest

/-- A name of 24 characters, after a line that is too long. -/
theorem session_welcome_twenty_four :
    session (Buf.zero usernameLen) (Buf.zero usernameLen) (Buf.zero restLen)
        (Buf.zero sizeofClient) (Buf.zero welcomeLen)
        ([List.replicate 33 97] ++ ascii "abcdefghijklmnopqrstuvwx\n" :: []) =
      some (greeting ++ nameOf (ascii "abcdefghijklmnopqrstuvwx\n") ++ [0]) :=
  (session_welcome_iff (Buf.zero usernameLen) (Buf.zero usernameLen) (Buf.zero restLen)
    (Buf.zero sizeofClient) (Buf.zero welcomeLen) (by decide) (by decide) []).mpr (by decide)

/-- A short name is followed by what was in `welcome_str`. -/
theorem welcome_of_short_name :
    let sent := session (Buf.zero usernameLen) (Buf.zero usernameLen) (Buf.zero restLen)
      (Buf.zero sizeofClient) ((Buf.zero welcomeLen).memset 255) [ascii "anna\n"]
    sent = some (greeting ++ ascii "anna" ++ 0 :: List.replicate 20 255) ∧
      sent ≠ some (greeting ++ nameOf (ascii "anna\n") ++ [0]) := by
  decide +kernel

end Reti.Dice
