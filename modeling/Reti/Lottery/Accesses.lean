import Reti.Lottery.Server

/-!
# Reti.Lottery.Accesses

The array accesses of the lottery server: the NUL it writes behind what it has received,
and the entry of the table it counts the attempt in.  The second is always in range, also
for a sender the table has no room for; the first is not.
-/

namespace Reti.Lottery

open CStr Transducer

/-- `recv_len`, for a datagram that was received. -/
def recvLen (d : Datagram) : Nat := min d.payload.length bufferSize

/-- The indices that an iteration uses lie in their arrays: `recv_len` in `buffer`, and
`client_index` in the `client_count` entries of `clients` that are in use. -/
structure AccessesOk (s : Server) (d : Datagram) : Prop where
  recvLen_lt : recvLen d < bufferSize
  index_nonneg : 0 ≤ (locate s.clients d.src).2
  index_lt : (locate s.clients d.src).2 < (locate s.clients d.src).1.length

/-- A failed `recvfrom` uses no array. -/
def InBounds (s : Server) : Recv → Prop
  | .failed => True
  | .got d => AccessesOk s d

/-! ## the entry -/

/-- There is an entry after `add_client`: the one it has added, or those that left no
room for it. -/
theorem length_addClient_pos (clients : List ClientInfo) (a : SockaddrIn) :
    0 < (addClient clients a).length := by
  unfold addClient
  split
  · simp
  · rename_i hfull
    exact Nat.lt_of_lt_of_le (by decide) (Nat.not_lt.mp hfull)

/-- The index is that of an entry, found or not, added or not. -/
theorem locate_inRange (clients : List ClientInfo) (a : SockaddrIn) :
    0 ≤ (locate clients a).2 ∧ (locate clients a).2 < (locate clients a).1.length := by
  unfold locate
  split
  · have hpos := length_addClient_pos clients a
    constructor <;> simp only <;> omega
  · rename_i hfound
    obtain ⟨i, hi, -, hindex⟩ :=
      findClient_of_known fun hnone => hfound (findClient_eq_neg_one_iff.mpr hnone)
    rw [hindex]
    constructor <;> simp only <;> omega

/-! ## the accesses of a run -/

/-- **Step lemma**: the accesses are in range, in whatever state, exactly if the datagram
leaves room for the NUL. -/
theorem inBounds_iff (s : Server) (r : Recv) : InBounds s r ↔ r.Short bufferSize := by
  cases r with
  | failed => rfl
  | got d =>
      have hlen : recvLen d < bufferSize ↔ d.payload.length < bufferSize := by
        rw [recvLen]
        omega
      have hindex := locate_inRange s.clients d.src
      exact ⟨fun h => hlen.mp h.recvLen_lt, fun h => ⟨hlen.mpr h, hindex.1, hindex.2⟩⟩

/-- **Array accesses**: in a run of any length every access is in range exactly if every
datagram is shorter than the buffer. -/
theorem accesses_inBounds_iff (secretNumber : Int) (buffer : Buf bufferSize) (rs : List Recv) :
    Along (iteration secretNumber) InBounds (Server.init buffer) rs ↔
      ∀ r ∈ rs, r.Short bufferSize := by
  have hcond : InBounds = fun _ r => r.Short bufferSize := by
    ext s r
    exact inBounds_iff s r
  rw [hcond, along_events_iff]

/-- The NUL of a datagram of 1024 bytes goes behind the buffer. -/
theorem full_datagram_out_of_bounds :
    ¬Along (iteration 7) InBounds (Server.init (Buf.zero bufferSize))
      [.got ⟨default, List.replicate 1024 49⟩] := by
  intro h
  have hshort : (List.replicate 1024 (49 : UInt8)).length < bufferSize :=
    (inBounds_iff _ (.got ⟨default, List.replicate 1024 49⟩)).mp h.1
  rw [List.length_replicate] at hshort
  exact Nat.lt_irrefl _ hshort

end Reti.Lottery
