import Reti.TwoWayChat.Server

/-!
# Reti.TwoWayChat.Broadcast

Whom the broadcaster sends to.  Only the first cell of `sockfd_arr` starts as -1,
so only the first client is ever stored, and the zeros after it are taken for
descriptors: every line goes to the first client once and to descriptor 0 for every
other cell.
-/

namespace Reti.TwoWayChat

open CStr Transducer

variable (format : Buf bufferSize → Buf bufferSize)

/-! ## the array -/

/-- The array once the first client has been stored. -/
def stored (connfd : Int) : List Int := connfd :: List.replicate (maxClients - 1) 0

/-- What holds between two steps: no client has come yet and the array is as it was,
or the broadcaster, if it could be forked, has the first client in its copy. -/
structure Inv (s : Sys) : Prop where
  fresh : s.initialized = false → s.sockfdArr = Sys.init.sockfdArr ∧ s.clients = []
  first : ∀ b, s.broadcaster = some b → 0 < b.connfd ∧ b.client = 0 ∧ b.sockfdArr = stored b.connfd

theorem inv_init : Inv Sys.init where
  fresh _ := ⟨rfl, rfl⟩
  first b hb := by cases hb

/-- Clients may leave, and the pipe may hold anything. -/
theorem Inv.of_clients {s : Sys} (hs : Inv s) {clients : List Client}
    (hclients : s.clients = [] → clients = []) (pipe : List UInt8) :
    Inv { s with clients := clients, pipe := pipe } where
  fresh h := ⟨(hs.fresh h).1, hclients (hs.fresh h).2⟩
  first := hs.first

theorem leave_nil (i : Nat) : leave [] i = [] := by simp [leave]

/-- A client is accepted: if it is the first one, the broadcaster has it in its copy. -/
theorem inv_accept {s : Sys} (hs : Inv s) {connfd : Int} (hfd : 0 < connfd)
    (broadcasterForked childForked : Bool) :
    Inv (step format s (.accept connfd broadcasterForked childForked)).1 := by
  constructor
  · intro h
    cases h
  · show ∀ b, (if s.initialized then s.broadcaster
      else if broadcasterForked then
        some ⟨s.sockfdArr.replace (-1) connfd, connfd, s.clients.length⟩
      else none) = some b → _
    intro b hb
    by_cases hi : s.initialized = true
    · rw [if_pos hi] at hb
      exact hs.first b hb
    · obtain ⟨harr, hclients⟩ := hs.fresh (by simpa using hi)
      rw [if_neg hi] at hb
      by_cases hf : broadcasterForked = true
      · rw [if_pos hf, harr, hclients] at hb
        obtain rfl := Option.some.inj hb
        have hstored : Sys.init.sockfdArr.replace (-1) connfd = stored connfd :=
          List.replace_cons_self
        exact ⟨hfd, rfl, hstored⟩
      · rw [if_neg hf] at hb
        cases hb

/-- **Step lemma**: a step keeps the array of the broadcaster. -/
theorem inv_step {s : Sys} (hs : Inv s) {e : Event} (he : Enabled s e) :
    Inv (step format s e).1 := by
  cases e with
  | accept connfd broadcasterForked childForked =>
      exact inv_accept format hs he broadcasterForked childForked
  | recv i ret =>
      cases ret with
      | error => exact hs
      | closed => exact hs.of_clients (fun h => by rw [h, leave_nil]) s.pipe
      | data chunk =>
          refine hs.of_clients (fun h => ?_) (s.pipe ++ line chunk)
          rw [h, leave_nil, ite_self]
  | read n => exact hs.of_clients id (s.pipe.drop n)

/-- **Run lemma**. -/
theorem inv_run {es : List Event} (hes : Along (step format) Enabled Sys.init es) :
    Inv (run (step format) Sys.init es).1 := by
  have hstep : ∀ s e, Inv s → Enabled s e → Inv (step format s e).1 := fun _ _ hs he =>
    inv_step format hs he
  exact run_inv hstep inv_init hes

/-! ## the sends -/

theorem fd_broadcastLoop (buffer : Buf bufferSize) (fds : List Int) :
    (broadcastLoop format buffer fds).map Sent.fd = fds.filter fun fd => fd ≠ -1 := by
  induction fds generalizing buffer with
  | nil => rfl
  | cons fd fds ih =>
      rw [broadcastLoop]
      by_cases hfd : fd = -1
      · rw [if_pos hfd, ih, List.filter_cons_of_neg (by simpa using hfd)]
      · rw [if_neg hfd, List.map_cons, ih, List.filter_cons_of_pos (by simpa using hfd)]

/-- A line goes to the first client's descriptor and, for every cell after the
first, to descriptor 0. -/
theorem fd_broadcast {s : Sys} (hs : Inv s) {b : Broadcaster} (hb : s.broadcaster = some b)
    (n : Nat) : (s.broadcast format n).map Sent.fd = stored b.connfd := by
  obtain ⟨hpos, -, harr⟩ := hs.first b hb
  have hne : b.connfd ≠ -1 := by omega
  simp only [Sys.broadcast, hb]
  rw [fd_broadcastLoop, harr, List.filter_eq_self]
  intro fd hfd
  cases List.mem_cons.mp hfd with
  | inl h => simpa [h] using hne
  | inr h => simp [List.eq_of_mem_replicate h]

/-- The clients that a line reaches: the first one, once. -/
theorem reached_broadcast {s : Sys} (hs : Inv s) {b : Broadcaster} (hb : s.broadcaster = some b)
    (n : Nat) : (s.broadcast format n).filterMap (fun p => b.clientOf p.fd) = [0] := by
  obtain ⟨hpos, hclient, -⟩ := hs.first b hb
  have hzero : b.clientOf 0 = none := if_neg (by omega)
  have hfirst : b.clientOf b.connfd = some 0 := by rw [Broadcaster.clientOf, if_pos rfl, hclient]
  have hmap : (s.broadcast format n).filterMap (fun p => b.clientOf p.fd) =
      ((s.broadcast format n).map Sent.fd).filterMap b.clientOf := by
    rw [List.filterMap_map]
    rfl
  rw [hmap, fd_broadcast format hs hb, stored, List.filterMap_cons_some hfirst]
  simp [hzero]

/-! ## delivery -/

/-- What the clients are to get of a line. -/
def message (line : List UInt8) : List UInt8 := ascii "MESSAGE: " ++ line ++ [newline]

/-- A line is delivered: it is sent to descriptors of clients only, and to every
client that is connected exactly once, as `MESSAGE: <line>`. -/
structure Delivered (s : Sys) (b : Broadcaster) (line : List UInt8) (sends : List Sent) : Prop where
  only : ∀ p ∈ sends, ∃ i c, s.clients[i]? = some c ∧ b.clientOf p.fd = some i
  once : ∀ i c, s.clients[i]? = some c → c.connected = true →
    (sends.filter fun p => b.clientOf p.fd = some i).map (fun p => cstr p.block) = [message line]

/-- **Broadcast**: no line that the broadcaster reads is delivered, in any run, what
ever `snprintf` makes of the buffer.  It reaches the first client and nobody else,
and it is sent to descriptor 0, which is no client's. -/
theorem never_delivered {es : List Event} (hes : Along (step format) Enabled Sys.init es) {n : Nat}
    (hn : Enabled (run (step format) Sys.init es).1 (.read n)) :
    let s := (run (step format) Sys.init es).1
    ∃ b, s.broadcaster = some b ∧
      (s.broadcast format n).filterMap (fun p => b.clientOf p.fd) = [0] ∧
      ¬Delivered s b (s.readBuffer n).text (s.broadcast format n) := by
  intro s
  have hs : Inv s := inv_run format hes
  obtain ⟨b, hb⟩ := Option.ne_none_iff_exists'.mp hn.1
  have hpos := (hs.first b hb).1
  have hmem : (0 : Int) ∈ (s.broadcast format n).map Sent.fd := by
    rw [fd_broadcast format hs hb, stored]
    exact List.mem_cons_of_mem _ (by decide)
  refine ⟨b, hb, reached_broadcast format hs hb n, fun hd => ?_⟩
  obtain ⟨p, hp, hfd⟩ := List.mem_map.mp hmem
  obtain ⟨i, c, -, hi⟩ := hd.only p hp
  rw [hfd, Broadcaster.clientOf, if_neg (by omega)] at hi
  cases hi

/-- `snprintf` as the program means it. -/
def intended (buffer : Buf bufferSize) : Buf bufferSize :=
  (Buf.zero bufferSize).fill (message buffer.text)

/-- Two clients have come; the first one's line is about to be read. -/
def twoClients : List Event :=
  [.accept 5 true true, .accept 5 false true, .recv 0 (.data (ascii "ciao\n"))]

theorem never_delivered_two :
    let s := (run (step intended) Sys.init twoClients).1
    ∃ b, s.broadcaster = some b ∧
      (s.broadcast intended 4).filterMap (fun p => b.clientOf p.fd) = [0] ∧
      ¬Delivered s b (s.readBuffer 4).text (s.broadcast intended 4) :=
  @never_delivered intended twoClients (by decide +kernel) 4 (by decide +kernel)

/-- The line goes to the first client and 99 times to descriptor 0; the second client
gets nothing. -/
theorem second_client_hears_nothing :
    let s := (run (step intended) Sys.init twoClients).1
    s.broadcaster = some ⟨stored 5, 5, 0⟩ ∧ (s.readBuffer 4).text = ascii "ciao" ∧
      (s.broadcast intended 4).map Sent.fd = 5 :: List.replicate 99 0 ∧
      s.clients[1]? = some ⟨5, true⟩ ∧
      ¬Delivered s ⟨stored 5, 5, 0⟩ (ascii "ciao") (s.broadcast intended 4) := by
  intro s
  refine ⟨by decide +kernel, by decide +kernel, by decide +kernel, by decide +kernel, fun hd => ?_⟩
  have hnone : (s.broadcast intended 4).filter
      (fun p => (Broadcaster.mk (stored 5) 5 0).clientOf p.fd = some 1) = [] := by
    decide +kernel
  have honce := hd.once 1 ⟨5, true⟩ (by decide +kernel) rfl
  rw [hnone] at honce
  cases honce

end Reti.TwoWayChat
