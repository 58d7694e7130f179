import Reti.ChatUdp.Client
import Reti.Lib.Relay

/-!
# Reti.ChatUdp.Lossy

The struct-based chat over a network that loses datagrams and lets them overtake each other.
What arrives is not all and not in order, but it is still what the others have written, and
no line comes twice.
-/

namespace Reti.ChatUdp

open CStr Relay Transducer

/-- What the server tells its clients apart by. -/
abbrev Endpoint : Type := UInt32 × UInt16

/-- The address that the datagrams of a client come from. -/
def sockaddr (e : Endpoint) : SockaddrIn := ⟨2, e.2, e.1, 0⟩

theorem endpoint_sockaddr (e : Endpoint) : (sockaddr e).endpoint = e := rfl

/-- The struct that a datagram of its size is received as. -/
def ofPayload (payload : List UInt8) : Message := Message.zero.fill payload

theorem ofPayload_bytes (m : Message) : ofPayload m.mem.bytes = m := by
  have hbytes := Message.zero.bytes_fill_whole m.mem.length_eq
  have hmem : (Message.zero.fill m.mem.bytes).mem = m.mem := Buf.ext hbytes
  have hsender := congrArg Buf.left hmem
  have hcontent := congrArg Buf.right hmem
  simp only [Message.mem, Buf.left_append, Buf.right_append] at hsender hcontent
  exact Message.ext hsender hcontent

/-- The server passes a struct on. -/
def pass (s : Server) (author : Endpoint) (m : Message) : Server × List (Endpoint × Message) :=
  let served := iteration s (.got ⟨sockaddr author, m.mem.bytes⟩)
  (served.1, served.2.map fun p => (p.dst.endpoint, ofPayload p.text))

/-- No two clients have the same endpoint. -/
def Distinct (s : Server) : Prop := KeyTable.Keyed ClientInfo.endpoint s.clients

/-- What is passed on, and to whom. -/
theorem pass_snd (s : Server) (author : Endpoint) (m : Message) :
    (pass s author m).2 = ((register s.clients (sockaddr author)).filter fun c =>
      c.endpoint ≠ author).map fun c => (c.endpoint, m) := by
  have hmsg : (s.msgBuffer.fill m.mem.bytes).mem.bytes = m.mem.bytes :=
    s.msgBuffer.bytes_fill_whole m.mem.length_eq
  simp only [pass, iteration, forward, Server.received, Server.sender, List.map_map, hmsg,
    Function.comp_def, ofPayload_bytes, isClient_eq, endpoint_sockaddr]
  congr 1
  refine List.filter_congr fun c _ => ?_
  by_cases hc : c.addr.endpoint = author <;> simp [ClientInfo.endpoint, hc]

/-- **Step lemma**: a struct goes to each client once, and not back. -/
theorem fair_pass : Fair pass Distinct where
  inv s author m hs := by
    show KeyTable.Keyed _ (register s.clients (sockaddr author))
    rw [register_eq_join]
    exact KeyTable.keyed_join hs _ _
  once s author m k hs := by
    have hkeyed : KeyTable.Keyed ClientInfo.endpoint (register s.clients (sockaddr author)) := by
      rw [register_eq_join]
      exact KeyTable.keyed_join hs _ _
    rw [pass_snd]
    by_cases hk : author = k
    · have hnone : toReader k (((register s.clients (sockaddr author)).filter fun c =>
          c.endpoint ≠ author).map fun c => (c.endpoint, m)) = [] := by
        rw [toReader, List.filterMap_map, List.filterMap_eq_nil_iff]
        intro c hc
        have hne := of_decide_eq_true (List.mem_filter.mp hc).2
        simp [← hk, hne]
      rw [hnone]
      exact List.nil_sublist _
    · have hsingle : notFrom k [(author, m)] = [m] := by simp [notFrom, hk]
      rw [hsingle]
      exact toReader_sublist (hkeyed.sublist (List.filter_sublist.map _)) m k

/-- What a struct says, as it is shown. -/
def Message.shown (m : Message) : List UInt8 := ChatUdp.shown m.senderText m.contentText

/-- What the receiving process of a client prints for a struct. -/
def printed (c : Client) (m : Message) : List UInt8 := (c.receive (some m.mem.bytes)).2

theorem printed_eq (c : Client) (m : Message) : printed c m = m.shown := by
  have hbytes := c.msgBuffer.bytes_fill_whole m.mem.length_eq
  simp only [printed, Client.receive, Message.shown, Message.senderText, Message.contentText,
    hbytes]

end Reti.ChatUdp
