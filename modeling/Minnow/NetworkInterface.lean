import Minnow.Library.Deque
import Minnow.IPv4
import Minnow.Ethernet

/-! The network interface: it wraps datagrams into Ethernet frames, and asks with ARP for
the Ethernet addresses that it does not know. -/
namespace Minnow

open Library

structure ArpMappingNode where
  ipv4 : Address
  ethAddr : EthernetAddress
  timestamp : ℕ
  deriving DecidableEq

structure ArpRequestTimeNode where
  ipv4 : Address
  timestamp : ℕ
  deriving DecidableEq

/-- The pointers are references into the two queues of the interface. -/
structure ArpTableEntry where
  arpMappingNodePtr : Option ℕ := none
  arpRequestPtr : Option ℕ := none
  pendingIpDatagrams : List InternetDatagram := []
  deriving DecidableEq

/-- A key that `arp_table_` does not have is the same as one with the entry that `[]` makes. -/
structure NetworkInterface where
  ethernetAddress : EthernetAddress
  ipv4 : Address
  ethFramesToBeSent : List EthernetFrame
  arpMappingQueue : Deque ArpMappingNode
  arpRequestTimeQueue : Deque ArpRequestTimeNode
  arpTable : Address → ArpTableEntry
  timestamp : ℕ

namespace NetworkInterface

open EthernetHeader

def ArpTableEntryTimeoutMs : ℕ := 30000

def ArpRequestWaitingMs : ℕ := 5000

def new (ethernetAddress : EthernetAddress) (ipAddress : Address) : NetworkInterface where
  ethernetAddress := ethernetAddress
  ipv4 := ipAddress
  ethFramesToBeSent := []
  arpMappingQueue := Deque.empty
  arpRequestTimeQueue := Deque.empty
  arpTable := fun _ => {}
  timestamp := 0

/-- A method leaves a state behind also where it throws. -/
abbrev Result (α : Type) := Except Fault (NetworkInterface × Except RuntimeError α)

def emplaceFrame (s : NetworkInterface) (frame : EthernetFrame) : NetworkInterface :=
  { s with ethFramesToBeSent := s.ethFramesToBeSent ++ [frame] }

def setEntry (s : NetworkInterface) (ip : Address) (entry : ArpTableEntry) : NetworkInterface :=
  { s with arpTable := Function.update s.arpTable ip entry }

/-- Send the request `payload` and keep the datagram until it is answered. -/
def sendRequest (s : NetworkInterface) (dgram : InternetDatagram) (dstIp : Address)
    (payload : List Buffer) : NetworkInterface :=
  let entry := s.arpTable dstIp
  { s with
    ethFramesToBeSent := s.ethFramesToBeSent ++
      [EthernetFrame.broadcast s.ethernetAddress TYPE_ARP payload]
    arpRequestTimeQueue := s.arpRequestTimeQueue.pushBack ⟨dstIp,s.timestamp⟩
    arpTable := Function.update s.arpTable dstIp { entry with
      pendingIpDatagrams := entry.pendingIpDatagrams ++ [dgram]
      arpRequestPtr := some s.arpRequestTimeQueue.next } }

def sendDatagram (s : NetworkInterface) (dgram : InternetDatagram) (dstIp : Address) :
    Result Unit :=
  let entry := s.arpTable dstIp
  match entry.arpMappingNodePtr with
  | none =>
    match entry.arpRequestPtr with
    | none =>
      match (ARPMessage.request s.ethernetAddress s.ipv4 dstIp).serialized with
      | .error e => .ok (s,.error e)
      | .ok payload => .ok (s.sendRequest dgram dstIp payload,.ok ())
    -- nothing keeps the datagram here
    | some _ => .ok (s,.ok ())
  | some ptr =>
    match s.arpMappingQueue.deref ptr with
    | none => .error .outOfRange
    | some node =>
      match dgram.serialized with
      | .error e => .ok (s,.error e)
      | .ok payload =>
        .ok (s.emplaceFrame ⟨⟨node.ethAddr,s.ethernetAddress,TYPE_IPv4⟩,payload⟩,.ok ())

/-- The loop over the pending datagrams of `ip`. One that cannot be serialized ends it, and stays. -/
def sendPending (ip : Address) (ethAddr : EthernetAddress) :
    List InternetDatagram → NetworkInterface → NetworkInterface × Except RuntimeError Unit
  | [], s => (s,.ok ())
  | datagram::datagrams, s =>
    match datagram.serialized with
    | .error e => (s,.error e)
    | .ok payload =>
      let s := s.emplaceFrame ⟨⟨ethAddr,s.ethernetAddress,TYPE_IPv4⟩,payload⟩
      sendPending ip ethAddr datagrams
        (s.setEntry ip { s.arpTable ip with pendingIpDatagrams := datagrams })

/-- A mapping that is known already is not looked at again. -/
def learn (s : NetworkInterface) (ip : Address) (ethAddr : EthernetAddress) :
    NetworkInterface × Except RuntimeError Unit :=
  let entry := s.arpTable ip
  match entry.arpMappingNodePtr with
  | some _ => (s,.ok ())
  | none =>
    let s := { s with
      arpMappingQueue := s.arpMappingQueue.pushBack ⟨ip,ethAddr,s.timestamp⟩
      arpTable := Function.update s.arpTable ip
        { entry with arpMappingNodePtr := some s.arpMappingQueue.next } }
    sendPending ip ethAddr entry.pendingIpDatagrams s

def recvArp (s : NetworkInterface) (msg : ARPMessage) : Result (Option InternetDatagram) :=
  match s.learn msg.senderIpAddress msg.senderEthernetAddress with
  | (s,.error e) => .ok (s,.error e)
  | (s,.ok ()) =>
    if msg.opcode = ARPMessage.OPCODE_REQUEST then
      match (ARPMessage.reply s.ethernetAddress s.ipv4 msg.senderEthernetAddress
          msg.senderIpAddress).serialized with
      | .error e => .ok (s,.error e)
      | .ok payload =>
        .ok (s.emplaceFrame ⟨⟨msg.senderEthernetAddress,s.ethernetAddress,TYPE_ARP⟩,payload⟩,
          .ok none)
    else .ok (s,.ok none)

/-- Whether parsing found an error is not looked at. -/
def recvFrame (s : NetworkInterface) (frame : EthernetFrame) : Result (Option InternetDatagram) :=
  if frame.header.dst ≠ s.ethernetAddress ∧ frame.header.dst ≠ ETHERNET_BROADCAST then
    .ok (s,.ok none)
  else if frame.header.type = TYPE_IPv4 then
    match IPv4Datagram.parsed frame.payload with
    | .error (.fault f) => .error f
    | .error (.thrown e) => .ok (s,.error e)
    | .ok (ret,_) => .ok (s,.ok (some ret))
  else if frame.header.type = TYPE_ARP then
    match ARPMessage.parsed frame.payload with
    | .error (.fault f) => .error f
    | .error (.thrown e) => .ok (s,.error e)
    | .ok (msg,_) => if msg.targetIpAddress ≠ s.ipv4 then .ok (s,.ok none) else s.recvArp msg
  else .ok (s,.error ⟨"[NetworkInterface::recv_frame] Invalid Ethernet Type"⟩)

/-- Take the nodes from the front that are older than `timeoutMs`, and clear their pointers. -/
def expire {α : Type} (ipv4 : α → Address) (timestamp : α → ℕ) (timeoutMs now : ℕ)
    (clear : ArpTableEntry → ArpTableEntry) :
    List α → ℕ → (Address → ArpTableEntry) → Deque α × (Address → ArpTableEntry)
  | [], popped, table => (⟨popped,[]⟩,table)
  | node::nodes, popped, table =>
    if now < u64 (timestamp node + timeoutMs) then (⟨popped,node::nodes⟩,table)
    else expire ipv4 timestamp timeoutMs now clear nodes (popped + 1)
      (Function.update table (ipv4 node) (clear (table (ipv4 node))))

def expireMappings (now : ℕ) (q : Deque ArpMappingNode) (table : Address → ArpTableEntry) :
    Deque ArpMappingNode × (Address → ArpTableEntry) :=
  expire ArpMappingNode.ipv4 ArpMappingNode.timestamp ArpTableEntryTimeoutMs now
    (fun entry => { entry with arpMappingNodePtr := none }) q.nodes q.popped table

def expireRequests (now : ℕ) (q : Deque ArpRequestTimeNode) (table : Address → ArpTableEntry) :
    Deque ArpRequestTimeNode × (Address → ArpTableEntry) :=
  expire ArpRequestTimeNode.ipv4 ArpRequestTimeNode.timestamp ArpRequestWaitingMs now
    (fun entry => { entry with arpRequestPtr := none }) q.nodes q.popped table

def tick (s : NetworkInterface) (msSinceLastTick : ℕ) : NetworkInterface :=
  let now := u64 (s.timestamp + msSinceLastTick)
  let mappings := expireMappings now s.arpMappingQueue s.arpTable
  let requests := expireRequests now s.arpRequestTimeQueue mappings.2
  { s with
    timestamp := now
    arpMappingQueue := mappings.1
    arpRequestTimeQueue := requests.1
    arpTable := requests.2 }

def maybeSend (s : NetworkInterface) : NetworkInterface × Option EthernetFrame :=
  match s.ethFramesToBeSent with
  | [] => (s,none)
  | ret::frames => ({ s with ethFramesToBeSent := frames },some ret)

variable {s s' : NetworkInterface} {ip : Address} {eth : EthernetAddress}

/-- The frame from `src` to `dst` that carries the datagram. -/
def Carries (src dst : EthernetAddress) (dgram : InternetDatagram) (frame : EthernetFrame) : Prop :=
  ∃ payload, dgram.serialized = .ok payload ∧ frame = ⟨⟨dst,src,TYPE_IPv4⟩,payload⟩

/-- A loop over pending datagrams sends some of them; it stops at the first one that
cannot be serialized. -/
theorem sendPending_spec (ip : Address) (eth : EthernetAddress) (datagrams : List InternetDatagram)
    (s : NetworkInterface) (hp : (s.arpTable ip).pendingIpDatagrams = datagrams) :
    ∃ sent rest fs r, datagrams = sent ++ rest ∧
      List.Forall₂ (Carries s.ethernetAddress eth) sent fs ∧
      sendPending ip eth datagrams s = ({ s with
        ethFramesToBeSent := s.ethFramesToBeSent ++ fs
        arpTable := Function.update s.arpTable ip
          { s.arpTable ip with pendingIpDatagrams := rest } },r) ∧
      ((∀ d ∈ rest, d.header.ver = 4) → rest = [] ∧ r = .ok ()) := by
  induction datagrams generalizing s with
  | nil =>
    refine ⟨[],[],[],.ok (),rfl,.nil,?_,fun _ => ⟨rfl,rfl⟩⟩
    have hsame : { s.arpTable ip with pendingIpDatagrams := [] } = s.arpTable ip := by rw [← hp]
    rw [hsame,Function.update_eq_self,List.append_nil]
    rfl
  | cons datagram datagrams ih =>
    cases hser : datagram.serialized with
    | error e =>
      refine ⟨[],datagram::datagrams,[],.error e,rfl,.nil,?_,?_⟩
      · have hsame : { s.arpTable ip with pendingIpDatagrams := datagram::datagrams } =
            s.arpTable ip := by rw [← hp]
        rw [hsame,Function.update_eq_self,List.append_nil]
        simp only [sendPending,hser]
      · intro hall
        obtain ⟨rest,hrest⟩ := IPv4Datagram.serialized_eq (hall datagram List.mem_cons_self)
        rw [hser] at hrest
        cases hrest
    | ok payload =>
      let frame : EthernetFrame := ⟨⟨eth,s.ethernetAddress,TYPE_IPv4⟩,payload⟩
      let t := (s.emplaceFrame frame).setEntry ip
        { s.arpTable ip with pendingIpDatagrams := datagrams }
      have ht : (t.arpTable ip).pendingIpDatagrams = datagrams := by simp [t,setEntry]
      obtain ⟨sent,rest,fs,r,hsplit,hfs,hrun,hall⟩ := ih t ht
      refine ⟨datagram::sent,rest,frame::fs,r,by rw [hsplit,List.cons_append],
        .cons ⟨payload,hser,rfl⟩ hfs,?_,hall⟩
      have hstep : sendPending ip eth (datagram::datagrams) s = sendPending ip eth datagrams t := by
        simp only [sendPending,hser]
        rfl
      rw [hstep,hrun]
      simp [t,setEntry,emplaceFrame,frame]

/-- Learning a mapping sends what was pending, and nothing where the mapping is known. -/
theorem learn_spec (s : NetworkInterface) (ip : Address) (eth : EthernetAddress) :
    ((s.arpTable ip).arpMappingNodePtr ≠ none ∧ s.learn ip eth = (s,.ok ())) ∨
    ((s.arpTable ip).arpMappingNodePtr = none ∧ ∃ sent rest fs r,
      (s.arpTable ip).pendingIpDatagrams = sent ++ rest ∧
      List.Forall₂ (Carries s.ethernetAddress eth) sent fs ∧
      s.learn ip eth = ({ s with
        ethFramesToBeSent := s.ethFramesToBeSent ++ fs
        arpMappingQueue := s.arpMappingQueue.pushBack ⟨ip,eth,s.timestamp⟩
        arpTable := Function.update s.arpTable ip { s.arpTable ip with
          arpMappingNodePtr := some s.arpMappingQueue.next
          pendingIpDatagrams := rest } },r) ∧
      ((∀ d ∈ rest, d.header.ver = 4) → rest = [] ∧ r = .ok ())) := by
  cases hptr : (s.arpTable ip).arpMappingNodePtr with
  | some ptr =>
    refine Or.inl ⟨by simp,?_⟩
    simp only [learn,hptr]
  | none =>
    let t : NetworkInterface := { s with
      arpMappingQueue := s.arpMappingQueue.pushBack ⟨ip,eth,s.timestamp⟩
      arpTable := Function.update s.arpTable ip
        { s.arpTable ip with arpMappingNodePtr := some s.arpMappingQueue.next } }
    have ht : (t.arpTable ip).pendingIpDatagrams = (s.arpTable ip).pendingIpDatagrams := by
      simp [t]
    obtain ⟨sent,rest,fs,r,hsplit,hfs,hrun,hall⟩ := sendPending_spec ip eth _ t ht
    refine Or.inr ⟨rfl,sent,rest,fs,r,hsplit,hfs,?_,hall⟩
    have hlearn : s.learn ip eth =
        sendPending ip eth (s.arpTable ip).pendingIpDatagrams t := by
      simp only [learn,hptr]
      rfl
    rw [hlearn,hrun]
    simp [t]

theorem sendDatagram_request (d : InternetDatagram) (hptr : (s.arpTable ip).arpMappingNodePtr = none)
    (hreq : (s.arpTable ip).arpRequestPtr = none) : s.sendDatagram d ip =
      .ok (s.sendRequest d ip [(ARPMessage.request s.ethernetAddress s.ipv4 ip).bytes],.ok ()) := by
  have hser := ARPMessage.serialized_eq (ARPMessage.request_supported s.ethernetAddress s.ipv4 ip)
  simp only [sendDatagram,hptr,hreq,hser]

/-- What `send_datagram` can do: ask for the mapping, drop the datagram, send it, or throw. -/
theorem sendDatagram_cases {d : InternetDatagram} {r : Except RuntimeError Unit}
    (h : s.sendDatagram d ip = .ok (s',r)) :
    ((s.arpTable ip).arpMappingNodePtr = none ∧ (s.arpTable ip).arpRequestPtr = none ∧
      ∃ payload, s' = s.sendRequest d ip payload) ∨
    ((s.arpTable ip).arpMappingNodePtr = none ∧ (s.arpTable ip).arpRequestPtr ≠ none ∧ s' = s) ∨
    (∃ ptr node frame, (s.arpTable ip).arpMappingNodePtr = some ptr ∧
      s.arpMappingQueue.deref ptr = some node ∧
      Carries s.ethernetAddress node.ethAddr d frame ∧ s' = s.emplaceFrame frame) ∨
    ((s.arpTable ip).arpMappingNodePtr ≠ none ∧ d.header.ver ≠ 4 ∧ s' = s) := by
  cases hptr : (s.arpTable ip).arpMappingNodePtr with
  | none =>
    cases hreq : (s.arpTable ip).arpRequestPtr with
    | none =>
      rw [sendDatagram_request d hptr hreq] at h
      exact Or.inl ⟨rfl,rfl,_,(Prod.mk.inj (Except.ok.inj h)).1.symm⟩
    | some ptr =>
      simp only [sendDatagram,hptr,hreq,Except.ok.injEq,Prod.mk.injEq] at h
      exact Or.inr (Or.inl ⟨rfl,by simp,h.1.symm⟩)
  | some ptr =>
    cases hnode : s.arpMappingQueue.deref ptr with
    | none => simp [sendDatagram,hptr,hnode] at h
    | some node =>
      cases hser : d.serialized with
      | ok payload =>
        simp only [sendDatagram,hptr,hnode,hser,Except.ok.injEq,Prod.mk.injEq] at h
        exact Or.inr (Or.inr (Or.inl ⟨ptr,node,_,rfl,hnode,⟨payload,hser,rfl⟩,h.1.symm⟩))
      | error e =>
        simp only [sendDatagram,hptr,hnode,hser,Except.ok.injEq,Prod.mk.injEq] at h
        refine Or.inr (Or.inr (Or.inr ⟨by simp,?_,h.1.symm⟩))
        intro hver
        obtain ⟨rest,hrest⟩ := IPv4Datagram.serialized_eq hver
        rw [hser] at hrest
        cases hrest

/-- The ARP message of a frame, where the interface takes the frame and the message for its own. -/
def arpFor (s : NetworkInterface) (frame : EthernetFrame) : Option ARPMessage :=
  if frame.header.dst ≠ s.ethernetAddress ∧ frame.header.dst ≠ ETHERNET_BROADCAST then none
  else if frame.header.type = TYPE_ARP then
    match ARPMessage.parsed frame.payload with
    | .error _ => none
    | .ok (msg,_) => if msg.targetIpAddress ≠ s.ipv4 then none else some msg
  else none

theorem recvFrame_arp {frame : EthernetFrame} {msg : ARPMessage} (h : s.arpFor frame = some msg) :
    s.recvFrame frame = s.recvArp msg := by
  unfold arpFor at h
  split_ifs at h with hdst htype
  have hother : frame.header.type ≠ TYPE_IPv4 := by
    rw [htype]
    exact TYPE_ARP_ne
  split at h
  · cases h
  · rename_i m b hparsed
    split_ifs at h with htarget
    cases h
    rw [recvFrame,if_neg hdst,if_neg hother,if_pos htype,hparsed]
    simp [htarget]

theorem recvFrame_cases {frame : EthernetFrame} {r : Except RuntimeError (Option InternetDatagram)}
    (h : s.recvFrame frame = .ok (s',r)) :
    s' = s ∨ ∃ msg, s.arpFor frame = some msg ∧ s.recvArp msg = .ok (s',r) := by
  cases harp : s.arpFor frame with
  | some msg =>
    rw [recvFrame_arp harp] at h
    exact Or.inr ⟨msg,rfl,h⟩
  | none =>
    left
    unfold recvFrame at h
    split_ifs at h with hdst hip harptype
    · exact (Prod.mk.inj (Except.ok.inj h)).1.symm
    · split at h
      · cases h
      · exact (Prod.mk.inj (Except.ok.inj h)).1.symm
      · exact (Prod.mk.inj (Except.ok.inj h)).1.symm
    · split at h
      · cases h
      · exact (Prod.mk.inj (Except.ok.inj h)).1.symm
      · rename_i msg b hparsed
        split_ifs at h with htarget
        · exact (Prod.mk.inj (Except.ok.inj h)).1.symm
        · rw [arpFor,if_neg hdst,if_pos harptype,hparsed] at harp
          simp [htarget] at harp
    · exact (Prod.mk.inj (Except.ok.inj h)).1.symm

/-- An ARP message teaches its sender's address, and is answered with ARP frames only. -/
theorem recvArp_spec (s : NetworkInterface) (msg : ARPMessage) :
    ∃ replies r, s.recvArp msg = .ok ({ (s.learn msg.senderIpAddress
        msg.senderEthernetAddress).1 with
      ethFramesToBeSent := (s.learn msg.senderIpAddress
        msg.senderEthernetAddress).1.ethFramesToBeSent ++ replies },r) ∧
      ∀ f ∈ replies, f.header.type = TYPE_ARP ∧ f.requestFor = none := by
  have hreply := fun t : NetworkInterface => ARPMessage.serialized_eq
    (ARPMessage.reply_supported t.ethernetAddress t.ipv4 msg.senderEthernetAddress
      msg.senderIpAddress)
  cases hlearn : s.learn msg.senderIpAddress msg.senderEthernetAddress with
  | mk t r =>
    cases r with
    | error e => exact ⟨[],.error e,by simp [recvArp,hlearn],by simp⟩
    | ok u =>
      by_cases hop : msg.opcode = ARPMessage.OPCODE_REQUEST
      · let frame : EthernetFrame := ⟨⟨msg.senderEthernetAddress,t.ethernetAddress,TYPE_ARP⟩,
          [(ARPMessage.reply t.ethernetAddress t.ipv4 msg.senderEthernetAddress
            msg.senderIpAddress).bytes]⟩
        refine ⟨[frame],.ok none,?_,?_⟩
        · simp only [recvArp,hlearn,if_pos hop,hreply t]
          rfl
        · intro f hf
          rw [List.mem_singleton.mp hf]
          exact ⟨rfl,EthernetFrame.requestFor_reply t.ethernetAddress t.ipv4 _ _⟩
      · exact ⟨[],.ok none,by simp [recvArp,hlearn,hop],by simp⟩

theorem recvArp_none {msg : ARPMessage} {d : InternetDatagram}
    (h : s.recvArp msg = .ok (s',.ok (some d))) : False := by
  unfold recvArp at h
  split at h
  · cases h
  · split_ifs at h
    · split at h <;> cases h
    · cases h

theorem recvFrame_some {frame : EthernetFrame} {d : InternetDatagram}
    (h : s.recvFrame frame = .ok (s',.ok (some d))) :
    frame.header.type = TYPE_IPv4 ∧ ∃ ok, IPv4Datagram.parsed frame.payload = .ok (d,ok) := by
  unfold recvFrame at h
  split_ifs at h with hdst hip harp
  · cases h
  · split at h
    · cases h
    · cases h
    · rename_i ret ok hparsed
      cases h
      exact ⟨hip,ok,hparsed⟩
  · split at h
    · cases h
    · cases h
    · split_ifs at h
      · cases h
      · exact (recvArp_none h).elim
  · cases h

/-- The payload is what the type of the frame says. -/
def WellFormed (frame : EthernetFrame) : Prop :=
  (frame.header.type = TYPE_IPv4 ∧ ∃ d, IPv4Datagram.parsed frame.payload = .ok (d,true)) ∨
    frame.header.type = TYPE_ARP ∧ ∃ msg, ARPMessage.parsed frame.payload = .ok (msg,true)

theorem recvFrame_accepted {frame : EthernetFrame} {d : InternetDatagram}
    (h : s.recvFrame frame = .ok (s',.ok (some d))) (hwell : WellFormed frame) :
    IPv4Datagram.parsed frame.payload = .ok (d,true) := by
  obtain ⟨htype,ok,hparsed⟩ := recvFrame_some h
  rcases hwell with ⟨-,d',hd⟩ | ⟨harp,-⟩
  · obtain ⟨rfl,-⟩ := Prod.mk.inj (Except.ok.inj (hparsed.symm.trans hd))
    exact hd
  · exact absurd (harp.symm.trans htype) TYPE_ARP_ne

theorem recvFrame_ipv4 {frame : EthernetFrame}
    (hdst : frame.header.dst = s.ethernetAddress ∨ frame.header.dst = ETHERNET_BROADCAST)
    (htype : frame.header.type = TYPE_IPv4) : s.recvFrame frame ≠ .ok (s',.ok none) := by
  rw [recvFrame,if_neg (by tauto),if_pos htype]
  split
  · simp
  · simp
  · simp

/-- Of the malformed payloads those of ARP are dropped, and those of IPv4 never. -/
theorem malformed_dropped_iff {frame : EthernetFrame} (hip : s.ipv4 ≠ 0)
    (hdst : frame.header.dst = s.ethernetAddress ∨ frame.header.dst = ETHERNET_BROADCAST)
    (htype : frame.header.type = TYPE_IPv4 ∨ frame.header.type = TYPE_ARP)
    (hpayload : ∀ b ∈ frame.payload, b ≠ []) (hbad : ¬ WellFormed frame) :
    s.recvFrame frame = .ok (s,.ok none) ↔ frame.header.type = TYPE_ARP := by
  constructor
  · intro hrecv
    refine htype.resolve_left fun hipv4 => ?_
    exact recvFrame_ipv4 hdst hipv4 hrecv
  · intro harp
    have hother : frame.header.type ≠ TYPE_IPv4 := by
      rw [harp]
      exact TYPE_ARP_ne
    obtain ⟨msg,ok,hparsed,htarget⟩ := ARPMessage.parsed_live hpayload
    have hok : ok = false := by
      cases ok with
      | false => rfl
      | true => exact absurd (Or.inr ⟨harp,msg,hparsed⟩) hbad
    -- the message was made fresh, so its target is still zero
    have hforeign : msg.targetIpAddress ≠ s.ipv4 := by
      rw [htarget hok]
      exact hip.symm
    rw [recvFrame,if_neg (by tauto),if_neg hother,if_pos harp,hparsed]
    simp [hforeign]

theorem malformed_dropped_iff_short : (new ETHERNET_BROADCAST 7).recvFrame
    ⟨⟨ETHERNET_BROADCAST,ETHERNET_BROADCAST,TYPE_ARP⟩,[[0,1,8,0,6,4,0,2]]⟩ =
      .ok (new ETHERNET_BROADCAST 7,.ok none) := by
  have hbad : ¬ WellFormed ⟨⟨ETHERNET_BROADCAST,ETHERNET_BROADCAST,TYPE_ARP⟩,
      [[0,1,8,0,6,4,0,2]]⟩ := by
    have hparsed : ARPMessage.parsed [[0,1,8,0,6,4,0,2]] =
      .ok ({ opcode := ARPMessage.OPCODE_REPLY },false) := by decide +kernel
    rintro (⟨htype,-⟩ | ⟨-,msg,hmsg⟩)
    · exact TYPE_ARP_ne htype
    · rw [hparsed] at hmsg
      cases hmsg
  exact (malformed_dropped_iff (by decide) (Or.inl rfl) (Or.inr rfl) (by decide) hbad).mpr rfl

theorem not_wellFormed {frame : EthernetFrame} (htype : frame.header.type = TYPE_IPv4)
    (h : ∀ d, IPv4Datagram.parsed frame.payload ≠ .ok (d,true)) : ¬ WellFormed frame := by
  rintro (⟨-,d,hd⟩ | ⟨harp,-⟩)
  · exact h d hd
  · exact TYPE_ARP_ne (harp.symm.trans htype)

/-- No payload at all ends with an exception, and a wrong checksum with a datagram. -/
theorem malformed_not_dropped :
    (∃ frame, frame.header.dst = ETHERNET_BROADCAST ∧ frame.header.type = TYPE_IPv4 ∧
      frame.payload = [] ∧ ¬ WellFormed frame ∧ (new ETHERNET_BROADCAST 7).recvFrame frame =
        .ok (new ETHERNET_BROADCAST 7,.error ⟨"wrong IP version"⟩)) ∧
    ∃ frame d, frame.header.dst = ETHERNET_BROADCAST ∧ frame.header.type = TYPE_IPv4 ∧
      (∀ b ∈ frame.payload, b ≠ []) ∧ ¬ WellFormed frame ∧
      (new ETHERNET_BROADCAST 7).recvFrame frame =
        .ok (new ETHERNET_BROADCAST 7,.ok (some d)) := by
  constructor
  · have hparsed : IPv4Datagram.parsed [] = .error (.thrown ⟨"wrong IP version"⟩) := by
      decide +kernel
    refine ⟨⟨⟨ETHERNET_BROADCAST,ETHERNET_BROADCAST,TYPE_IPv4⟩,[]⟩,rfl,rfl,rfl,?_,?_⟩
    · exact not_wellFormed rfl (by simp [hparsed])
    · simp [recvFrame,hparsed]
  · have hparsed : IPv4Datagram.parsed [[0x45,0,0,20,0,0,0,0,64,6,0,0,10,0,0,1,10,0,0,2]] =
        .ok (⟨⟨4,5,0,20,0,false,false,0,64,6,0x66e2,0x0a000001,0x0a000002⟩,[]⟩,false) := by
      decide +kernel
    refine ⟨⟨⟨ETHERNET_BROADCAST,ETHERNET_BROADCAST,TYPE_IPv4⟩,
      [[0x45,0,0,20,0,0,0,0,64,6,0,0,10,0,0,1,10,0,0,2]]⟩,
      ⟨⟨4,5,0,20,0,false,false,0,64,6,0x66e2,0x0a000001,0x0a000002⟩,[]⟩,rfl,rfl,by simp,?_,?_⟩
    · exact not_wellFormed rfl (by simp [hparsed])
    · simp [recvFrame,hparsed]

/-- Each pointer of the table refers to the node of its own key, and each node has its pointer. -/
structure WF (s : NetworkInterface) : Prop where
  mappings : Indexes ArpMappingNode.ipv4 s.arpMappingQueue
    fun ip => (s.arpTable ip).arpMappingNodePtr
  requests : Indexes ArpRequestTimeNode.ipv4 s.arpRequestTimeQueue
    fun ip => (s.arpTable ip).arpRequestPtr

theorem read_update {β : Type} (get : ArpTableEntry → β) (table : Address → ArpTableEntry)
    (ip : Address) (entry : ArpTableEntry) :
    (fun k => get (Function.update table ip entry k)) =
      Function.update (fun k => get (table k)) ip (get entry) :=
  Function.comp_update get table ip entry

theorem new_wf (eth : EthernetAddress) (ip : Address) : (new eth ip).WF :=
  ⟨Indexes.empty _,Indexes.empty _⟩

theorem WF.sendRequest (h : s.WF) (d : InternetDatagram) {payload : List Buffer}
    (hreq : (s.arpTable ip).arpRequestPtr = none) : (s.sendRequest d ip payload).WF := by
  constructor
  · simp only [NetworkInterface.sendRequest]
    rw [read_update ArpTableEntry.arpMappingNodePtr,Function.update_eq_self]
    exact h.mappings
  · simp only [NetworkInterface.sendRequest]
    rw [read_update ArpTableEntry.arpRequestPtr]
    exact h.requests.pushBack ⟨ip,s.timestamp⟩ hreq

theorem WF.sendDatagram (h : s.WF) {d : InternetDatagram} {r : Except RuntimeError Unit}
    (hs : s.sendDatagram d ip = .ok (s',r)) : s'.WF := by
  rcases sendDatagram_cases hs with
    ⟨-,hreq,payload,rfl⟩ | ⟨-,-,rfl⟩ | ⟨_,_,frame,-,-,-,rfl⟩ | ⟨-,-,rfl⟩
  · exact h.sendRequest d hreq
  · exact h
  · exact ⟨h.mappings,h.requests⟩
  · exact h

theorem WF.learn (h : s.WF) (ip : Address) (eth : EthernetAddress) : (s.learn ip eth).1.WF := by
  rcases learn_spec s ip eth with ⟨-,hsame⟩ | ⟨hptr,sent,rest,fs,r,-,-,hlearn,-⟩
  · rw [hsame]
    exact h
  · rw [hlearn]
    constructor
    · simp only
      rw [read_update ArpTableEntry.arpMappingNodePtr]
      exact h.mappings.pushBack ⟨ip,eth,s.timestamp⟩ hptr
    · simp only
      rw [read_update ArpTableEntry.arpRequestPtr,Function.update_eq_self]
      exact h.requests

theorem WF.recvFrame (h : s.WF) {frame : EthernetFrame}
    {r : Except RuntimeError (Option InternetDatagram)} (hs : s.recvFrame frame = .ok (s',r)) :
    s'.WF := by
  rcases recvFrame_cases hs with rfl | ⟨msg,-,harp⟩
  · exact h
  · obtain ⟨replies,r',hrecv,-⟩ := recvArp_spec s msg
    obtain ⟨rfl,-⟩ := Prod.mk.inj (Except.ok.inj (harp.symm.trans hrecv))
    have hlearn := h.learn msg.senderIpAddress msg.senderEthernetAddress
    exact ⟨hlearn.mappings,hlearn.requests⟩

section expire

variable {α β : Type} {ipv4 : α → Address} {timestamp : α → ℕ} {timeoutMs now : ℕ}
  {clear : ArpTableEntry → ArpTableEntry}

theorem expire_indexes (ref : ArpTableEntry → Option ℕ) (hclear : ∀ e, ref (clear e) = none)
    (nodes : List α) (popped : ℕ) (table : Address → ArpTableEntry)
    (h : Indexes ipv4 ⟨popped,nodes⟩ fun ip => ref (table ip)) :
    Indexes ipv4 (expire ipv4 timestamp timeoutMs now clear nodes popped table).1
      fun ip => ref ((expire ipv4 timestamp timeoutMs now clear nodes popped table).2 ip) := by
  induction nodes generalizing popped table with
  | nil => exact h
  | cons node nodes ih =>
    rw [expire]
    split_ifs
    · exact h
    · apply ih
      rw [read_update ref,hclear]
      exact h.popFront rfl

theorem expire_read (get : ArpTableEntry → β) (hclear : ∀ e, get (clear e) = get e)
    (nodes : List α) (popped : ℕ) (table : Address → ArpTableEntry) (ip : Address) :
    get ((expire ipv4 timestamp timeoutMs now clear nodes popped table).2 ip) =
      get (table ip) := by
  induction nodes generalizing popped table with
  | nil => rfl
  | cons node nodes ih =>
    rw [expire]
    split_ifs
    · rfl
    · rw [ih]
      by_cases hip : ip = ipv4 node
      · rw [hip,Function.update_self,hclear]
      · rw [Function.update_of_ne hip]

theorem expire_none (ref : ArpTableEntry → Option ℕ) (hclear : ∀ e, ref (clear e) = none)
    (nodes : List α) (popped : ℕ) (table : Address → ArpTableEntry) {ip : Address}
    (h : ref (table ip) = none) :
    ref ((expire ipv4 timestamp timeoutMs now clear nodes popped table).2 ip) = none := by
  induction nodes generalizing popped table with
  | nil => exact h
  | cons node nodes ih =>
    rw [expire]
    split_ifs
    · exact h
    · apply ih
      by_cases hip : ip = ipv4 node
      · rw [hip,Function.update_self,hclear]
      · rw [Function.update_of_ne hip,h]

theorem expireMappings_read (get : ArpTableEntry → β)
    (hget : ∀ e : ArpTableEntry, get { e with arpMappingNodePtr := none } = get e)
    (now : ℕ) (q : Deque ArpMappingNode) (table : Address → ArpTableEntry) (ip : Address) :
    get ((expireMappings now q table).2 ip) = get (table ip) :=
  expire_read get hget q.nodes q.popped table ip

theorem expireRequests_read (get : ArpTableEntry → β)
    (hget : ∀ e : ArpTableEntry, get { e with arpRequestPtr := none } = get e)
    (now : ℕ) (q : Deque ArpRequestTimeNode) (table : Address → ArpTableEntry) (ip : Address) :
    get ((expireRequests now q table).2 ip) = get (table ip) :=
  expire_read get hget q.nodes q.popped table ip

end expire

@[simp] theorem tick_pending (s : NetworkInterface) (ms : ℕ) (ip : Address) :
    ((s.tick ms).arpTable ip).pendingIpDatagrams = (s.arpTable ip).pendingIpDatagrams := by
  rw [tick,expireRequests_read ArpTableEntry.pendingIpDatagrams fun _ => rfl,
    expireMappings_read ArpTableEntry.pendingIpDatagrams fun _ => rfl]

@[simp] theorem tick_frames (s : NetworkInterface) (ms : ℕ) :
    (s.tick ms).ethFramesToBeSent = s.ethFramesToBeSent := rfl

theorem tick_mapping (s : NetworkInterface) (ms : ℕ)
    (h : (s.arpTable ip).arpMappingNodePtr = none) :
    ((s.tick ms).arpTable ip).arpMappingNodePtr = none := by
  rw [tick,expireRequests_read ArpTableEntry.arpMappingNodePtr fun _ => rfl]
  exact expire_none ArpTableEntry.arpMappingNodePtr (fun _ => rfl) _ _ _ h

theorem WF.tick (h : s.WF) (ms : ℕ) : (s.tick ms).WF := by
  let now := u64 (s.timestamp + ms)
  let mappings := expireMappings now s.arpMappingQueue s.arpTable
  have hmappings : Indexes ArpMappingNode.ipv4 mappings.1
      fun ip => (mappings.2 ip).arpMappingNodePtr :=
    expire_indexes ArpTableEntry.arpMappingNodePtr (fun _ => rfl) _ _ _ h.mappings
  have hrequests : Indexes ArpRequestTimeNode.ipv4 s.arpRequestTimeQueue
      fun ip => (mappings.2 ip).arpRequestPtr := by
    rw [funext fun ip => expireMappings_read ArpTableEntry.arpRequestPtr (fun _ => rfl) now
      s.arpMappingQueue s.arpTable ip]
    exact h.requests
  constructor
  · change Indexes _ mappings.1 fun ip =>
      ((expireRequests now s.arpRequestTimeQueue mappings.2).2 ip).arpMappingNodePtr
    rw [funext fun ip => expireRequests_read ArpTableEntry.arpMappingNodePtr (fun _ => rfl) now
      s.arpRequestTimeQueue mappings.2 ip]
    exact hmappings
  · exact expire_indexes ArpTableEntry.arpRequestPtr (fun _ => rfl) _ _ _ hrequests

@[simp] theorem maybeSend_arpTable (s : NetworkInterface) : s.maybeSend.1.arpTable = s.arpTable := by
  unfold maybeSend
  split <;> rfl

theorem WF.maybeSend (h : s.WF) : s.maybeSend.1.WF := by
  unfold NetworkInterface.maybeSend
  split
  · exact h
  · exact ⟨h.mappings,h.requests⟩

end NetworkInterface
end Minnow
