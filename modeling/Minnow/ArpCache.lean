import Minnow.Library.Expiry
import Minnow.InterfaceRuns

/-! The ARP cache over runs: both queues are sorted, the table refers to exactly the nodes
that are there, and no node is older than its timeout. -/
namespace Minnow
namespace NetworkInterface

open Library

theorem expire_nodes {α : Type} (ipv4 : α → Address) (timestamp : α → ℕ) (timeoutMs now : ℕ)
    (clear : ArpTableEntry → ArpTableEntry) (nodes : List α) (popped : ℕ)
    (table : Address → ArpTableEntry) :
    (expire ipv4 timestamp timeoutMs now clear nodes popped table).1.nodes =
      nodes.dropWhile fun node => !decide (now < u64 (timestamp node + timeoutMs)) := by
  induction nodes generalizing popped table with
  | nil => rfl
  | cons node nodes ih =>
    rw [expire,List.dropWhile_cons]
    by_cases hyoung : now < u64 (timestamp node + timeoutMs)
    · simp [hyoung]
    · simp [hyoung,ih]

/-- What `expire` leaves is young, also where the sum wraps around. -/
theorem young_of_expired {α : Type} {timestamp : α → ℕ} {timeoutMs now : ℕ} (node : α)
    (h : (!decide (now < u64 (timestamp node + timeoutMs))) = false) :
    now < timestamp node + timeoutMs := by
  have hle : u64 (timestamp node + timeoutMs) ≤ timestamp node + timeoutMs := Nat.mod_le _ _
  simp only [Bool.not_eq_false',decide_eq_true_eq] at h
  omega

def unexpired {α : Type} (timestamp : α → ℕ) (timeoutMs now : ℕ) (nodes : List α) : List α :=
  nodes.dropWhile fun node => !decide (now < u64 (timestamp node + timeoutMs))

variable {s : NetworkInterface} {ms : ℕ}

theorem tick_timestamp (hno : s.timestamp + ms < 2^64) :
    (s.tick ms).timestamp = s.timestamp + ms := u64_of_lt hno

theorem tick_mappings (hno : s.timestamp + ms < 2^64) : (s.tick ms).arpMappingQueue.nodes =
    unexpired ArpMappingNode.timestamp ArpTableEntryTimeoutMs (s.timestamp + ms)
      s.arpMappingQueue.nodes := by
  rw [tick,u64_of_lt hno]
  exact expire_nodes _ _ _ _ _ _ _ _

theorem tick_requests (hno : s.timestamp + ms < 2^64) : (s.tick ms).arpRequestTimeQueue.nodes =
    unexpired ArpRequestTimeNode.timestamp ArpRequestWaitingMs (s.timestamp + ms)
      s.arpRequestTimeQueue.nodes := by
  rw [tick,u64_of_lt hno]
  exact expire_nodes _ _ _ _ _ _ _ _

end NetworkInterface

namespace InterfaceRuns

open Library NetworkInterface EthernetHeader

variable {tr : Trace} {s s' : NetworkInterface} {ip : Address} {op : Op}
  {out : Option EthernetFrame}

abbrev Call := Event NetworkInterface Op (Option EthernetFrame)

def ticks (e : Call) : ℕ :=
  match e.op with
  | .tick ms => ms
  | _ => 0

def queued (s : NetworkInterface) (op : Op) : List EthernetFrame :=
  match step s op with
  | .error _ => []
  | .ok (s',_) => s'.ethFramesToBeSent.drop s.ethFramesToBeSent.length

def hop (s : NetworkInterface) : Op → Option Address
  | .sendDatagram _ nextHop => some nextHop
  | .recvFrame frame => (s.arpFor frame).map ARPMessage.senderIpAddress
  | _ => none

/-- The call receives an ARP message for the interface with the mapping `k` of its sender, and has no
mapping for it. -/
def Stores (k : Address × EthernetAddress) (e : Call) : Prop :=
  ∃ frame msg, e.op = .recvFrame frame ∧ e.before.arpFor frame = some msg ∧
    (e.before.arpTable msg.senderIpAddress).arpMappingNodePtr = none ∧
    k = (msg.senderIpAddress,msg.senderEthernetAddress)

def Requests (ip : Address) (e : Call) : Prop :=
  ∃ f ∈ queued e.before e.op, f.requestFor = some ip

/-- The clock does not go past 64 bits. -/
def NoOverflow (s : NetworkInterface) : Op → Prop
  | .tick ms => s.timestamp + ms < 2^64
  | _ => True

instance (s : NetworkInterface) (op : Op) : Decidable (NoOverflow s op) :=
  match op with
  | .sendDatagram _ _ | .recvFrame _ | .tick _ | .maybeSend => by unfold NoOverflow; infer_instance

theorem queued_append {fs : List EthernetFrame} (hs : step s op = .ok (s',out))
    (hf : s'.ethFramesToBeSent = s.ethFramesToBeSent ++ fs) : queued s op = fs := by
  simp [queued,hs,hf]

theorem carries_header {src dst : EthernetAddress} {ds : List InternetDatagram}
    {fs : List EthernetFrame} (h : List.Forall₂ (Carries src dst) ds fs) :
    ∀ f ∈ fs, f.header.type = TYPE_IPv4 ∧ f.header.dst = dst := by
  induction h with
  | nil => simp
  | cons hf _ ih =>
    obtain ⟨payload,-,rfl⟩ := hf
    exact List.forall_mem_cons.mpr ⟨⟨rfl,rfl⟩,ih⟩

theorem step_sendDatagram_cases {d : InternetDatagram} (hs : step s (.sendDatagram d ip) = .ok (s',out)) :
    ∃ fs, s'.ethFramesToBeSent = s.ethFramesToBeSent ++ fs ∧ s'.timestamp = s.timestamp ∧
      s'.arpMappingQueue = s.arpMappingQueue ∧
      ((s.arpTable ip).arpMappingNodePtr = none ∧ (s.arpTable ip).arpRequestPtr = none ∧
        s'.arpRequestTimeQueue = s.arpRequestTimeQueue.pushBack ⟨ip,s.timestamp⟩ ∧
        fs = [EthernetFrame.broadcast s.ethernetAddress TYPE_ARP
          [(ARPMessage.request s.ethernetAddress s.ipv4 ip).bytes]] ∨
      ¬ ((s.arpTable ip).arpMappingNodePtr = none ∧ (s.arpTable ip).arpRequestPtr = none) ∧
        s'.arpRequestTimeQueue = s.arpRequestTimeQueue ∧
        ∀ f ∈ fs, f.header.type = TYPE_IPv4 ∧ ∃ ptr node,
          (s.arpTable ip).arpMappingNodePtr = some ptr ∧ s.arpMappingQueue.deref ptr = some node ∧
          f.header.dst = node.ethAddr) := by
  obtain ⟨⟨r,hsend⟩,-⟩ := step_sends hs
  rcases sendDatagram_cases hsend with ⟨hptr,hreq,-⟩ | ⟨hptr,hreq,rfl⟩ |
    ⟨ptr,node,frame,hptr,hnode,⟨payload,-,rfl⟩,rfl⟩ | ⟨hptr,-,rfl⟩
  · rw [sendDatagram_request d hptr hreq] at hsend
    cases hsend
    exact ⟨_,rfl,rfl,rfl,Or.inl ⟨hptr,hreq,rfl,rfl⟩⟩
  · exact ⟨[],by simp,rfl,rfl,Or.inr ⟨fun h => hreq h.2,rfl,by simp⟩⟩
  · refine ⟨_,rfl,rfl,rfl,Or.inr ⟨by simp [hptr],rfl,?_⟩⟩
    intro f hf
    rw [List.mem_singleton.mp hf]
    exact ⟨rfl,ptr,node,hptr,hnode,rfl⟩
  · exact ⟨[],by simp,rfl,rfl,Or.inr ⟨fun h => hptr h.1,rfl,by simp⟩⟩

theorem step_recvFrame_cases {frame : EthernetFrame} (hs : step s (.recvFrame frame) = .ok (s',out)) :
    ∃ fs, s'.ethFramesToBeSent = s.ethFramesToBeSent ++ fs ∧ s'.timestamp = s.timestamp ∧
      s'.arpRequestTimeQueue = s.arpRequestTimeQueue ∧ (∀ f ∈ fs, f.requestFor = none) ∧
      ((∀ msg ∈ s.arpFor frame, (s.arpTable msg.senderIpAddress).arpMappingNodePtr ≠ none) ∧
        s'.arpMappingQueue = s.arpMappingQueue ∧ (∀ f ∈ fs, f.header.type = TYPE_ARP) ∨
      ∃ msg, s.arpFor frame = some msg ∧
        (s.arpTable msg.senderIpAddress).arpMappingNodePtr = none ∧
        s'.arpMappingQueue = s.arpMappingQueue.pushBack
          ⟨msg.senderIpAddress,msg.senderEthernetAddress,s.timestamp⟩ ∧
        ∀ f ∈ fs, f.header.type = TYPE_IPv4 → f.header.dst = msg.senderEthernetAddress) := by
  obtain ⟨⟨r,hrecv⟩,-⟩ := step_receives hs
  cases harp : s.arpFor frame with
  | none =>
    obtain rfl : s' = s := (recvFrame_cases hrecv).resolve_right (by simp [harp])
    exact ⟨[],by simp,rfl,rfl,by simp,Or.inl ⟨by simp,rfl,by simp⟩⟩
  | some msg =>
    rw [recvFrame_arp harp] at hrecv
    obtain ⟨replies,r',hrun,hreplies⟩ := recvArp_spec s msg
    obtain ⟨rfl,-⟩ := Prod.mk.inj (Except.ok.inj (hrecv.symm.trans hrun))
    rcases learn_spec s msg.senderIpAddress msg.senderEthernetAddress with
      ⟨hptr,hlearn⟩ | ⟨hptr,sent,rest,fs,r'',-,hfs,hlearn,-⟩
    · rw [hlearn]
      refine ⟨replies,rfl,rfl,rfl,fun f hf => (hreplies f hf).2,Or.inl ⟨?_,rfl,?_⟩⟩
      · rintro m ⟨⟩
        exact hptr
      · exact fun f hf => (hreplies f hf).1
    · rw [hlearn]
      have hsent := carries_header hfs
      refine ⟨fs ++ replies,by simp,rfl,rfl,?_,Or.inr ⟨msg,rfl,hptr,rfl,?_⟩⟩
      · intro f hf
        rcases List.mem_append.mp hf with hf | hf
        · exact EthernetFrame.requestFor_ipv4 (hsent f hf).1
        · exact (hreplies f hf).2
      · intro f hf htype
        rcases List.mem_append.mp hf with hf | hf
        · exact (hsent f hf).2
        · rw [(hreplies f hf).1] at htype
          exact absurd htype TYPE_ARP_ne

theorem step_maybeSend_cases (hs : step s .maybeSend = .ok (s',out)) :
    s'.arpMappingQueue = s.arpMappingQueue ∧ s'.arpRequestTimeQueue = s.arpRequestTimeQueue ∧
      s'.timestamp = s.timestamp ∧ queued s .maybeSend = [] := by
  have heq : s.maybeSend = (s',out) := Except.ok.inj hs
  simp only [queued,hs]
  unfold NetworkInterface.maybeSend at heq
  split at heq
  · cases heq
    simp
  · rename_i frames hf
    cases heq
    simp [hf]

theorem queued_tick (s : NetworkInterface) (ms : ℕ) : queued s (.tick ms) = [] := by
  simp [queued,step]

def mappingKey (node : ArpMappingNode) : Address × EthernetAddress := (node.ipv4,node.ethAddr)

structure Cached (tr : Trace) (s : NetworkInterface) : Prop where
  wf : s.WF
  mappings : Fresh ticks Stores mappingKey ArpMappingNode.timestamp ArpTableEntryTimeoutMs
    s.timestamp s.arpMappingQueue.nodes tr
  requests : Fresh ticks Requests ArpRequestTimeNode.ipv4 ArpRequestTimeNode.timestamp
    ArpRequestWaitingMs s.timestamp s.arpRequestTimeQueue.nodes tr

theorem new_cached (eth : EthernetAddress) (ipv4 : Address) : Cached [] (new eth ipv4) :=
  ⟨new_wf eth ipv4,Fresh.nil,Fresh.nil⟩

theorem Cached.tick (h : Cached tr s) {ms : ℕ} (hno : s.timestamp + ms < 2^64) :
    Cached (tr ++ [⟨s,.tick ms,none⟩]) (s.tick ms) := by
  refine ⟨h.wf.tick ms,?_,?_⟩
  · rw [tick_timestamp hno,tick_mappings hno]
    refine h.mappings.advance (e := ⟨s,.tick ms,none⟩) (List.dropWhile_sublist _) ?_
    intro node hmem
    exact young_of_mem_dropWhile h.mappings.sorted (fun y _ hy => young_of_expired y hy) hmem
  · rw [tick_timestamp hno,tick_requests hno]
    refine h.requests.advance (e := ⟨s,.tick ms,none⟩) (List.dropWhile_sublist _) ?_
    intro node hmem
    exact young_of_mem_dropWhile h.requests.sorted (fun y _ hy => young_of_expired y hy) hmem

theorem Cached.step (h : Cached tr s) (hno : NoOverflow s op) (hs : step s op = .ok (s',out)) :
    Cached (tr ++ [⟨s,op,out⟩]) s' := by
  have hwf := step_wf h.wf hs
  cases op with
  | sendDatagram d ip =>
    obtain ⟨fs,hframes,htime,hmappings,hcase⟩ := step_sendDatagram_cases hs
    refine ⟨hwf,?_,?_⟩
    · rw [htime,hmappings]
      exact h.mappings.idle rfl
    · rw [htime]
      rcases hcase with ⟨-,-,hqueue,rfl⟩ | ⟨-,hqueue,-⟩
      · rw [hqueue]
        refine h.requests.push (e := ⟨s,.sendDatagram d ip,out⟩) (x := ⟨ip,s.timestamp⟩) rfl
          (by decide) ?_ rfl
        refine ⟨_,?_,EthernetFrame.requestFor_request s.ethernetAddress s.ipv4 ip⟩
        rw [queued_append hs hframes]
        exact List.mem_singleton_self _
      · rw [hqueue]
        exact h.requests.idle rfl
  | recvFrame frame =>
    obtain ⟨fs,-,htime,hrequests,-,hcase⟩ := step_recvFrame_cases hs
    refine ⟨hwf,?_,?_⟩
    · rw [htime]
      rcases hcase with ⟨-,hqueue,-⟩ | ⟨msg,harp,hptr,hqueue,-⟩
      · rw [hqueue]
        exact h.mappings.idle rfl
      · rw [hqueue]
        exact h.mappings.push (e := ⟨s,.recvFrame frame,out⟩)
          (x := ⟨msg.senderIpAddress,msg.senderEthernetAddress,s.timestamp⟩) rfl (by decide)
          ⟨frame,msg,rfl,harp,hptr,rfl⟩ rfl
    · rw [htime,hrequests]
      exact h.requests.idle rfl
  | tick ms =>
    cases hs
    exact h.tick hno
  | maybeSend =>
    obtain ⟨hmappings,hrequests,htime,-⟩ := step_maybeSend_cases hs
    refine ⟨hwf,?_,?_⟩
    · rw [htime,hmappings]
      exact h.mappings.idle rfl
    · rw [htime,hrequests]
      exact h.requests.idle rfl

theorem run_cached {eth : EthernetAddress} {ipv4 : Address}
    (hr : Run InterfaceRuns.step (new eth ipv4) tr s) (hno : ∀ e ∈ tr, NoOverflow e.before e.op) :
    Cached tr s :=
  Run.history_invariant Cached (fun e => NoOverflow e.before e.op) (new_cached eth ipv4)
    (fun hi hg hs => hi.step hg hs) hr hno

/-- A queue against the pointers of the table: sorted by time, one node for an address, younger
than the timeout, and the pointer of an address is set exactly when it has a node, to that node. -/
structure QueueInvariant {α : Type} (ipv4 : α → Address) (timestamp : α → ℕ) (timeoutMs now : ℕ)
    (q : Deque α) (ptr : Address → Option ℕ) : Prop where
  sorted : q.nodes.Pairwise fun x y => timestamp x ≤ timestamp y
  onePerAddress : (q.nodes.map ipv4).Nodup
  pointer : ∀ ip, ptr ip ≠ none ↔ ∃ node ∈ q.nodes, ipv4 node = ip
  denotes : ∀ ip i, ptr ip = some i → ∃ node ∈ q.nodes, q.deref i = some node ∧ ipv4 node = ip
  young : ∀ node ∈ q.nodes, timestamp node ≤ now ∧ now < timestamp node + timeoutMs

theorem queueInvariant_of_fresh {α κ : Type} {ipv4 : α → Address} {timestamp : α → ℕ}
    {timeoutMs now : ℕ} {q : Deque α} {ptr : Address → Option ℕ} {made : κ → Call → Prop}
    {key : α → κ} (hptr : Indexes ipv4 q ptr)
    (hfresh : Fresh ticks made key timestamp timeoutMs now q.nodes tr) :
    QueueInvariant ipv4 timestamp timeoutMs now q ptr := by
  refine ⟨hfresh.sorted,hptr.nodup_keys,hptr.ne_none_iff,?_,?_⟩
  · intro ip i hi
    obtain ⟨node,hnode,hip⟩ := hptr.deref hi
    exact ⟨node,Deque.mem_of_deref hnode,hnode,hip⟩
  · intro node hnode
    obtain ⟨age,hlt,hnow,-⟩ := hfresh.recent node hnode
    omega

theorem Cached.frames (h : Cached tr s) (hs : InterfaceRuns.step s op = .ok (s',out))
    {f : EthernetFrame} (hf : f ∈ queued s op) (htype : f.header.type = TYPE_IPv4) :
    ∃ ip ∈ hop s op, ∃ age < ArpTableEntryTimeoutMs,
      Ago ticks (Stores (ip,f.header.dst)) age (tr ++ [⟨s,op,out⟩]) := by
  cases op with
  | sendDatagram d ip =>
    obtain ⟨fs,hframes,-,-,hcase⟩ := step_sendDatagram_cases hs
    rw [queued_append hs hframes] at hf
    rcases hcase with ⟨-,-,-,rfl⟩ | ⟨-,-,hall⟩
    · rw [List.mem_singleton.mp hf] at htype
      exact absurd htype TYPE_ARP_ne
    · obtain ⟨-,ptr,node,hptr,hnode,hdst⟩ := hall f hf
      obtain ⟨node',hnode',hip⟩ := h.wf.mappings.deref hptr
      obtain rfl : node' = node := Option.some.inj (hnode'.symm.trans hnode)
      obtain ⟨age,hlt,-,hago⟩ := h.mappings.recent node' (Deque.mem_of_deref hnode)
      refine ⟨ip,rfl,age,hlt,(ago_snoc _).mpr (Or.inr ⟨age,?_,rfl⟩)⟩
      rw [hdst,← hip]
      exact hago
  | recvFrame frame =>
    obtain ⟨fs,hframes,-,-,-,hcase⟩ := step_recvFrame_cases hs
    rw [queued_append hs hframes] at hf
    rcases hcase with ⟨-,-,hall⟩ | ⟨msg,harp,hptr,-,hall⟩
    · rw [hall f hf] at htype
      exact absurd htype TYPE_ARP_ne
    · refine ⟨msg.senderIpAddress,by simp [hop,harp],0,by decide,(ago_snoc _).mpr (Or.inl ⟨?_,rfl⟩)⟩
      rw [hall f hf htype]
      exact ⟨frame,msg,rfl,harp,hptr,rfl⟩
  | tick ms =>
    rw [queued_tick] at hf
    simp at hf
  | maybeSend =>
    rw [(step_maybeSend_cases hs).2.2.2] at hf
    simp at hf

/-- After every operation of a run both queues satisfy their invariant; and an IPv4 frame that a
further operation queues goes to the address of a mapping of its next hop that was stored less than
30000 ms ago. -/
theorem cache_fresh {eth : EthernetAddress} {ipv4 : Address}
    (hr : Run InterfaceRuns.step (new eth ipv4) tr s) (hno : ∀ e ∈ tr, NoOverflow e.before e.op) :
    QueueInvariant ArpMappingNode.ipv4 ArpMappingNode.timestamp 30000 s.timestamp s.arpMappingQueue
      (fun ip => (s.arpTable ip).arpMappingNodePtr) ∧
    QueueInvariant ArpRequestTimeNode.ipv4 ArpRequestTimeNode.timestamp 5000 s.timestamp
      s.arpRequestTimeQueue (fun ip => (s.arpTable ip).arpRequestPtr) ∧
    ∀ op s' out, InterfaceRuns.step s op = .ok (s',out) →
      ∀ f ∈ queued s op, f.header.type = TYPE_IPv4 → ∃ ip ∈ hop s op,
        ∃ age < 30000, Ago ticks (Stores (ip,f.header.dst)) age (tr ++ [⟨s,op,out⟩]) := by
  have h := run_cached hr hno
  refine ⟨queueInvariant_of_fresh h.wf.mappings h.mappings,
    queueInvariant_of_fresh h.wf.requests h.requests,?_⟩
  exact fun op s' out hs f hf htype => h.frames hs hf htype

/-- The mapping of 7 expires, is asked for again, and is learned anew; that of 8 is younger. -/
theorem cache_fresh_relearned : ∃ tr s, Run InterfaceRuns.step (new ⟨[2,0,0,0,0,1],rfl⟩ 1) tr s ∧
    s.arpMappingQueue.nodes.map mappingKey =
      [(8,⟨[2,0,0,0,0,8],rfl⟩),(7,⟨[2,0,0,0,0,9],rfl⟩)] ∧
    QueueInvariant ArpMappingNode.ipv4 ArpMappingNode.timestamp 30000 s.timestamp s.arpMappingQueue
      fun ip => (s.arpTable ip).arpMappingNodePtr := by
  obtain ⟨tr,s,hr,hnodes,hno⟩ := Run.exists_of_exec InterfaceRuns.step (new ⟨[2,0,0,0,0,1],rfl⟩ 1)
    [.sendDatagram {} 7,
      .recvFrame ⟨⟨⟨[2,0,0,0,0,1],rfl⟩,⟨[2,0,0,0,0,7],rfl⟩,TYPE_ARP⟩,
        [(ARPMessage.reply ⟨[2,0,0,0,0,7],rfl⟩ 7 ⟨[2,0,0,0,0,1],rfl⟩ 1).bytes]⟩,
      .tick 20000,
      .recvFrame ⟨⟨⟨[2,0,0,0,0,1],rfl⟩,⟨[2,0,0,0,0,8],rfl⟩,TYPE_ARP⟩,
        [(ARPMessage.request ⟨[2,0,0,0,0,8],rfl⟩ 8 1).bytes]⟩,
      .tick 10000,.sendDatagram {} 7,
      .recvFrame ⟨⟨⟨[2,0,0,0,0,1],rfl⟩,⟨[2,0,0,0,0,9],rfl⟩,TYPE_ARP⟩,
        [(ARPMessage.reply ⟨[2,0,0,0,0,9],rfl⟩ 7 ⟨[2,0,0,0,0,1],rfl⟩ 1).bytes]⟩]
    (fun tr s => s.arpMappingQueue.nodes.map mappingKey =
        [(8,⟨[2,0,0,0,0,8],rfl⟩),(7,⟨[2,0,0,0,0,9],rfl⟩)] ∧
      ∀ e ∈ tr, NoOverflow e.before e.op) (by decide +kernel)
  exact ⟨tr,s,hr,hnodes,(cache_fresh hr hno).1⟩

end InterfaceRuns
end Minnow
