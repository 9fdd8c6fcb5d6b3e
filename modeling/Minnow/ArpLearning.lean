import Minnow.ArpHistory

/-! What the interface learns against what it has heard: a mapping that is known is neither
changed nor renewed, so it is the latest one only while no other message comes. -/
namespace Minnow
namespace InterfaceRuns

open Library NetworkInterface EthernetHeader

variable {tr : Trace} {s s' : NetworkInterface} {ip : Address} {op : Op} {eth : EthernetAddress}
  {age : ℕ} {out : Option EthernetFrame}

def WellFormed (frame : EthernetFrame) : Prop :=
  ∃ parsed ∈ (ARPMessage.parsed frame.payload).toOption, parsed.2 = true

instance (frame : EthernetFrame) : Decidable (WellFormed frame) := by
  unfold WellFormed; infer_instance

/-- The sender of the well-formed ARP message for the interface that a call receives. -/
def heard (e : Call) : Option (Address × EthernetAddress) :=
  match e.op with
  | .recvFrame frame =>
    if WellFormed frame then
      (e.before.arpFor frame).map fun msg => (msg.senderIpAddress,msg.senderEthernetAddress)
    else none
  | _ => none

def Hears (k : Address × EthernetAddress) (e : Call) : Prop := heard e = some k

def HearsFrom (ip : Address) (e : Call) : Prop := (heard e).map Prod.fst = some ip

instance (k : Address × EthernetAddress) (e : Call) : Decidable (Hears k e) := by
  unfold Hears; infer_instance

instance (ip : Address) (e : Call) : Decidable (HearsFrom ip e) := by
  unfold HearsFrom; infer_instance

/-- The most recent message from `ip` says `eth`; it came `age` ago. -/
def Latest (ip : Address) (eth : EthernetAddress) (age : ℕ) (tr : Trace) : Prop :=
  Since ticks (Hears (ip,eth)) (HearsFrom ip) age tr

/-- An ARP message that the interface takes is well formed, and tells nothing new about an address
whose mapping it has: not another Ethernet address, nor the same one later. -/
def NoNews (s : NetworkInterface) : Op → Prop
  | .recvFrame frame => ∀ msg ∈ s.arpFor frame, WellFormed frame ∧
      ∀ node ∈ s.arpMappingQueue.nodes, node.ipv4 = msg.senderIpAddress →
        node.ethAddr = msg.senderEthernetAddress ∧ node.timestamp = s.timestamp
  | _ => True

instance (s : NetworkInterface) (op : Op) : Decidable (NoNews s op) :=
  match op with
  | .sendDatagram _ _ | .recvFrame _ | .tick _ | .maybeSend => by unfold NoNews; infer_instance

theorem hearsFrom_of_hears {e : Call} (h : Hears (ip,eth) e) : HearsFrom ip e := by
  rw [HearsFrom,show heard e = some (ip,eth) from h]
  rfl

theorem exists_hears {e : Call} (h : HearsFrom ip e) : ∃ eth, Hears (ip,eth) e := by
  obtain ⟨⟨ip',eth⟩,hk,rfl⟩ := Option.map_eq_some_iff.mp h
  exact ⟨eth,hk⟩

theorem Latest.unique {eth' : EthernetAddress} {age' : ℕ} (h : Latest ip eth age tr)
    (h' : Latest ip eth' age' tr) : eth = eth' := by
  obtain ⟨e,-,he,he'⟩ := Since.same h h' (fun _ => hearsFrom_of_hears) fun _ => hearsFrom_of_hears
  have heq := Option.some.inj (he.symm.trans he')
  exact congrArg Prod.snd heq

theorem Hears.arpFor (h : Hears (ip,eth) ⟨s,op,out⟩) : ∃ frame msg, op = .recvFrame frame ∧
    s.arpFor frame = some msg ∧ msg.senderIpAddress = ip ∧ msg.senderEthernetAddress = eth := by
  cases op with
  | recvFrame frame =>
    simp only [Hears,heard] at h
    split_ifs at h
    obtain ⟨msg,hmsg,hk⟩ := Option.map_eq_some_iff.mp h
    obtain ⟨rfl,rfl⟩ := Prod.mk.inj hk
    exact ⟨frame,msg,rfl,hmsg,rfl,rfl⟩
  | sendDatagram d ip => cases h
  | tick ms => cases h
  | maybeSend => cases h

theorem NoNews.repeats (h : NoNews s op) (hears : Hears (ip,eth) ⟨s,op,out⟩)
    {node : ArpMappingNode} (hnode : node ∈ s.arpMappingQueue.nodes) (hip : node.ipv4 = ip) :
    node.ethAddr = eth ∧ node.timestamp = s.timestamp := by
  obtain ⟨frame,msg,rfl,harp,rfl,rfl⟩ := hears.arpFor
  exact (h msg harp).2 node hnode hip

theorem Hears.ticks_eq (h : Hears (ip,eth) ⟨s,op,out⟩) : ticks ⟨s,op,out⟩ = 0 := by
  obtain ⟨frame,msg,rfl,-⟩ := h.arpFor
  rfl

theorem NoNews.hears (h : NoNews s op) {k : Address × EthernetAddress}
    (hstores : Stores k ⟨s,op,out⟩) : Hears k ⟨s,op,out⟩ := by
  obtain ⟨frame,msg,hop,harp,-,rfl⟩ := hstores
  obtain rfl : op = .recvFrame frame := hop
  change s.arpFor frame = some msg at harp
  simp only [Hears,heard]
  rw [if_pos (h msg harp).1,harp]
  rfl

/-- The invariant of a run without news: what was stored in the last 30 seconds is the latest. -/
structure Learned (tr : Trace) (s : NetworkInterface) : Prop where
  kept : MappingsKept tr s
  latest : ∀ ip eth age, age < ArpTableEntryTimeoutMs →
    (Ago ticks (Stores (ip,eth)) age tr ↔ Latest ip eth age tr)

theorem new_learned (eth : EthernetAddress) (ipv4 : Address) : Learned [] (new eth ipv4) :=
  ⟨new_mappingsKept eth ipv4,
    fun _ _ _ _ => ⟨fun h => absurd h not_ago_nil,fun h => absurd h not_since_nil⟩⟩

theorem Learned.step (h : Learned tr s) (hin : MappingsInTime s op) (hnews : NoNews s op)
    (hs : InterfaceRuns.step s op = .ok (s',out)) : Learned (tr ++ [⟨s,op,out⟩]) s' := by
  refine ⟨h.kept.step hin hs,?_⟩
  intro ip eth age hlt
  rw [Latest,ago_snoc,since_snoc]
  constructor
  · rintro (⟨hstores,rfl⟩ | ⟨age',hago,rfl⟩)
    · exact Or.inl ⟨hnews.hears hstores,rfl⟩
    · by_cases hfrom : HearsFrom ip ⟨s,op,out⟩
      · -- the message repeats the mapping of this very millisecond
        obtain ⟨eth',hears⟩ := exists_hears hfrom
        obtain ⟨node,hnode,hkey,hnow⟩ := h.kept.mappings (ip,eth) age' hago (by omega)
        obtain ⟨hip,heth⟩ := Prod.mk.inj hkey
        obtain ⟨hsame,htime⟩ := hnews.repeats hears hnode hip
        rw [← hsame,heth] at hears
        have hzero := hears.ticks_eq
        exact Or.inl ⟨hears,by omega⟩
      · exact Or.inr ⟨hfrom,age',(h.latest ip eth age' (by omega)).mp hago,rfl⟩
  · rintro (⟨hears,rfl⟩ | ⟨-,age',hlatest,rfl⟩)
    · have hzero := hears.ticks_eq
      cases hptr : (s.arpTable ip).arpMappingNodePtr with
      | none =>
        obtain ⟨frame,msg,rfl,harp,rfl,rfl⟩ := hears.arpFor
        exact Or.inl ⟨⟨frame,msg,rfl,harp,hptr,rfl⟩,rfl⟩
      | some ptr =>
        obtain ⟨node,hderef,hip⟩ := h.kept.cached.wf.mappings.deref hptr
        have hnode := Deque.mem_of_deref hderef
        obtain ⟨hsame,htime⟩ := hnews.repeats hears hnode hip
        obtain ⟨age',-,hnow,hago⟩ := h.kept.cached.mappings.recent node hnode
        have hkey : mappingKey node = (ip,eth) := by rw [mappingKey,hip,hsame]
        rw [hkey] at hago
        exact Or.inr ⟨age',hago,by omega⟩
    · exact Or.inr ⟨age',(h.latest ip eth age' (by omega)).mpr hlatest,rfl⟩

theorem run_learned {ethernetAddress : EthernetAddress} {ipv4 : Address}
    (hr : Run InterfaceRuns.step (new ethernetAddress ipv4) tr s)
    (hin : ∀ e ∈ tr, MappingsInTime e.before e.op) (hnews : ∀ e ∈ tr, NoNews e.before e.op) :
    Learned tr s :=
  Run.history_invariant Learned (fun e => MappingsInTime e.before e.op ∧ NoNews e.before e.op)
    (new_learned ethernetAddress ipv4) (fun hi hg hs => hi.step hg.1 hg.2 hs) hr
    fun e he => ⟨hin e he,hnews e he⟩

theorem sendDatagram_known {ptr : ℕ} {node : ArpMappingNode}
    (hptr : (s.arpTable ip).arpMappingNodePtr = some ptr)
    (hnode : s.arpMappingQueue.deref ptr = some node) {d : InternetDatagram} {payload : List Buffer}
    (hser : d.serialized = .ok payload) : InterfaceRuns.step s (.sendDatagram d ip) =
      .ok (s.emplaceFrame ⟨⟨node.ethAddr,s.ethernetAddress,TYPE_IPv4⟩,payload⟩,none) := by
  simp only [InterfaceRuns.step,sendDatagram,hptr,hnode,hser]

/-- As long as no sum of times of a mapping wraps around and no message brings news about an address
whose mapping is known: every IPv4 frame that is queued goes where the latest message from its next
hop says, and what a message says can be used for 30000 ms after the latest one. -/
theorem latest_mapping_wins {ethernetAddress : EthernetAddress} {ipv4 : Address}
    (hr : Run InterfaceRuns.step (new ethernetAddress ipv4) tr s)
    (hin : ∀ e ∈ tr, MappingsInTime e.before e.op) (hnews : ∀ e ∈ tr, NoNews e.before e.op) :
    (∀ op s' out, MappingsInTime s op → NoNews s op → InterfaceRuns.step s op = .ok (s',out) →
      ∀ f ∈ queued s op, f.header.type = TYPE_IPv4 → ∃ ip ∈ hop s op,
        ∃ age, Latest ip f.header.dst age (tr ++ [⟨s,op,out⟩])) ∧
    ∀ ip eth age, Latest ip eth age tr → age < 30000 → ∀ d : InternetDatagram, d.header.ver = 4 →
      ∃ s' payload, InterfaceRuns.step s (.sendDatagram d ip) = .ok (s',none) ∧
        d.serialized = .ok payload ∧ s'.ethFramesToBeSent =
          s.ethFramesToBeSent ++ [⟨⟨eth,s.ethernetAddress,TYPE_IPv4⟩,payload⟩] := by
  have h := run_learned hr hin hnews
  constructor
  · intro op s' out hop hquiet hs f hf htype
    obtain ⟨ip,hip,age,hlt,hago⟩ := h.kept.cached.frames hs hf htype
    exact ⟨ip,hip,age,((h.step hop hquiet hs).latest ip f.header.dst age hlt).mp hago⟩
  · intro ip eth age hlatest hlt d hver
    obtain ⟨rest,hser⟩ := IPv4Datagram.serialized_eq hver
    obtain ⟨node,hnode,hkey,-⟩ :=
      h.kept.mappings (ip,eth) age ((h.latest ip eth age hlt).mpr hlatest) hlt
    obtain ⟨hip,heth⟩ := Prod.mk.inj hkey
    have hwf := h.kept.cached.wf.mappings
    obtain ⟨ptr,hptr⟩ := Option.ne_none_iff_exists'.mp ((hwf.ne_none_iff ip).mpr ⟨node,hnode,hip⟩)
    obtain ⟨node',hderef,hip'⟩ := hwf.deref hptr
    obtain rfl := hwf.unique (Deque.mem_of_deref hderef) hnode (hip'.trans hip.symm)
    rw [← heth]
    exact ⟨_,_,sendDatagram_known hptr hderef hser,hser,rfl⟩

/-- A mapping is learned, used, forgotten, and learned anew with another Ethernet address. -/
theorem latest_mapping_wins_moved : ∃ tr s,
    Run InterfaceRuns.step (new ⟨[2,0,0,0,0,1],rfl⟩ 1) tr s ∧
      (ipv4Frames (emitted tr)).map (fun f => f.header.dst) = [⟨[2,0,0,0,0,7],rfl⟩] ∧
      ∀ d : InternetDatagram, d.header.ver = 4 → ∃ s' payload,
        InterfaceRuns.step s (.sendDatagram d 7) = .ok (s',none) ∧ d.serialized = .ok payload ∧
        s'.ethFramesToBeSent = s.ethFramesToBeSent ++
          [⟨⟨⟨[2,0,0,0,0,9],rfl⟩,s.ethernetAddress,TYPE_IPv4⟩,payload⟩] := by
  obtain ⟨tr,s,hr,hsent,hlast,hin,hnews⟩ := Run.exists_of_exec InterfaceRuns.step
    (new ⟨[2,0,0,0,0,1],rfl⟩ 1)
    [.recvFrame ⟨⟨⟨[2,0,0,0,0,1],rfl⟩,⟨[2,0,0,0,0,7],rfl⟩,TYPE_ARP⟩,
        [(ARPMessage.reply ⟨[2,0,0,0,0,7],rfl⟩ 7 ⟨[2,0,0,0,0,1],rfl⟩ 1).bytes]⟩,
      .sendDatagram {} 7,.maybeSend,.tick 30000,
      .recvFrame ⟨⟨⟨[2,0,0,0,0,1],rfl⟩,⟨[2,0,0,0,0,9],rfl⟩,TYPE_ARP⟩,
        [(ARPMessage.reply ⟨[2,0,0,0,0,9],rfl⟩ 7 ⟨[2,0,0,0,0,1],rfl⟩ 1).bytes]⟩]
    (fun tr _ => (ipv4Frames (emitted tr)).map (fun f => f.header.dst) = [⟨[2,0,0,0,0,7],rfl⟩] ∧
      (∃ e ∈ tr.getLast?, Hears (7,⟨[2,0,0,0,0,9],rfl⟩) e) ∧ (∀ e ∈ tr, MappingsInTime e.before e.op) ∧
      ∀ e ∈ tr, NoNews e.before e.op) (by decide +kernel)
  obtain ⟨e,he,hears⟩ := hlast
  have hlatest : Latest 7 ⟨[2,0,0,0,0,9],rfl⟩ 0 tr := by
    refine ⟨tr.dropLast,e,[],?_,hears,by simp,rfl⟩
    rw [List.dropLast_append_getLast? e he]
  exact ⟨tr,s,hr,hsent,(latest_mapping_wins hr hin hnews).2 7 _ 0 hlatest (by decide)⟩

/-- A host changes its Ethernet address while its mapping is known: the next datagram still goes to
the old one. -/
theorem stale_mapping_used : ¬ ∀ tr s, Run InterfaceRuns.step (new ⟨[2,0,0,0,0,1],rfl⟩ 1) tr s →
    ∀ op s' out, InterfaceRuns.step s op = .ok (s',out) →
      ∀ f ∈ queued s op, f.header.type = TYPE_IPv4 → ∃ ip ∈ hop s op,
        ∃ age, Latest ip f.header.dst age (tr ++ [⟨s,op,out⟩]) := by
  intro hall
  obtain ⟨tr,s,hr,⟨e,he,hears⟩,f,hf,htype,hdst⟩ := Run.exists_of_exec InterfaceRuns.step
    (new ⟨[2,0,0,0,0,1],rfl⟩ 1)
    [.recvFrame ⟨⟨⟨[2,0,0,0,0,1],rfl⟩,⟨[2,0,0,0,0,7],rfl⟩,TYPE_ARP⟩,
        [(ARPMessage.reply ⟨[2,0,0,0,0,7],rfl⟩ 7 ⟨[2,0,0,0,0,1],rfl⟩ 1).bytes]⟩,
      .recvFrame ⟨⟨⟨[2,0,0,0,0,1],rfl⟩,⟨[2,0,0,0,0,9],rfl⟩,TYPE_ARP⟩,
        [(ARPMessage.reply ⟨[2,0,0,0,0,9],rfl⟩ 7 ⟨[2,0,0,0,0,1],rfl⟩ 1).bytes]⟩]
    (fun tr s => (∃ e ∈ tr.getLast?, Hears (7,⟨[2,0,0,0,0,9],rfl⟩) e) ∧
      ∃ f ∈ queued s (.sendDatagram {} 7), f.header.type = TYPE_IPv4 ∧
        f.header.dst.toList = [2,0,0,0,0,7]) (by decide +kernel)
  have hs : ∃ s' out, InterfaceRuns.step s (.sendDatagram {} 7) = .ok (s',out) := by
    unfold queued at hf
    split at hf
    · simp at hf
    · rename_i s' out hs
      exact ⟨s',out,hs⟩
  obtain ⟨s',out,hs⟩ := hs
  obtain ⟨ip,hip,age,hlatest⟩ := hall tr s hr (.sendDatagram {} 7) s' out hs f hf htype
  obtain rfl : 7 = ip := Option.some.inj hip
  have hmoved : Latest 7 ⟨[2,0,0,0,0,9],rfl⟩ 0 (tr ++ [⟨s,.sendDatagram {} 7,out⟩]) := by
    refine ⟨tr.dropLast,e,[⟨s,.sendDatagram {} 7,out⟩],?_,hears,?_,rfl⟩
    · rw [← List.dropLast_append_getLast? e he]
      simp
    · rintro e' he'
      rw [List.mem_singleton.mp he']
      exact fun h => by cases h
  have hsame := congrArg List.Vector.toList (hlatest.unique hmoved)
  rw [hdst] at hsame
  exact absurd hsame (by decide)

end InterfaceRuns
end Minnow
