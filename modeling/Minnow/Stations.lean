import Minnow.DatagramDelivery
import Minnow.Internet

/-! One interface of a network: its mappings are true, its ARP messages speak of itself, and each
IPv4 frame that it sends goes to the owner of the hop that its datagram was given for. -/
namespace Minnow
namespace Internet

open Library EthernetHeader NetworkInterface InterfaceRuns

variable {η ρ L : Type}

/-- The frame is an ARP message of `p` about itself. -/
structure Truthful (plan : Plan η ρ L) (p : Port η ρ) (f : EthernetFrame) : Prop where
  type : f.header.type = TYPE_ARP
  message : ∃ m : ARPMessage, m.supported = true ∧ f.payload = [m.bytes] ∧
    m.senderIpAddress = plan.ip p ∧ m.senderEthernetAddress = plan.eth p

def Addressed (plan : Plan η ρ L) (p : Port η ρ) (entry : Address × InternetDatagram)
    (f : EthernetFrame) : Prop :=
  ∃ eth, plan.Owns p entry.1 eth ∧ Carries (plan.eth p) eth entry.2 f

/-- The interface `p` that was given the datagrams `G` for their hops, and has sent the frames `W`.
`E` and `Q` say for which of them the frames were made that are sent and that wait. -/
structure Station (plan : Plan η ρ L) (p : Port η ρ) (G : List (Address × InternetDatagram))
    (W : List EthernetFrame) (E Q : List (Address × InternetDatagram)) (s : NetworkInterface) :
    Prop where
  eth : s.ethernetAddress = plan.eth p
  ip : s.ipv4 = plan.ip p
  wf : s.WF
  mappings : ∀ node ∈ s.arpMappingQueue.nodes, plan.Owns p node.ipv4 node.ethAddr
  truthful : ∀ f ∈ s.ethFramesToBeSent, f.header.type ≠ TYPE_IPv4 → Truthful plan p f
  sent : List.Forall₂ (Addressed plan p) E (ipv4Frames W)
  waiting : List.Forall₂ (Addressed plan p) Q (ipv4Frames s.ethFramesToBeSent)
  count : ∀ ip d, E.count (ip,d) + Q.count (ip,d) +
    (s.arpTable ip).pendingIpDatagrams.count d ≤ G.count (ip,d)

variable {plan : Plan η ρ L} {p q : Port η ρ} {G E Q : List (Address × InternetDatagram)}
  {W : List EthernetFrame} {s s' : NetworkInterface} {ip : Address} {d : InternetDatagram}

theorem new_station (plan : Plan η ρ L) (p : Port η ρ) :
    Station plan p [] [] [] [] (NetworkInterface.new (plan.eth p) (plan.ip p)) where
  eth := rfl
  ip := rfl
  wf := new_wf _ _
  mappings := fun _ hnode => absurd hnode List.not_mem_nil
  truthful := fun _ hf => absurd hf List.not_mem_nil
  sent := .nil
  waiting := .nil
  count := fun _ _ => le_rfl

theorem count_entry (ip hop : Address) (d e : InternetDatagram) :
    [(hop,e)].count (ip,d) = if hop = ip ∧ e = d then 1 else 0 := by
  simp [List.count_singleton]

theorem count_entries (ip hop : Address) (d : InternetDatagram) (ds : List InternetDatagram) :
    (ds.map fun e => (hop,e)).count (ip,d) = if hop = ip then ds.count d else 0 := by
  induction ds with
  | nil => simp
  | cons e ds ih =>
    rw [List.map_cons,← List.singleton_append,List.count_append,ih,count_entry]
    by_cases hhop : hop = ip
    · by_cases he : e = d
      · simp [hhop,he,Nat.add_comm]
      · simp [hhop,he]
    · simp [hhop]

theorem ipv4Frames_truthful {fs : List EthernetFrame} (h : ∀ f ∈ fs, Truthful plan p f) :
    ipv4Frames fs = [] := ipv4Frames_arp fun f hf => (h f hf).type

/-- A call appends frames for the entries `new`, and changes one entry of the table. -/
theorem Station.update (h : Station plan p G W E Q s) (hop : Address) (entry : ArpTableEntry)
    {G' new : List (Address × InternetDatagram)} {fs : List EthernetFrame}
    (heth : s'.ethernetAddress = s.ethernetAddress) (hip : s'.ipv4 = s.ipv4) (hwf : s'.WF)
    (hmappings : ∀ node ∈ s'.arpMappingQueue.nodes, plan.Owns p node.ipv4 node.ethAddr)
    (htable : s'.arpTable = Function.update s.arpTable hop entry)
    (hframes : s'.ethFramesToBeSent = s.ethFramesToBeSent ++ fs)
    (htruth : ∀ f ∈ fs, f.header.type ≠ TYPE_IPv4 → Truthful plan p f)
    (hnew : List.Forall₂ (Addressed plan p) new (ipv4Frames fs))
    (hmono : ∀ x, G.count x ≤ G'.count x)
    (hcount : ∀ d, E.count (hop,d) + (Q ++ new).count (hop,d) + entry.pendingIpDatagrams.count d ≤
      G'.count (hop,d))
    (hother : ∀ ip d, ip ≠ hop → new.count (ip,d) = 0) : Station plan p G' W E (Q ++ new) s' where
  eth := heth.trans h.eth
  ip := hip.trans h.ip
  wf := hwf
  mappings := hmappings
  truthful := by
    intro f hf
    rw [hframes] at hf
    rcases List.mem_append.mp hf with hf | hf
    · exact h.truthful f hf
    · exact htruth f hf
  sent := h.sent
  waiting := by
    rw [hframes,ipv4Frames_append]
    exact List.rel_append h.waiting hnew
  count := by
    intro ip d
    rw [htable]
    by_cases heq : ip = hop
    · rw [heq,Function.update_self]
      exact hcount d
    · rw [Function.update_of_ne heq,List.count_append,hother ip d heq,Nat.add_zero]
      exact (h.count ip d).trans (hmono _)

theorem Station.append (h : Station plan p G W E Q s) {G' new : List (Address × InternetDatagram)}
    (fs : List EthernetFrame)
    (heth : s'.ethernetAddress = s.ethernetAddress) (hip : s'.ipv4 = s.ipv4) (hwf : s'.WF)
    (hqueue : s'.arpMappingQueue = s.arpMappingQueue) (htable : s'.arpTable = s.arpTable)
    (hframes : s'.ethFramesToBeSent = s.ethFramesToBeSent ++ fs)
    (htruth : ∀ f ∈ fs, f.header.type ≠ TYPE_IPv4 → Truthful plan p f)
    (hnew : List.Forall₂ (Addressed plan p) new (ipv4Frames fs))
    (hcount : ∀ x, G.count x + new.count x ≤ G'.count x) :
    Station plan p G' W E (Q ++ new) s' where
  eth := heth.trans h.eth
  ip := hip.trans h.ip
  wf := hwf
  mappings := by
    rw [hqueue]
    exact h.mappings
  truthful := by
    intro f hf
    rw [hframes] at hf
    rcases List.mem_append.mp hf with hf | hf
    · exact h.truthful f hf
    · exact htruth f hf
  sent := h.sent
  waiting := by
    rw [hframes,ipv4Frames_append]
    exact List.rel_append h.waiting hnew
  count := by
    intro ip d
    have hold := h.count ip d
    have hadd := hcount (ip,d)
    rw [htable,List.count_append]
    omega

theorem Truthful.request (plan : Plan η ρ L) (p : Port η ρ) (ip : Address) :
    Truthful plan p (EthernetFrame.broadcast (plan.eth p) TYPE_ARP
      [(ARPMessage.request (plan.eth p) (plan.ip p) ip).bytes]) :=
  ⟨rfl,_,ARPMessage.request_supported _ _ _,rfl,rfl,rfl⟩

theorem Station.owns (h : Station plan p G W E Q s) {ptr : ℕ} {node : ArpMappingNode}
    (hptr : (s.arpTable ip).arpMappingNodePtr = some ptr)
    (hnode : s.arpMappingQueue.deref ptr = some node) : plan.Owns p ip node.ethAddr := by
  obtain ⟨x,hx,hkey⟩ := h.wf.mappings.deref hptr
  obtain rfl := Option.some.inj (hnode.symm.trans hx)
  rw [← hkey]
  exact h.mappings node (Deque.mem_of_deref hnode)

theorem Station.sendDatagram (h : Station plan p G W E Q s) {r : Except RuntimeError Unit}
    (hs : s.sendDatagram d ip = .ok (s',r)) :
    ∃ Q', Station plan p (G ++ [(ip,d)]) W E Q' s' := by
  have hwf := h.wf.sendDatagram hs
  have hmore : ∀ x, G.count x ≤ (G ++ [(ip,d)]).count x := by
    intro x
    rw [List.count_append]
    exact Nat.le_add_right _ _
  have hsame : ∀ t, s = t → ∃ Q', Station plan p (G ++ [(ip,d)]) W E Q' t := by
    rintro t rfl
    refine ⟨Q ++ [],h.append [] rfl rfl h.wf rfl rfl (by simp) (by simp) .nil ?_⟩
    simp
  rcases sendDatagram_cases hs with
    ⟨hptr,hreq,-⟩ | ⟨-,-,heq⟩ | ⟨ptr,node,frame,hptr,hnode,hcarries,rfl⟩ | ⟨-,-,heq⟩
  · -- the datagram is pending, and the request speaks of this interface
    rw [sendDatagram_request d hptr hreq] at hs
    obtain ⟨rfl,-⟩ := Prod.mk.inj (Except.ok.inj hs)
    refine ⟨Q ++ [],h.update ip _ rfl rfl hwf h.mappings rfl rfl ?_ .nil hmore ?_ (by simp)⟩
    · intro f hf _
      rw [List.mem_singleton.mp hf,h.eth,h.ip]
      exact Truthful.request plan p ip
    · intro e
      have hold := h.count ip e
      have hone := count_entries ip ip e [d]
      rw [if_pos rfl,List.map_singleton] at hone
      rw [List.append_nil,List.count_append,List.count_append,hone]
      omega
  · exact hsame s' heq.symm
  · refine ⟨Q ++ [(ip,d)],h.append [frame] rfl rfl hwf rfl rfl rfl ?_ ?_ ?_⟩
    · intro f hf htype
      obtain ⟨payload,-,rfl⟩ := hcarries
      rw [List.mem_singleton.mp hf] at htype
      exact absurd rfl htype
    · have hone := ipv4Frames_carries (List.Forall₂.cons hcarries .nil)
      rw [hone]
      exact .cons ⟨node.ethAddr,h.owns hptr hnode,h.eth ▸ hcarries⟩ .nil
    · intro x
      rw [List.count_append]
  · exact hsame s' heq.symm

def replyTo (s : NetworkInterface) (msg : ARPMessage) : EthernetFrame :=
  ⟨⟨msg.senderEthernetAddress,s.ethernetAddress,TYPE_ARP⟩,[(ARPMessage.reply s.ethernetAddress
    s.ipv4 msg.senderEthernetAddress msg.senderIpAddress).bytes]⟩

theorem learn_addresses (s : NetworkInterface) (ip : Address) (eth : EthernetAddress) :
    (s.learn ip eth).1.ethernetAddress = s.ethernetAddress ∧ (s.learn ip eth).1.ipv4 = s.ipv4 := by
  rcases learn_spec s ip eth with ⟨-,hlearn⟩ | ⟨-,sent,rest,fs,r,-,-,hlearn,-⟩
  · rw [hlearn]
    exact ⟨rfl,rfl⟩
  · rw [hlearn]
    exact ⟨rfl,rfl⟩

/-- A request is answered when everything that was pending for its sender could be sent. -/
theorem recvArp_eq (s : NetworkInterface) (msg : ARPMessage) :
    ∃ replies, s.recvArp msg = .ok ({ (s.learn msg.senderIpAddress msg.senderEthernetAddress).1 with
      ethFramesToBeSent := (s.learn msg.senderIpAddress
        msg.senderEthernetAddress).1.ethFramesToBeSent ++ replies },
      (s.learn msg.senderIpAddress msg.senderEthernetAddress).2.map fun _ => none) ∧
      (∀ f ∈ replies, f = replyTo s msg) ∧
      ((s.learn msg.senderIpAddress msg.senderEthernetAddress).2 = .ok () →
        msg.opcode = ARPMessage.OPCODE_REQUEST → replies = [replyTo s msg]) := by
  obtain ⟨heth,hip⟩ := learn_addresses s msg.senderIpAddress msg.senderEthernetAddress
  have hreply := fun t : NetworkInterface => ARPMessage.serialized_eq
    (ARPMessage.reply_supported t.ethernetAddress t.ipv4 msg.senderEthernetAddress
      msg.senderIpAddress)
  cases hlearn : s.learn msg.senderIpAddress msg.senderEthernetAddress with
  | mk t r =>
    rw [hlearn] at heth hip
    cases r with
    | error e => exact ⟨[],by simp [recvArp,hlearn,Except.map],by simp,by simp⟩
    | ok u =>
      by_cases hop : msg.opcode = ARPMessage.OPCODE_REQUEST
      · refine ⟨[replyTo s msg],?_,by simp,fun _ _ => rfl⟩
        simp only [recvArp,hlearn,if_pos hop,hreply t,replyTo,← heth,← hip]
        rfl
      · exact ⟨[],by simp [recvArp,hlearn,hop,Except.map],by simp,fun _ h => absurd h hop⟩

theorem Truthful.reply (h : Station plan p G W E Q s) (msg : ARPMessage) :
    Truthful plan p (replyTo s msg) :=
  ⟨rfl,_,ARPMessage.reply_supported _ _ _ _,rfl,h.ip,h.eth⟩

theorem Station.learn (h : Station plan p G W E Q s) {eth : EthernetAddress}
    (howns : plan.Owns p ip eth) : ∃ Q', Station plan p G W E Q' (s.learn ip eth).1 := by
  have hwf := h.wf.learn ip eth
  rcases learn_spec s ip eth with ⟨-,hlearn⟩ | ⟨-,sent,rest,fs,r,hsplit,hfs,hlearn,-⟩
  · rw [hlearn]
    exact ⟨Q,h⟩
  · rw [hlearn] at hwf ⊢
    refine ⟨Q ++ sent.map (fun e => (ip,e)),h.update ip _ rfl rfl hwf ?_ rfl rfl ?_ ?_
      (fun _ => le_rfl) ?_ ?_⟩
    · intro node hnode
      rcases List.mem_append.mp hnode with hnode | hnode
      · exact h.mappings node hnode
      · rw [List.mem_singleton.mp hnode]
        exact howns
    · intro f hf htype
      obtain ⟨e,-,payload,-,rfl⟩ := RouterRuns.exists_of_mem_right hfs hf
      exact absurd rfl htype
    · rw [ipv4Frames_carries hfs,List.forall₂_map_left_iff]
      exact hfs.imp fun e f hf => ⟨eth,howns,h.eth ▸ hf⟩
    · -- what was sent is no longer pending
      intro e
      have hold := h.count ip e
      rw [hsplit,List.count_append] at hold
      rw [List.count_append,count_entries,if_pos rfl]
      change _ + _ + rest.count e ≤ _
      omega
    · intro k e hk
      rw [count_entries,if_neg (Ne.symm hk)]

theorem Station.recvFrame (h : Station plan p G W E Q s) {frame : EthernetFrame}
    (htrue : ∀ msg, s.arpFor frame = some msg →
      plan.Owns p msg.senderIpAddress msg.senderEthernetAddress)
    {r : Except RuntimeError (Option InternetDatagram)} (hs : s.recvFrame frame = .ok (s',r)) :
    ∃ Q', Station plan p G W E Q' s' := by
  have hwf := h.wf.recvFrame hs
  rcases recvFrame_cases hs with rfl | ⟨msg,hmsg,harp⟩
  · exact ⟨Q,h⟩
  · obtain ⟨replies,hrecv,hreplies,-⟩ := recvArp_eq s msg
    obtain ⟨rfl,-⟩ := Prod.mk.inj (Except.ok.inj (harp.symm.trans hrecv))
    obtain ⟨Q',hlearn⟩ := h.learn (htrue msg hmsg)
    have htruth : ∀ f ∈ replies, Truthful plan p f := by
      intro f hf
      rw [hreplies f hf]
      exact Truthful.reply h msg
    refine ⟨Q' ++ [],hlearn.append replies rfl rfl hwf rfl rfl rfl (fun f hf _ => htruth f hf) ?_ (by simp)⟩
    rw [ipv4Frames_truthful htruth]
    exact .nil

theorem Truthful.owns {f : EthernetFrame} (h : Truthful plan q f) (hq : plan.Exists q)
    (hlink : plan.link q = plan.link p) {msg : ARPMessage} (hmsg : s.arpFor f = some msg) :
    plan.Owns p msg.senderIpAddress msg.senderEthernetAddress := by
  obtain ⟨m,hm,hpayload,hip,heth⟩ := h.message
  have hparsed := ARPMessage.parsed_serialized hm (ARPMessage.serialized_eq hm)
  rw [← hpayload] at hparsed
  have hsame : msg = m := by
    unfold arpFor at hmsg
    split_ifs at hmsg
    rw [hparsed] at hmsg
    simp only at hmsg
    split_ifs at hmsg
    exact (Option.some.inj hmsg).symm
  rw [hsame]
  exact ⟨q,hq,hlink,hip.symm,heth.symm⟩

theorem arpFor_ipv4 {f : EthernetFrame} (h : f.header.type = TYPE_IPv4) : s.arpFor f = none := by
  have hne : f.header.type ≠ TYPE_ARP := by
    rw [h]
    exact TYPE_ARP_ne.symm
  simp [arpFor,hne]

theorem Station.tick (h : Station plan p G W E Q s) (ms : ℕ) :
    Station plan p G W E Q (s.tick ms) where
  eth := h.eth
  ip := h.ip
  wf := h.wf.tick ms
  mappings := by
    intro node hnode
    refine h.mappings node ?_
    change node ∈ (expireMappings _ s.arpMappingQueue s.arpTable).1.nodes at hnode
    rw [expireMappings,expire_nodes] at hnode
    exact List.dropWhile_subset _ hnode
  truthful := h.truthful
  sent := h.sent
  waiting := h.waiting
  count := by
    intro ip d
    rw [tick_pending]
    exact h.count ip d

theorem Station.maybeSend (h : Station plan p G W E Q s) :
    (∃ E' Q', Station plan p G (W ++ s.maybeSend.2.toList) E' Q' s.maybeSend.1) ∧
      ∀ f, s.maybeSend.2 = some f → f.header.type ≠ TYPE_IPv4 → Truthful plan p f := by
  have hwf := h.wf.maybeSend
  have hwaiting := h.waiting
  cases hf : s.ethFramesToBeSent with
  | nil =>
    have hsend : s.maybeSend = (s,none) := by simp only [NetworkInterface.maybeSend,hf]
    rw [hsend]
    refine ⟨⟨E,Q,?_⟩,by simp⟩
    simpa using h
  | cons f fs =>
    have hsend : s.maybeSend = ({ s with ethFramesToBeSent := fs },some f) := by
      simp only [NetworkInterface.maybeSend,hf]
    rw [hsend] at hwf ⊢
    rw [hf,← List.singleton_append,ipv4Frames_append] at hwaiting
    let k := (ipv4Frames [f]).length
    refine ⟨⟨E ++ Q.take k,Q.drop k,h.eth,h.ip,hwf,h.mappings,?_,?_,?_,?_⟩,?_⟩
    · exact fun g hg => h.truthful g (by rw [hf]; exact List.mem_cons_of_mem _ hg)
    · change List.Forall₂ _ _ (ipv4Frames (W ++ [f]))
      rw [ipv4Frames_append]
      exact List.rel_append h.sent (List.forall₂_take_append _ _ _ hwaiting)
    · exact List.forall₂_drop_append _ _ _ hwaiting
    · intro ip d
      have hold := h.count ip d
      have hcut : (Q.take k).count (ip,d) + (Q.drop k).count (ip,d) = Q.count (ip,d) := by
        rw [← List.count_append,List.take_append_drop]
      rw [List.count_append]
      change _ + _ + (s.arpTable ip).pendingIpDatagrams.count d ≤ _
      omega
    · rintro g hg
      obtain rfl := Option.some.inj hg
      exact h.truthful f (by rw [hf]; exact List.mem_cons_self)

end Internet
end Minnow
