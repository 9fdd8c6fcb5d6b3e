import Minnow.InternetProgress

/-! Datagrams get over a link. From every reachable state in which an interface is about to ask for
the address of a hop, the request can be sent and answered, and what was pending reaches the owner
of the hop. -/
namespace Minnow
namespace Internet

open Library EthernetHeader NetworkInterface InterfaceRuns State

section exchange

variable {n n' : NetworkInterface} {ip : Address} {d : InternetDatagram}

theorem recvFrame_message {f : EthernetFrame} {m : ARPMessage}
    (hdst : f.header.dst = n.ethernetAddress ∨ f.header.dst = ETHERNET_BROADCAST)
    (htype : f.header.type = TYPE_ARP) (hm : m.supported = true) (hpayload : f.payload = [m.bytes])
    (htarget : m.targetIpAddress = n.ipv4) : n.recvFrame f = n.recvArp m := by
  have hparsed := ARPMessage.parsed_serialized hm (ARPMessage.serialized_eq hm)
  rw [← hpayload] at hparsed
  refine recvFrame_arp ?_
  rw [arpFor,if_neg (by tauto),if_pos htype,hparsed]
  simp [htarget]

theorem learn_ok (h : ∀ d ∈ (n.arpTable ip).pendingIpDatagrams, d.header.ver = 4)
    (eth : EthernetAddress) : (n.learn ip eth).2 = .ok () := by
  rcases learn_spec n ip eth with ⟨-,hlearn⟩ | ⟨-,sent,rest,fs,r,hsplit,-,hlearn,hall⟩
  · rw [hlearn]
  · rw [hlearn]
    refine (hall fun d hd => h d ?_).2
    rw [hsplit]
    exact List.mem_append_right _ hd

theorem recvFrame_request (ip : Address) (eth : EthernetAddress)
    (h : ∀ d ∈ (n.arpTable ip).pendingIpDatagrams, d.header.ver = 4) :
    ∃ n', n.recvFrame (EthernetFrame.broadcast eth TYPE_ARP
        [(ARPMessage.request eth ip n.ipv4).bytes]) = .ok (n',.ok none) ∧
      replyTo n (ARPMessage.request eth ip n.ipv4) ∈ n'.ethFramesToBeSent ∧
      n'.ethernetAddress = n.ethernetAddress := by
  have hmsg := recvFrame_message (n := n)
    (f := EthernetFrame.broadcast eth TYPE_ARP [(ARPMessage.request eth ip n.ipv4).bytes])
    (Or.inr rfl) rfl (ARPMessage.request_supported eth ip n.ipv4) rfl rfl
  obtain ⟨replies,hrecv,-,hreplies⟩ := recvArp_eq n (ARPMessage.request eth ip n.ipv4)
  have hok : (n.learn (ARPMessage.request eth ip n.ipv4).senderIpAddress
      (ARPMessage.request eth ip n.ipv4).senderEthernetAddress).2 = .ok () := learn_ok h eth
  rw [hok] at hrecv
  refine ⟨_,hmsg.trans hrecv,?_,(learn_addresses n ip eth).1⟩
  rw [hreplies hok rfl]
  exact List.mem_append_right _ List.mem_cons_self

theorem recvFrame_reply (src eth : EthernetAddress)
    (hptr : (n.arpTable ip).arpMappingNodePtr = none)
    (h : ∀ d ∈ (n.arpTable ip).pendingIpDatagrams, d.header.ver = 4)
    (hd : d ∈ (n.arpTable ip).pendingIpDatagrams) :
    ∃ n', n.recvFrame ⟨⟨n.ethernetAddress,src,TYPE_ARP⟩,
        [(ARPMessage.reply eth ip n.ethernetAddress n.ipv4).bytes]⟩ = .ok (n',.ok none) ∧
      ∃ f ∈ n'.ethFramesToBeSent, Carries n.ethernetAddress eth d f := by
  let m := ARPMessage.reply eth ip n.ethernetAddress n.ipv4
  have hmsg := recvFrame_message (n := n) (f := ⟨⟨n.ethernetAddress,src,TYPE_ARP⟩,[m.bytes]⟩)
    (Or.inl rfl) rfl (ARPMessage.reply_supported eth ip n.ethernetAddress n.ipv4) rfl rfl
  obtain ⟨replies,hrecv,-,-⟩ := recvArp_eq n m
  have hok : (n.learn m.senderIpAddress m.senderEthernetAddress).2 = .ok () := learn_ok h eth
  rw [hok] at hrecv
  refine ⟨_,hmsg.trans hrecv,?_⟩
  rcases learn_spec n ip eth with ⟨hsome,-⟩ | ⟨-,sent,rest,fs,r,hsplit,hfs,hlearn,hall⟩
  · exact absurd hptr hsome
  · obtain ⟨rfl,-⟩ := hall fun e he => h e (by rw [hsplit]; exact List.mem_append_right _ he)
    rw [hsplit,List.append_nil] at hd
    obtain ⟨f,hf,hcarries⟩ := RouterRuns.exists_of_mem_right
      (R := fun f e => Carries n.ethernetAddress eth e f) hfs.flip hd
    refine ⟨f,?_,hcarries⟩
    have hlearn' : (n.learn m.senderIpAddress m.senderEthernetAddress).1.ethFramesToBeSent =
        n.ethFramesToBeSent ++ fs := by
      change (n.learn ip eth).1.ethFramesToBeSent = _
      rw [hlearn]
    simp only [hlearn']
    exact List.mem_append_left _ (List.mem_append_right _ hf)

theorem recvFrame_carries {src : EthernetAddress} {f : EthernetFrame} (hd : Sendable d)
    (hf : Carries src n.ethernetAddress d f) :
    ∃ d', n.recvFrame f = .ok (n,.ok (some d')) ∧ Refreshed d d' := by
  obtain ⟨payload,hser,rfl⟩ := hf
  obtain ⟨d',ok,hparsed,href⟩ := hd.parsed hser
  refine ⟨d',?_,href⟩
  simp [NetworkInterface.recvFrame,hparsed]

def remaining (n : NetworkInterface) : ℕ := 2^64 - 1 - n.timestamp % 2^64

/-- At the largest value of the clock every mapping and every request has expired, also where the
sums wrap around. -/
theorem tick_forgets (h : n.WF) (ip : Address) :
    ((n.tick (remaining n)).arpTable ip).arpMappingNodePtr = none ∧
      ((n.tick (remaining n)).arpTable ip).arpRequestPtr = none := by
  have hold : ∀ k, ¬ u64 (n.timestamp + remaining n) < u64 k := by
    intro k
    unfold u64 remaining
    omega
  have hwf := h.tick (remaining n)
  constructor
  · by_contra hsome
    obtain ⟨node,hnode,-⟩ := (hwf.mappings.ne_none_iff ip).mp hsome
    change node ∈ (expireMappings _ n.arpMappingQueue n.arpTable).1.nodes at hnode
    rw [expireMappings,expire_nodes,List.dropWhile_eq_nil_iff.mpr] at hnode
    · cases hnode
    · intro x _
      simpa using hold _
  · by_contra hsome
    obtain ⟨node,hnode,-⟩ := (hwf.requests.ne_none_iff ip).mp hsome
    change node ∈ (expireRequests _ n.arpRequestTimeQueue _).1.nodes at hnode
    rw [expireRequests,expire_nodes,List.dropWhile_eq_nil_iff.mpr] at hnode
    · cases hnode
    · intro x _
      simpa using hold _

/-- The datagram is pending for a hop that is not known, and the request for it waits to be sent. -/
structure Asks (n : NetworkInterface) (ip : Address) (d : InternetDatagram) : Prop where
  unknown : (n.arpTable ip).arpMappingNodePtr = none
  pending : d ∈ (n.arpTable ip).pendingIpDatagrams
  request : EthernetFrame.broadcast n.ethernetAddress TYPE_ARP
    [(ARPMessage.request n.ethernetAddress n.ipv4 ip).bytes] ∈ n.ethFramesToBeSent

theorem asks_of_sendDatagram (hptr : (n.arpTable ip).arpMappingNodePtr = none)
    (hreq : (n.arpTable ip).arpRequestPtr = none) {r : Except RuntimeError Unit}
    (hs : n.sendDatagram d ip = .ok (n',r)) : Asks n' ip d := by
  rw [sendDatagram_request d hptr hreq] at hs
  obtain ⟨rfl,-⟩ := Prod.mk.inj (Except.ok.inj hs)
  constructor
  · simp [sendRequest,hptr]
  · simp [sendRequest]
  · simp [sendRequest]

end exchange

variable {η ρ L : Type} {plan : Plan η ρ L}

/-- What needs no owner: frames and datagrams move on, and time passes. -/
def Unattended (plan : Plan η ρ L) : Op η ρ → Prop
  | .route _ => True
  | .tick p _ | .maybeSend p | .deliver _ p => plan.Exists p
  | .sendDatagram _ _ _ | .maybeReceive _ | .addRoute _ _ => False

theorem Unattended.admissible {op : Op η ρ} (h : Unattended plan op) : Admissible plan op := by
  cases op with
  | route | tick | maybeSend | deliver => exact h
  | sendDatagram | maybeReceive | addRoute => exact h.elim

/-- The network goes on by itself. -/
abbrev GoesOn [DecidableEq η] [DecidableEq ρ] [DecidableEq L] (plan : Plan η ρ L)
    (s s' : State η ρ) : Prop :=
  Reaches (step plan) (fun _ op => Unattended plan op) s s'

def State.incoming (s : State η ρ) (p : Port η ρ) : List InternetDatagram :=
  match s.interfaceAt p with
  | none => []
  | some a => a.datagramsIn

/-- The interface with all of its frames sent. -/
def emptied (a : AsyncNetworkInterface) : AsyncNetworkInterface := { a with ethFramesToBeSent := [] }

variable [DecidableEq ρ] [DecidableEq η] {s s' : State η ρ} {p q : Port η ρ}
  {a b : AsyncNetworkInterface} {d : InternetDatagram}

theorem Live.station (h : Live plan s) (ha : s.interfaceAt p = some a) : plan.Exists p ∧
    a.ethernetAddress = plan.eth p ∧ a.ipv4 = plan.ip p ∧ a.toNetworkInterface.WF ∧
      ∀ ip, ∀ d ∈ (a.arpTable ip).pendingIpDatagrams, Sendable d := by
  obtain ⟨l,hi,-,hsrc,-⟩ := h
  obtain ⟨E,Q,hst⟩ := hi.stations p a ha
  refine ⟨(hi.exists_iff p).mpr (by simp [ha]),hst.eth,hst.ip,hst.wf,?_⟩
  intro ip d hd
  exact hsrc.sendable _ (mem_givenAt.mp (hst.pending hd))

theorem Live.interface (h : Live plan s) (hp : plan.Exists p) : ∃ a, s.interfaceAt p = some a := by
  obtain ⟨l,hi,-⟩ := h
  exact Option.ne_none_iff_exists'.mp ((hi.exists_iff p).mp hp)

variable [DecidableEq L]

theorem sends_all (hp : plan.Exists p) (ha : s.interfaceAt p = some a) :
    ∃ s', GoesOn plan s s' ∧ s'.interfaceAt p = some (emptied a) ∧
      (∀ r, r ≠ p → s'.interfaceAt r = s.interfaceAt r) ∧
      ∀ f ∈ a.ethFramesToBeSent, (p,f) ∈ s'.wire := by
  generalize hfs : a.ethFramesToBeSent = fs
  suffices h : ∃ s', GoesOn plan s s' ∧
      s'.interfaceAt p = some (emptied a) ∧ (∀ r, r ≠ p → s'.interfaceAt r = s.interfaceAt r) ∧
      s'.wire = s.wire ++ fs.map fun f => (p,f) by
    obtain ⟨s',hreach,hat,hothers,hwire⟩ := h
    refine ⟨s',hreach,hat,hothers,?_⟩
    intro f hf
    rw [hwire]
    exact List.mem_append_right _ (List.mem_map.mpr ⟨f,hf,rfl⟩)
  induction fs generalizing s a with
  | nil =>
    refine ⟨s,.refl _ _ _,?_,fun _ _ => rfl,by simp⟩
    rw [ha,emptied,← hfs]
  | cons f fs ih =>
    let a' : AsyncNetworkInterface := { a with ethFramesToBeSent := fs }
    let t : State η ρ := { s.setInterface p a' with wire := s.wire ++ [(p,f)] }
    have hstep : step plan s (.maybeSend p) = .ok (t,{}) := by
      have hsend : a.toNetworkInterface.maybeSend = (a'.toNetworkInterface,some f) := by
        simp only [NetworkInterface.maybeSend,hfs]
        rfl
      refine (transmit_eq ha).trans ?_
      rw [hsend]
      rfl
    have hat : ∀ r, t.interfaceAt r = if r = p then some a' else s.interfaceAt r := by
      intro r
      rw [← setInterface_interfaceAt (by simp [ha]) a' r]
      cases r <;> rfl
    obtain ⟨s',hreach,hat',hothers,hwire⟩ := ih (s := t) (a := a') (by simp [hat]) rfl
    refine ⟨s',(Reaches.single hstep hp).trans hreach,hat',?_,?_⟩
    · intro r hr
      rw [hothers r hr,hat,if_neg hr]
    · rw [hwire]
      simp [t]

theorem conveys (hp : plan.Exists p) (hq : plan.Exists q) (hpq : p ≠ q)
    (hlink : plan.link p = plan.link q) (ha : s.interfaceAt p = some a) (hb : s.interfaceAt q = some b)
    {f : EthernetFrame} (hf : f ∈ a.ethFramesToBeSent) {n : NetworkInterface}
    {d : Option InternetDatagram} (hrecv : b.toNetworkInterface.recvFrame f = .ok (n,.ok d)) :
    ∃ s', GoesOn plan s s' ∧ s'.interfaceAt p = some (emptied a) ∧
      s'.interfaceAt q = some ⟨n,b.datagramsIn ++ d.toList⟩ ∧
      ∀ r, r ≠ p → r ≠ q → s'.interfaceAt r = s.interfaceAt r := by
  obtain ⟨t,hreach,hat,hothers,hwire⟩ := sends_all hp ha
  have hb' : t.interfaceAt q = some b := by rw [hothers q hpq.symm,hb]
  obtain ⟨k,hk⟩ := List.getElem?_of_mem (hwire f hf)
  have hne : t.interfaceAt q ≠ none := by simp [hb']
  refine ⟨_,hreach.trans (.single (deliver_eq hk hlink hb' hrecv) hq),?_,?_,?_⟩
  · rw [setInterface_interfaceAt hne,if_neg hpq,hat]
  · rw [setInterface_interfaceAt hne,if_pos rfl]
  · intro r hrp hrq
    rw [setInterface_interfaceAt hne,if_neg hrq,hothers r hrp]

/-- The request, the answer, and the datagram. -/
theorem Live.exchange (h : Live plan s) (hpq : p ≠ q) (hq : plan.Exists q)
    (hlink : plan.link p = plan.link q) (ha : s.interfaceAt p = some a)
    (hasks : Asks a.toNetworkInterface (plan.ip q) d) :
    ∃ s' d', GoesOn plan s s' ∧ Refreshed d d' ∧
      s'.incoming q = s.incoming q ++ [d'] ∧ ∀ r, r ≠ q → s'.incoming r = s.incoming r := by
  obtain ⟨b,hb⟩ := h.interface hq
  obtain ⟨hp,-,-,-,hpending⟩ := h.station ha
  obtain ⟨-,-,hip,-,hpending'⟩ := h.station hb
  rw [← hip] at hasks
  obtain ⟨m,hrecv₁,hreply,heth⟩ := recvFrame_request (n := b.toNetworkInterface) a.ipv4
    a.ethernetAddress fun d hd => (hpending' _ d hd).ver
  obtain ⟨s₁,hreach₁,hp₁,hq₁,hothers₁⟩ := conveys hp hq hpq hlink ha hb hasks.request hrecv₁
  obtain ⟨n,hrecv₂,f,hf,hcarries⟩ := recvFrame_reply (n := (emptied a).toNetworkInterface)
    b.ethernetAddress b.ethernetAddress hasks.unknown
    (fun d hd => (hpending _ d hd).ver) hasks.pending
  obtain ⟨s₂,hreach₂,hq₂,hp₂,hothers₂⟩ :=
    conveys hq hp hpq.symm hlink.symm hq₁ hp₁ hreply hrecv₂
  rw [← heth] at hcarries
  obtain ⟨d',hrecv₃,href⟩ := recvFrame_carries
    (n := { m with ethFramesToBeSent := [] })
    (hpending _ d hasks.pending) hcarries
  obtain ⟨s₃,hreach₃,hp₃,hq₃,hothers₃⟩ := conveys hp hq hpq hlink hp₂ hq₂ hf hrecv₃
  refine ⟨s₃,d',(hreach₁.trans hreach₂).trans hreach₃,href,?_,?_⟩
  · simp [State.incoming,hq₃,hb,emptied]
  · intro r hr
    by_cases hrp : r = p
    · subst hrp
      simp [State.incoming,hp₃,ha,emptied]
    · simp only [State.incoming,hothers₃ r hrp hr,hothers₂ r hr hrp,hothers₁ r hrp hr]

end Internet
end Minnow
