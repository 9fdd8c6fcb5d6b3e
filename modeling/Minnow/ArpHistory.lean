import Minnow.ArpCache

/-! As long as no sum of times wraps around, the cache remembers exactly what its timeouts say:
the mappings stored in the last 30 seconds and the requests of the last five. -/
namespace Minnow
namespace NetworkInterface

theorem not_expired_of_young {α : Type} {timestamp : α → ℕ} {timeoutMs now : ℕ} {node : α}
    (hsum : timestamp node + timeoutMs < 2^64) (h : now < timestamp node + timeoutMs) :
    (!decide (now < u64 (timestamp node + timeoutMs))) = false := by
  simpa [u64_of_lt hsum] using h

end NetworkInterface

namespace InterfaceRuns

open Library NetworkInterface EthernetHeader

variable {tr : Trace} {s s' : NetworkInterface} {ip : Address} {op : Op}
  {out : Option EthernetFrame}

/-- Neither the clock goes past 64 bits, nor does the deadline of a mapping that the call stores. -/
def MappingsInTime (s : NetworkInterface) : Op → Prop
  | .tick ms => s.timestamp + ms < 2^64
  | .recvFrame frame => ∀ msg ∈ s.arpFor frame,
      (s.arpTable msg.senderIpAddress).arpMappingNodePtr = none →
        s.timestamp + ArpTableEntryTimeoutMs < 2^64
  | _ => True

/-- The deadline of a request that the call makes does not go past 64 bits. -/
def RequestsInTime (s : NetworkInterface) : Op → Prop
  | .sendDatagram _ nextHop => (s.arpTable nextHop).arpMappingNodePtr = none →
      (s.arpTable nextHop).arpRequestPtr = none → s.timestamp + ArpRequestWaitingMs < 2^64
  | _ => True

def InTime (s : NetworkInterface) (op : Op) : Prop := MappingsInTime s op ∧ RequestsInTime s op

instance (s : NetworkInterface) (op : Op) : Decidable (MappingsInTime s op) :=
  match op with
  | .sendDatagram _ _ | .recvFrame _ | .tick _ | .maybeSend => by
    unfold MappingsInTime; infer_instance

instance (s : NetworkInterface) (op : Op) : Decidable (RequestsInTime s op) :=
  match op with
  | .sendDatagram _ _ | .recvFrame _ | .tick _ | .maybeSend => by
    unfold RequestsInTime; infer_instance

instance (s : NetworkInterface) (op : Op) : Decidable (InTime s op) := by
  unfold InTime; infer_instance

instance (ip : Address) (e : Call) : Decidable (Requests ip e) := by
  unfold Requests; infer_instance

theorem MappingsInTime.noOverflow (h : MappingsInTime s op) : NoOverflow s op := by
  cases op with
  | tick ms => exact h
  | _ => trivial

def asks (s : NetworkInterface) : Op → List Address
  | .sendDatagram _ nextHop =>
    if (s.arpTable nextHop).arpMappingNodePtr = none ∧ (s.arpTable nextHop).arpRequestPtr = none
    then [nextHop] else []
  | _ => []

theorem queued_requestFor (hs : step s op = .ok (s',out)) :
    (queued s op).filterMap EthernetFrame.requestFor = asks s op := by
  have hnone : ∀ fs : List EthernetFrame, (∀ f ∈ fs, f.requestFor = none) →
      fs.filterMap EthernetFrame.requestFor = [] := fun fs h => List.filterMap_eq_nil_iff.mpr h
  cases op with
  | sendDatagram d ip =>
    obtain ⟨fs,hframes,-,-,hcase⟩ := step_sendDatagram_cases hs
    rw [queued_append hs hframes,asks]
    rcases hcase with ⟨hptr,hreq,-,rfl⟩ | ⟨hknown,-,hall⟩
    · rw [if_pos ⟨hptr,hreq⟩]
      simp [EthernetFrame.requestFor_request]
    · rw [if_neg hknown]
      exact hnone fs fun f hf => EthernetFrame.requestFor_ipv4 (hall f hf).1
  | recvFrame frame =>
    obtain ⟨fs,hframes,-,-,hall,-⟩ := step_recvFrame_cases hs
    rw [queued_append hs hframes]
    exact hnone fs hall
  | tick ms =>
    rw [queued_tick]
    rfl
  | maybeSend =>
    rw [(step_maybeSend_cases hs).2.2.2]
    rfl

theorem requests_iff_mem_asks (hs : step s op = .ok (s',out)) :
    Requests ip ⟨s,op,out⟩ ↔ ip ∈ asks s op := by
  rw [← queued_requestFor hs,List.mem_filterMap]
  rfl

theorem Requests.step_ok {e : Call} (h : Requests ip e) :
    ∃ s' out, step e.before e.op = .ok (s',out) := by
  obtain ⟨f,hf,-⟩ := h
  unfold queued at hf
  split at hf
  · simp at hf
  · rename_i s' out hs
    exact ⟨s',out,hs⟩

theorem stores_none (hop : ∀ frame, op ≠ .recvFrame frame) (k : Address × EthernetAddress) :
    ¬ Stores k ⟨s,op,out⟩ := by
  rintro ⟨frame,msg,heq,-⟩
  exact hop frame heq

theorem stores_recv {frame : EthernetFrame} {k : Address × EthernetAddress} :
    Stores k ⟨s,.recvFrame frame,out⟩ ↔ ∃ msg, s.arpFor frame = some msg ∧
      (s.arpTable msg.senderIpAddress).arpMappingNodePtr = none ∧
      k = (msg.senderIpAddress,msg.senderEthernetAddress) := by
  constructor
  · rintro ⟨frame',msg,⟨⟩,hrest⟩
    exact ⟨msg,hrest⟩
  · rintro ⟨msg,hrest⟩
    exact ⟨frame,msg,rfl,hrest⟩

structure MappingsKept (tr : Trace) (s : NetworkInterface) : Prop where
  cached : Cached tr s
  mappings : Retained ticks Stores mappingKey ArpMappingNode.timestamp ArpTableEntryTimeoutMs
    s.timestamp s.arpMappingQueue.nodes tr
  deadline : ∀ node ∈ s.arpMappingQueue.nodes, node.timestamp + ArpTableEntryTimeoutMs < 2^64

theorem new_mappingsKept (eth : EthernetAddress) (ipv4 : Address) : MappingsKept [] (new eth ipv4) :=
  ⟨new_cached eth ipv4,Retained.nil,by simp [new,Deque.empty]⟩

theorem MappingsKept.tick (h : MappingsKept tr s) {ms : ℕ} (hno : s.timestamp + ms < 2^64) :
    MappingsKept (tr ++ [⟨s,.tick ms,none⟩]) (s.tick ms) := by
  refine ⟨h.cached.tick hno,?_,?_⟩
  · rw [tick_timestamp hno,tick_mappings hno]
    have hnone : ∀ k, ¬ Stores k ⟨s,.tick ms,none⟩ := stores_none (by simp)
    refine h.mappings.advance hnone ?_
    intro node hmem hyoung
    exact mem_dropWhile_of_not hmem (not_expired_of_young (h.deadline node hmem) hyoung)
  · rw [tick_mappings hno]
    exact fun node hmem => h.deadline node ((List.dropWhile_sublist _).subset hmem)

theorem MappingsKept.step (h : MappingsKept tr s) (hin : MappingsInTime s op)
    (hs : step s op = .ok (s',out)) : MappingsKept (tr ++ [⟨s,op,out⟩]) s' := by
  have hcached := h.cached.step hin.noOverflow hs
  cases op with
  | sendDatagram d ip =>
    obtain ⟨fs,-,htime,hmappings,-⟩ := step_sendDatagram_cases hs
    refine ⟨hcached,?_,by rw [hmappings]; exact h.deadline⟩
    rw [htime,hmappings]
    exact h.mappings.idle rfl (stores_none (by simp))
  | recvFrame frame =>
    obtain ⟨fs,-,htime,-,-,hcase⟩ := step_recvFrame_cases hs
    rcases hcase with ⟨hknown,hqueue,-⟩ | ⟨msg,harp,hptr,hqueue,-⟩
    · refine ⟨hcached,?_,by rw [hqueue]; exact h.deadline⟩
      rw [htime,hqueue]
      refine h.mappings.idle rfl ?_
      intro k hk
      obtain ⟨msg,harp,hptr,-⟩ := stores_recv.mp hk
      exact hknown msg harp hptr
    · refine ⟨hcached,?_,?_⟩
      · rw [htime,hqueue]
        refine h.mappings.push (e := ⟨s,.recvFrame frame,out⟩)
          (x := ⟨msg.senderIpAddress,msg.senderEthernetAddress,s.timestamp⟩) rfl ?_ rfl
        intro k hk
        obtain ⟨msg',harp',-,rfl⟩ := stores_recv.mp hk
        rw [harp] at harp'
        obtain rfl := Option.some.inj harp'
        rfl
      · rw [hqueue]
        exact List.forall_mem_append.mpr ⟨h.deadline,by simpa using hin msg harp hptr⟩
  | tick ms =>
    cases hs
    exact h.tick hin
  | maybeSend =>
    obtain ⟨hmappings,-,htime,-⟩ := step_maybeSend_cases hs
    refine ⟨hcached,?_,by rw [hmappings]; exact h.deadline⟩
    rw [htime,hmappings]
    exact h.mappings.idle rfl (stores_none (by simp))

structure Remembered (tr : Trace) (s : NetworkInterface) : Prop where
  kept : MappingsKept tr s
  requests : Retained ticks Requests ArpRequestTimeNode.ipv4 ArpRequestTimeNode.timestamp
    ArpRequestWaitingMs s.timestamp s.arpRequestTimeQueue.nodes tr
  deadline : ∀ node ∈ s.arpRequestTimeQueue.nodes, node.timestamp + ArpRequestWaitingMs < 2^64

theorem new_remembered (eth : EthernetAddress) (ipv4 : Address) : Remembered [] (new eth ipv4) :=
  ⟨new_mappingsKept eth ipv4,Retained.nil,by simp [new,Deque.empty]⟩

theorem requests_none (hs : step s op = .ok (s',out)) (hasks : asks s op = []) (k : Address) :
    ¬ Requests k ⟨s,op,out⟩ := by
  rw [requests_iff_mem_asks hs,hasks]
  simp

theorem Remembered.step (h : Remembered tr s) (hin : InTime s op) (hs : step s op = .ok (s',out)) :
    Remembered (tr ++ [⟨s,op,out⟩]) s' := by
  have hkept := h.kept.step hin.1 hs
  cases op with
  | sendDatagram d ip =>
    obtain ⟨fs,-,htime,-,hcase⟩ := step_sendDatagram_cases hs
    rcases hcase with ⟨hptr,hreq,hqueue,-⟩ | ⟨hknown,hqueue,-⟩
    · refine ⟨hkept,?_,?_⟩
      · rw [htime,hqueue]
        refine h.requests.push (e := ⟨s,.sendDatagram d ip,out⟩) (x := ⟨ip,s.timestamp⟩) rfl ?_ rfl
        intro k hk
        rw [requests_iff_mem_asks hs,asks,if_pos ⟨hptr,hreq⟩] at hk
        exact List.mem_singleton.mp hk
      · rw [hqueue]
        exact List.forall_mem_append.mpr ⟨h.deadline,by simpa using hin.2 hptr hreq⟩
    · refine ⟨hkept,?_,by rw [hqueue]; exact h.deadline⟩
      rw [htime,hqueue]
      exact h.requests.idle rfl (requests_none hs (by rw [asks,if_neg hknown]))
  | recvFrame frame =>
    obtain ⟨fs,-,htime,hrequests,-⟩ := step_recvFrame_cases hs
    refine ⟨hkept,?_,by rw [hrequests]; exact h.deadline⟩
    rw [htime,hrequests]
    exact h.requests.idle rfl (requests_none hs rfl)
  | tick ms =>
    have hno : s.timestamp + ms < 2^64 := hin.1
    cases hs
    refine ⟨hkept,?_,?_⟩
    · rw [tick_timestamp hno,tick_requests hno]
      refine h.requests.advance (e := ⟨s,.tick ms,none⟩) (requests_none rfl rfl) ?_
      intro node hmem hyoung
      exact mem_dropWhile_of_not hmem (not_expired_of_young (h.deadline node hmem) hyoung)
    · rw [tick_requests hno]
      exact fun node hmem => h.deadline node ((List.dropWhile_sublist _).subset hmem)
  | maybeSend =>
    obtain ⟨-,hrequests,htime,-⟩ := step_maybeSend_cases hs
    refine ⟨hkept,?_,by rw [hrequests]; exact h.deadline⟩
    rw [htime,hrequests]
    exact h.requests.idle rfl (requests_none hs rfl)

theorem run_remembered {eth : EthernetAddress} {ipv4 : Address}
    (hr : Run InterfaceRuns.step (new eth ipv4) tr s) (hin : ∀ e ∈ tr, InTime e.before e.op) :
    Remembered tr s :=
  Run.history_invariant Remembered (fun e => InTime e.before e.op) (new_remembered eth ipv4)
    (fun hi hg hs => hi.step hg hs) hr hin

theorem MappingsKept.mapping_iff (h : MappingsKept tr s) (ip : Address) :
    (s.arpTable ip).arpMappingNodePtr = none ↔
      ∀ eth age, Ago ticks (Stores (ip,eth)) age tr → ArpTableEntryTimeoutMs ≤ age := by
  rw [← not_iff_not,← ne_eq,h.cached.wf.mappings.ne_none_iff ip]
  constructor
  · rintro ⟨node,hmem,rfl⟩ hall
    obtain ⟨age,hlt,-,hago⟩ := h.cached.mappings.recent node hmem
    have := hall node.ethAddr age hago
    omega
  · intro hsome
    simp only [not_forall,not_le] at hsome
    obtain ⟨eth,age,hago,hlt⟩ := hsome
    obtain ⟨node,hmem,hkey,-⟩ := h.mappings (ip,eth) age hago hlt
    exact ⟨node,hmem,congrArg Prod.fst hkey⟩

theorem Remembered.request_iff (h : Remembered tr s) (ip : Address) :
    (s.arpTable ip).arpRequestPtr = none ↔
      ∀ age, Ago ticks (Requests ip) age tr → ArpRequestWaitingMs ≤ age := by
  rw [← not_iff_not,← ne_eq,h.kept.cached.wf.requests.ne_none_iff ip]
  constructor
  · rintro ⟨node,hmem,rfl⟩ hall
    obtain ⟨age,hlt,-,hago⟩ := h.kept.cached.requests.recent node hmem
    have := hall age hago
    omega
  · intro hsome
    simp only [not_forall,not_le] at hsome
    obtain ⟨age,hago,hlt⟩ := hsome
    obtain ⟨node,hmem,hip,-⟩ := h.requests ip age hago hlt
    exact ⟨node,hmem,hip⟩

theorem Remembered.apart (h : Remembered tr s) (hreq : Requests ip ⟨s,op,out⟩) {age : ℕ}
    (hago : Ago ticks (Requests ip) age tr) : 5000 ≤ age := by
  obtain ⟨s',out',hs⟩ := hreq.step_ok
  have hagain : Requests ip ⟨s,op,out'⟩ := hreq
  have hask : ip ∈ asks s op := (requests_iff_mem_asks hs).mp hagain
  cases op with
  | sendDatagram d hop =>
    simp only [asks] at hask
    split_ifs at hask with hnone
    · rw [List.mem_singleton.mp hask] at hago
      exact (h.request_iff hop).mp hnone.2 age hago
    · simp at hask
  | recvFrame frame => simp [asks] at hask
  | tick ms => simp [asks] at hask
  | maybeSend => simp [asks] at hask

/-- As long as no sum of times wraps around: between two requests for one address lie at least
5000 ms, no call queues two requests, and `send_datagram` queues one for its next hop exactly when
no mapping of it was stored in the last 30000 ms and no request for it queued in the last 5000. -/
theorem requests_rate_limited {eth : EthernetAddress} {ipv4 : Address}
    (hr : Run InterfaceRuns.step (new eth ipv4) tr s) (hin : ∀ e ∈ tr, InTime e.before e.op) :
    (∀ ip before e₁ between e₂ after, tr = before ++ e₁::between ++ e₂::after →
      Requests ip e₁ → Requests ip e₂ → 5000 ≤ elapsed ticks between) ∧
    (∀ e ∈ tr, ((queued e.before e.op).filterMap EthernetFrame.requestFor).length ≤ 1) ∧
    ∀ d ip s' out, InterfaceRuns.step s (.sendDatagram d ip) = .ok (s',out) →
      (Requests ip ⟨s,.sendDatagram d ip,out⟩ ↔
        (∀ eth age, Ago ticks (Stores (ip,eth)) age tr → 30000 ≤ age) ∧
          ∀ age, Ago ticks (Requests ip) age tr → 5000 ≤ age) := by
  refine ⟨?_,?_,?_⟩
  · rintro ip before e₁ between e₂ after rfl h₁ h₂
    have hprefix := run_remembered hr.to_event
      fun e he => hin e (List.mem_append_left _ he)
    have hagain : Requests ip ⟨e₂.before,e₂.op,e₂.out⟩ := h₂
    exact hprefix.apart hagain ⟨before,e₁,between,rfl,h₁,fun _ _ => id,rfl⟩
  · intro e he
    unfold queued
    split
    · simp
    · rename_i s' out hs
      have hasks := queued_requestFor hs
      simp only [queued,hs] at hasks
      rw [hasks]
      cases e.op with
      | sendDatagram d ip =>
        simp only [asks]
        split_ifs <;> simp
      | recvFrame frame => simp [asks]
      | tick ms => simp [asks]
      | maybeSend => simp [asks]
  · intro d ip s' out hs
    have h := run_remembered hr hin
    have hmapping := h.kept.mapping_iff ip
    have hrequest := h.request_iff ip
    rw [requests_iff_mem_asks hs]
    change _ ↔ (∀ eth age, _ → ArpTableEntryTimeoutMs ≤ age) ∧ ∀ age, _ → ArpRequestWaitingMs ≤ age
    rw [← hmapping,← hrequest,asks]
    split_ifs with hnone
    · simp [hnone]
    · simpa using hnone

/-- Four datagrams for one hop within five seconds and one after: two requests. -/
theorem requests_rate_limited_waiting : ∃ tr s,
    Run InterfaceRuns.step (new ⟨[2,0,0,0,0,1],rfl⟩ 1) tr s ∧
      tr.map (fun e => decide (Requests 7 e)) = [true,false,false,false,false,true] ∧
      ∀ ip before e₁ between e₂ after, tr = before ++ e₁::between ++ e₂::after →
        Requests ip e₁ → Requests ip e₂ → 5000 ≤ elapsed ticks between := by
  obtain ⟨tr,s,hr,hreq,hin⟩ := Run.exists_of_exec InterfaceRuns.step
    (new ⟨[2,0,0,0,0,1],rfl⟩ 1)
    [.sendDatagram {} 7,.sendDatagram {} 7,.tick 4999,.sendDatagram {} 7,.tick 1,.sendDatagram {} 7]
    (fun tr _ => tr.map (fun e => decide (Requests 7 e)) = [true,false,false,false,false,true] ∧
      ∀ e ∈ tr, InTime e.before e.op) (by decide +kernel)
  exact ⟨tr,s,hr,hreq,(requests_rate_limited hr hin).1⟩

/-- The deadline of a request wraps around, so the next tick forgets it at once: two requests with
no time between them. -/
theorem requests_too_close : ¬ ∀ tr s, Run InterfaceRuns.step (new ⟨[2,0,0,0,0,1],rfl⟩ 1) tr s →
    ∀ ip before e₁ between e₂ after, tr = before ++ e₁::between ++ e₂::after →
      Requests ip e₁ → Requests ip e₂ → 5000 ≤ elapsed ticks between := by
  intro hall
  obtain ⟨tr,s,hr,hbad⟩ := Run.exists_of_exec InterfaceRuns.step (new ⟨[2,0,0,0,0,1],rfl⟩ 1)
    [.tick (2^64-1),.sendDatagram {} 7,.tick 0,.sendDatagram {} 7]
    (fun tr _ => ∃ e₀ ∈ tr[0]?, ∃ e₁ ∈ tr[1]?, ∃ e₂ ∈ tr[2]?, ∃ e₃ ∈ tr[3]?, tr.length = 4 ∧
      Requests 7 e₁ ∧ Requests 7 e₃ ∧ ticks e₂ = 0) (by decide +kernel)
  obtain ⟨e₀,h₀,e₁,h₁,e₂,h₂,e₃,h₃,hlen,hreq₁,hreq₃,hzero⟩ := hbad
  have htr : tr = [e₀] ++ e₁::[e₂] ++ e₃::[] := by
    match tr, hlen, h₀, h₁, h₂, h₃ with
    | [_,_,_,_], _, rfl, rfl, rfl, rfl => rfl
  have := hall tr s hr 7 [e₀] e₁ [e₂] e₃ [] htr hreq₁ hreq₃
  rw [elapsed_singleton,hzero] at this
  omega

end InterfaceRuns
end Minnow
