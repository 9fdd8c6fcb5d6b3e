import Minnow.ArpCache

/-! Every IPv4 frame against the calls of `send_datagram`: which call it stems from, and which
mapping it was addressed by. A datagram leaves at once, or out of the pending ones when some
frame comes in. -/
namespace Minnow
namespace InterfaceRuns

open Library NetworkInterface EthernetHeader

/-- A call of `send_datagram`, with its place in the run. -/
structure Sending where
  index : ℕ
  nextHop : Address
  dgram : InternetDatagram

def IsCall (tr : Trace) (x : Sending) : Prop :=
  (tr.map Event.op)[x.index]? = some (.sendDatagram x.dgram x.nextHop)

def Maps (s : NetworkInterface) (ip : Address) (eth : EthernetAddress) : Prop :=
  ∃ ptr node, (s.arpTable ip).arpMappingNodePtr = some ptr ∧
    s.arpMappingQueue.deref ptr = some node ∧ node.ipv4 = ip ∧ node.ethAddr = eth

def queuedFrames (tr : Trace) : List (ℕ × EthernetFrame) :=
  tr.zipIdx.flatMap fun (e,k) => (queued e.before e.op).map fun f => (k,f)

def ipv4Only (qs : List (ℕ × EthernetFrame)) : List (ℕ × EthernetFrame) :=
  qs.filter fun q => q.2.header.type = TYPE_IPv4

/-- The frame was queued not before the call; it carries the datagram of the call, to the address
that the next hop of the call was mapped to when the frame was queued. -/
structure Delivers (tr : Trace) (x : Sending) (q : ℕ × EthernetFrame) : Prop where
  call : IsCall tr x
  after : x.index ≤ q.1
  payload : x.dgram.serialized = .ok q.2.payload
  mapped : ∃ e s', tr[q.1]? = some e ∧ step e.before e.op = .ok (s',e.out) ∧
    Maps s' x.nextHop q.2.header.dst

/-- Two calls in the order in which their frames are queued: they are different calls, and for one
next hop the earlier call comes first. -/
def Before (x y : Sending) : Prop :=
  x.index ≠ y.index ∧ (x.nextHop = y.nextHop → x.index < y.index)

def Version4 : Op → Prop
  | .sendDatagram dgram _ => dgram.header.ver = 4
  | _ => True

instance (op : Op) : Decidable (Version4 op) :=
  match op with
  | .sendDatagram _ _ | .recvFrame _ | .tick _ | .maybeSend => by unfold Version4; infer_instance

variable {tr : Trace} {s s' : NetworkInterface} {ip : Address} {op : Op}
  {out : Option EthernetFrame} {x y : Sending}

theorem queuedFrames_snoc (tr : Trace) (s : NetworkInterface) (op : Op)
    (out : Option EthernetFrame) : queuedFrames (tr ++ [⟨s,op,out⟩]) =
      queuedFrames tr ++ (queued s op).map fun f => (tr.length,f) := by
  simp [queuedFrames,List.zipIdx_append]

theorem ipv4Only_append (qs qs' : List (ℕ × EthernetFrame)) :
    ipv4Only (qs ++ qs') = ipv4Only qs ++ ipv4Only qs' := List.filter_append _ _

theorem ipv4Only_map (k : ℕ) (fs : List EthernetFrame) :
    ipv4Only (fs.map fun f => (k,f)) = (ipv4Frames fs).map fun f => (k,f) := by
  rw [ipv4Only,List.filter_map]
  rfl

theorem step_silent (hs : step s op = .ok (s',out)) (hop : op ≠ .maybeSend) : out = none := by
  cases op with
  | sendDatagram d ip => exact (step_sends hs).2
  | recvFrame frame => exact (step_receives hs).2
  | tick ms =>
    cases hs
    rfl
  | maybeSend => exact absurd rfl hop

theorem step_frames (hs : step s op = .ok (s',out)) :
    out.toList ++ s'.ethFramesToBeSent = s.ethFramesToBeSent ++ queued s op := by
  cases op with
  | sendDatagram d ip =>
    obtain ⟨fs,hframes,-⟩ := step_sendDatagram_cases hs
    rw [queued_append hs hframes,hframes,step_silent hs (by simp)]
    rfl
  | recvFrame frame =>
    obtain ⟨fs,hframes,-⟩ := step_recvFrame_cases hs
    rw [queued_append hs hframes,hframes,step_silent hs (by simp)]
    rfl
  | tick ms =>
    rw [queued_tick]
    cases hs
    simp
  | maybeSend =>
    rw [(step_maybeSend_cases hs).2.2.2,List.append_nil]
    have heq : s.maybeSend = (s',out) := Except.ok.inj hs
    unfold NetworkInterface.maybeSend at heq
    split at heq
    · cases heq
      rfl
    · rename_i frames hf
      cases heq
      exact hf.symm

/-- Frames wait in the order in which they were queued, and leave in it. -/
theorem run_frames {eth : EthernetAddress} {ipv4 : Address} (hr : Run step (new eth ipv4) tr s) :
    emitted tr ++ s.ethFramesToBeSent = (queuedFrames tr).map Prod.snd := by
  refine Run.history_invariant
    (fun tr s => emitted tr ++ s.ethFramesToBeSent = (queuedFrames tr).map Prod.snd)
    (fun _ => True) rfl ?_ hr fun _ _ => trivial
  intro tr s s' op out hprev _ hs
  have hframes := step_frames hs
  rw [emitted_snoc,queuedFrames_snoc,List.map_append,← hprev,List.append_assoc,hframes]
  simp [Function.comp_def]

/-- A call that is not `send_datagram` queues what was pending or nothing; `send_datagram` drops its
datagram, keeps it, or queues it at once. -/
inductive Moves (s s' : NetworkInterface) (op : Op) : Prop
  | idle (frames : ipv4Frames (queued s op) = [])
      (pending : ∀ k, (s'.arpTable k).pendingIpDatagrams = (s.arpTable k).pendingIpDatagrams)
  | keep (ip : Address) (d : InternetDatagram) (call : op = .sendDatagram d ip)
      (frames : ipv4Frames (queued s op) = [])
      (pending : ∀ k, (s'.arpTable k).pendingIpDatagrams =
        (s.arpTable k).pendingIpDatagrams ++ if k = ip then [d] else [])
  | send (ip : Address) (d : InternetDatagram) (eth : EthernetAddress) (f : EthernetFrame)
      (call : op = .sendDatagram d ip) (frames : ipv4Frames (queued s op) = [f])
      (carries : Carries s.ethernetAddress eth d f) (maps : Maps s' ip eth)
      (empty : (s.arpTable ip).pendingIpDatagrams = [])
      (pending : ∀ k, (s'.arpTable k).pendingIpDatagrams = (s.arpTable k).pendingIpDatagrams)
  | flush (ip : Address) (eth : EthernetAddress)
      (carries : List.Forall₂ (Carries s.ethernetAddress eth) (s.arpTable ip).pendingIpDatagrams
        (ipv4Frames (queued s op))) (maps : Maps s' ip eth)
      (pending : ∀ k, (s'.arpTable k).pendingIpDatagrams =
        if k = ip then [] else (s.arpTable k).pendingIpDatagrams)

/-- What the calls of a run rely on: sound pointers, no datagram pending where a mapping is known,
and none that cannot be serialized. -/
structure Ready (s : NetworkInterface) : Prop where
  wf : s.WF
  waiting : Waiting s
  versions : ∀ ip, ∀ d ∈ (s.arpTable ip).pendingIpDatagrams, d.header.ver = 4

theorem ipv4Frames_carries {src dst : EthernetAddress} {ds : List InternetDatagram}
    {fs : List EthernetFrame} (h : List.Forall₂ (Carries src dst) ds fs) : ipv4Frames fs = fs := by
  rw [ipv4Frames,List.filter_eq_self]
  intro f hf
  simpa using (carries_header h f hf).1

theorem Ready.sendDatagram (h : Ready s) {d : InternetDatagram} (hver : d.header.ver = 4)
    (hs : step s (.sendDatagram d ip) = .ok (s',out)) :
    Waiting s' ∧ Moves s s' (.sendDatagram d ip) := by
  obtain ⟨r,hsend⟩ := (step_sends hs).1
  rcases sendDatagram_cases hsend with ⟨hptr,hreq,payload,rfl⟩ | ⟨hptr,hreq,rfl⟩ |
    ⟨ptr,node,f,hptr,hnode,hcarries,rfl⟩ | ⟨-,hbad,-⟩
  · refine ⟨h.waiting.update rfl fun hsome => absurd hptr hsome,.keep ip d rfl ?_ ?_⟩
    · rw [queued_append hs rfl]
      rfl
    · intro k
      simp only [sendRequest]
      by_cases hk : k = ip
      · rw [hk,Function.update_self,if_pos rfl]
      · rw [Function.update_of_ne hk,if_neg hk,List.append_nil]
  · -- a request is outstanding, so the datagram is dropped
    have hqueued : queued s' (.sendDatagram d ip) = [] := queued_append hs (List.append_nil _).symm
    refine ⟨h.waiting,.idle ?_ fun _ => rfl⟩
    rw [hqueued]
    rfl
  · obtain ⟨node',hnode',hip⟩ := h.wf.mappings.deref hptr
    obtain rfl : node' = node := Option.some.inj (hnode'.symm.trans hnode)
    have hqueued : queued s (.sendDatagram d ip) = [f] := queued_append hs rfl
    refine ⟨h.waiting,.send ip d node'.ethAddr f rfl ?_ hcarries ⟨ptr,node',hptr,hnode,hip,rfl⟩
      (h.waiting ip (by rw [hptr]; simp)) fun _ => rfl⟩
    rw [hqueued]
    exact ipv4Frames_carries (.cons hcarries .nil)
  · exact absurd hver hbad

theorem Ready.recvFrame (h : Ready s) {frame : EthernetFrame}
    (hs : step s (.recvFrame frame) = .ok (s',out)) :
    Waiting s' ∧ Moves s s' (.recvFrame frame) := by
  obtain ⟨r,hrecv⟩ := (step_receives hs).1
  rcases recvFrame_cases hrecv with rfl | ⟨msg,-,harp⟩
  · have hqueued : queued s' (.recvFrame frame) = [] := queued_append hs (List.append_nil _).symm
    refine ⟨h.waiting,.idle ?_ fun _ => rfl⟩
    rw [hqueued]
    rfl
  · obtain ⟨replies,r',hrun,hreplies⟩ := recvArp_spec s msg
    obtain ⟨rfl,-⟩ := Prod.mk.inj (Except.ok.inj (harp.symm.trans hrun))
    have hnone := ipv4Frames_arp fun f hf => (hreplies f hf).1
    rcases learn_spec s msg.senderIpAddress msg.senderEthernetAddress with
      ⟨hptr,hlearn⟩ | ⟨hptr,sent,rest,fs,r'',hsplit,hfs,hlearn,hall⟩
    · rw [hlearn] at hs ⊢
      refine ⟨h.waiting,.idle ?_ fun _ => rfl⟩
      rw [queued_append hs rfl,hnone]
    · -- all that was pending can be serialized, so all of it is sent
      obtain ⟨rfl,-⟩ := hall fun d hd => h.versions _ d
        (by rw [hsplit]; exact List.mem_append_right _ hd)
      rw [List.append_nil] at hsplit
      rw [hlearn] at hs ⊢
      have hqueued : queued s (.recvFrame frame) = fs ++ replies := queued_append hs (by simp)
      refine ⟨h.waiting.update rfl fun _ => rfl,
        .flush msg.senderIpAddress msg.senderEthernetAddress ?_ ?_ ?_⟩
      · rw [hqueued,ipv4Frames_append,hnone,List.append_nil,ipv4Frames_carries hfs,hsplit]
        exact hfs
      · refine ⟨s.arpMappingQueue.next,
          ⟨msg.senderIpAddress,msg.senderEthernetAddress,s.timestamp⟩,?_,?_,rfl,rfl⟩
        · simp only [Function.update_self]
        · simp [Deque.deref_pushBack]
      · intro k
        by_cases hk : k = msg.senderIpAddress
        · simp [hk]
        · simp [hk,Function.update_of_ne]

theorem Ready.moves (h : Ready s) (hver : Version4 op) (hs : step s op = .ok (s',out)) :
    Waiting s' ∧ Moves s s' op := by
  cases op with
  | sendDatagram d ip => exact h.sendDatagram hver hs
  | recvFrame frame => exact h.recvFrame hs
  | tick ms =>
    cases hs
    refine ⟨?_,.idle (by rw [queued_tick]; rfl) fun k => tick_pending s ms k⟩
    intro ip hptr
    rw [tick_pending]
    exact h.waiting ip fun hnone => hptr (tick_mapping s ms hnone)
  | maybeSend =>
    have hqueued := (step_maybeSend_cases hs).2.2.2
    have heq : s.maybeSend.1 = s' := congrArg Prod.fst (Except.ok.inj hs)
    have htable : s'.arpTable = s.arpTable := by rw [← heq,maybeSend_arpTable]
    refine ⟨?_,.idle (by rw [hqueued]; rfl) fun k => by rw [htable]⟩
    rw [Waiting,htable]
    exact h.waiting

theorem IsCall.snoc (h : IsCall tr x) (e : Call) : IsCall (tr ++ [e]) x := by
  obtain ⟨hlt,-⟩ := List.getElem?_eq_some_iff.mp h
  rw [IsCall,List.map_append,List.getElem?_append_left hlt]
  exact h

theorem IsCall.index_lt (h : IsCall tr x) : x.index < tr.length := by
  obtain ⟨hlt,-⟩ := List.getElem?_eq_some_iff.mp h
  rwa [List.length_map] at hlt

theorem isCall_last (tr : Trace) (s : NetworkInterface) (d : InternetDatagram) (ip : Address)
    (out : Option EthernetFrame) : IsCall (tr ++ [⟨s,.sendDatagram d ip,out⟩]) ⟨tr.length,ip,d⟩ := by
  simp [IsCall]

theorem Delivers.snoc {q : ℕ × EthernetFrame} (h : Delivers tr x q) (e : Call) :
    Delivers (tr ++ [e]) x q := by
  obtain ⟨e₀,s',he,hs,hmaps⟩ := h.mapped
  obtain ⟨hlt,-⟩ := List.getElem?_eq_some_iff.mp he
  exact ⟨h.call.snoc e,h.after,h.payload,e₀,s',by rw [List.getElem?_append_left hlt,he],hs,hmaps⟩

theorem delivers_last {src eth : EthernetAddress} {f : EthernetFrame}
    (hcall : IsCall (tr ++ [⟨s,op,out⟩]) x) (hs : step s op = .ok (s',out))
    (hcarries : Carries src eth x.dgram f) (hmaps : Maps s' x.nextHop eth) :
    Delivers (tr ++ [⟨s,op,out⟩]) x (tr.length,f) := by
  have hlt := hcall.index_lt
  rw [List.length_append,List.length_singleton] at hlt
  obtain ⟨payload,hser,rfl⟩ := hcarries
  exact ⟨hcall,Nat.lt_succ_iff.mp hlt,hser,⟨s,op,out⟩,s',by simp,hs,hmaps⟩

/-- `L` are the calls behind the IPv4 frames, and `P` those behind the pending datagrams: for each
hop they come in the order of the run. -/
structure Provenance (tr : Trace) (s : NetworkInterface) (L : List Sending)
    (P : Address → List Sending) : Prop where
  delivers : List.Forall₂ (Delivers tr) L (ipv4Only (queuedFrames tr))
  sent : ∀ x ∈ L, IsCall tr x
  pending : ∀ ip, (P ip).map Sending.dgram = (s.arpTable ip).pendingIpDatagrams
  kept : ∀ ip, ∀ x ∈ P ip, IsCall tr x ∧ x.nextHop = ip
  order : ∀ ip, (L.filter (fun x => x.nextHop = ip) ++ P ip).Pairwise fun x y => x.index < y.index

section step

variable {L : List Sending} {P : Address → List Sending} {d : InternetDatagram} {eth : EthernetAddress}

theorem Provenance.delivers_snoc (h : Provenance tr s L P) {new : List Sending}
    (hs : step s op = .ok (s',out)) (hcalls : ∀ x ∈ new, IsCall (tr ++ [⟨s,op,out⟩]) x)
    (hmaps : ∀ x ∈ new, Maps s' x.nextHop eth)
    (hnew : List.Forall₂ (Carries s.ethernetAddress eth) (new.map Sending.dgram) (ipv4Frames (queued s op))) :
    List.Forall₂ (Delivers (tr ++ [⟨s,op,out⟩])) (L ++ new)
      (ipv4Only (queuedFrames (tr ++ [⟨s,op,out⟩]))) := by
  rw [queuedFrames_snoc,ipv4Only_append,ipv4Only_map]
  refine List.rel_append (h.delivers.imp fun x q hq => hq.snoc _) ?_
  rw [List.forall₂_map_left_iff] at hnew
  rw [List.forall₂_map_right_iff]
  have hall := (List.forall₂_and_left new (ipv4Frames (queued s op))).mpr
    ⟨fun x hx => And.intro (hcalls x hx) (hmaps x hx),hnew⟩
  refine hall.imp ?_
  rintro x f ⟨⟨hcall,hx⟩,hf⟩
  exact delivers_last hcall hs hf hx

theorem Provenance.order_snoc (h : Provenance tr s L P) (ip : Address) (d : InternetDatagram) :
    (L.filter (fun x => x.nextHop = ip) ++ P ip ++ [(⟨tr.length,ip,d⟩ : Sending)]).Pairwise
      fun x y => x.index < y.index := by
  refine List.pairwise_append.mpr ⟨h.order ip,by simp,?_⟩
  intro x hx y hy
  rw [List.mem_singleton.mp hy]
  rcases List.mem_append.mp hx with hx | hx
  · exact (h.sent x (List.mem_filter.mp hx).1).index_lt
  · exact (h.kept ip x hx).1.index_lt

theorem Provenance.idle (h : Provenance tr s L P) (out : Option EthernetFrame)
    (hframes : ipv4Frames (queued s op) = [])
    (hpending : ∀ k, (s'.arpTable k).pendingIpDatagrams = (s.arpTable k).pendingIpDatagrams) :
    Provenance (tr ++ [⟨s,op,out⟩]) s' L P := by
  refine ⟨?_,fun x hx => (h.sent x hx).snoc _,fun ip => by rw [h.pending,hpending],
    fun ip x hx => ⟨(h.kept ip x hx).1.snoc _,(h.kept ip x hx).2⟩,h.order⟩
  rw [queuedFrames_snoc,ipv4Only_append,ipv4Only_map,hframes,List.map_nil,List.append_nil]
  exact h.delivers.imp fun x q hq => hq.snoc _

theorem Provenance.keep (h : Provenance tr s L P) (out : Option EthernetFrame)
    (hframes : ipv4Frames (queued s (.sendDatagram d ip)) = [])
    (hpending : ∀ k, (s'.arpTable k).pendingIpDatagrams =
      (s.arpTable k).pendingIpDatagrams ++ if k = ip then [d] else []) :
    Provenance (tr ++ [⟨s,.sendDatagram d ip,out⟩]) s' L
      (Function.update P ip (P ip ++ [⟨tr.length,ip,d⟩])) := by
  refine ⟨?_,fun x hx => (h.sent x hx).snoc _,?_,?_,?_⟩
  · rw [queuedFrames_snoc,ipv4Only_append,ipv4Only_map,hframes,List.map_nil,List.append_nil]
    exact h.delivers.imp fun x q hq => hq.snoc _
  · intro k
    rw [hpending k]
    by_cases hk : k = ip
    · rw [hk,Function.update_self,if_pos rfl,List.map_append,h.pending]
      rfl
    · rw [Function.update_of_ne hk,if_neg hk,List.append_nil,h.pending]
  · intro k x hx
    by_cases hk : k = ip
    · rw [hk,Function.update_self] at hx
      rcases List.mem_append.mp hx with hx | hx
      · exact ⟨(h.kept ip x hx).1.snoc _,(h.kept ip x hx).2.trans hk.symm⟩
      · rw [List.mem_singleton.mp hx]
        exact ⟨isCall_last tr s d ip out,hk.symm⟩
    · rw [Function.update_of_ne hk] at hx
      exact ⟨(h.kept k x hx).1.snoc _,(h.kept k x hx).2⟩
  · intro k
    by_cases hk : k = ip
    · rw [hk,Function.update_self,← List.append_assoc]
      exact h.order_snoc ip d
    · rw [Function.update_of_ne hk]
      exact h.order k

theorem Provenance.send (h : Provenance tr s L P) (hs : step s (.sendDatagram d ip) = .ok (s',out))
    {f : EthernetFrame} (hframes : ipv4Frames (queued s (.sendDatagram d ip)) = [f])
    (hcarries : Carries s.ethernetAddress eth d f) (hmaps : Maps s' ip eth)
    (hempty : (s.arpTable ip).pendingIpDatagrams = [])
    (hpending : ∀ k, (s'.arpTable k).pendingIpDatagrams = (s.arpTable k).pendingIpDatagrams) :
    Provenance (tr ++ [⟨s,.sendDatagram d ip,out⟩]) s' (L ++ [⟨tr.length,ip,d⟩]) P := by
  have hlast := isCall_last tr s d ip out
  refine ⟨?_,?_,fun k => by rw [h.pending,hpending],
    fun k x hx => ⟨(h.kept k x hx).1.snoc _,(h.kept k x hx).2⟩,?_⟩
  · refine h.delivers_snoc hs (by simpa using hlast) (by simpa using hmaps) ?_
    rw [hframes]
    exact .cons hcarries .nil
  · intro x hx
    rcases List.mem_append.mp hx with hx | hx
    · exact (h.sent x hx).snoc _
    · rw [List.mem_singleton.mp hx]
      exact hlast
  · intro k
    rw [List.filter_append]
    by_cases hk : k = ip
    · have hnone : P ip = [] := by
        rw [← List.map_eq_nil_iff,h.pending,hempty]
      have horder := h.order_snoc ip d
      rw [hk,hnone] at *
      simpa using horder
    · have hother : ([⟨tr.length,ip,d⟩] : List Sending).filter (fun x => x.nextHop = k) = [] := by
        simp [Ne.symm hk]
      rw [hother,List.append_nil]
      exact h.order k

theorem Provenance.flush (h : Provenance tr s L P) (hs : step s op = .ok (s',out))
    (hcarries : List.Forall₂ (Carries s.ethernetAddress eth) (s.arpTable ip).pendingIpDatagrams
      (ipv4Frames (queued s op))) (hmaps : Maps s' ip eth)
    (hpending : ∀ k, (s'.arpTable k).pendingIpDatagrams =
      if k = ip then [] else (s.arpTable k).pendingIpDatagrams) :
    Provenance (tr ++ [⟨s,op,out⟩]) s' (L ++ P ip) (Function.update P ip []) := by
  refine ⟨?_,?_,?_,?_,?_⟩
  · refine h.delivers_snoc hs (fun x hx => (h.kept ip x hx).1.snoc _) ?_ (by rwa [h.pending])
    intro x hx
    rw [(h.kept ip x hx).2]
    exact hmaps
  · intro x hx
    rcases List.mem_append.mp hx with hx | hx
    · exact (h.sent x hx).snoc _
    · exact (h.kept ip x hx).1.snoc _
  · intro k
    rw [hpending k]
    by_cases hk : k = ip
    · rw [hk,Function.update_self,if_pos rfl,List.map_nil]
    · rw [Function.update_of_ne hk,if_neg hk,h.pending]
  · intro k x hx
    by_cases hk : k = ip
    · rw [hk,Function.update_self] at hx
      simp at hx
    · rw [Function.update_of_ne hk] at hx
      exact ⟨(h.kept k x hx).1.snoc _,(h.kept k x hx).2⟩
  · intro k
    rw [List.filter_append]
    by_cases hk : k = ip
    · have hall : (P ip).filter (fun x => x.nextHop = ip) = P ip := by
        rw [List.filter_eq_self]
        intro x hx
        simpa using (h.kept ip x hx).2
      rw [hk,Function.update_self,hall,List.append_nil]
      exact h.order ip
    · have hnone : (P ip).filter (fun x => x.nextHop = k) = [] := by
        rw [List.filter_eq_nil_iff]
        intro x hx
        rw [(h.kept ip x hx).2]
        simpa using Ne.symm hk
      rw [Function.update_of_ne hk,hnone,List.append_nil]
      exact h.order k

end step

structure Traced (tr : Trace) (s : NetworkInterface) : Prop where
  ready : Ready s
  provenance : ∃ L P, Provenance tr s L P

theorem new_traced (eth : EthernetAddress) (ipv4 : Address) : Traced [] (new eth ipv4) :=
  ⟨⟨new_wf eth ipv4,fun _ _ => rfl,by simp [new]⟩,[],fun _ => [],
    ⟨.nil,by simp,fun _ => rfl,by simp,by simp⟩⟩

theorem Moves.versions (h : Moves s s' op) (hver : Version4 op)
    (hold : ∀ ip, ∀ d ∈ (s.arpTable ip).pendingIpDatagrams, d.header.ver = 4) :
    ∀ ip, ∀ d ∈ (s'.arpTable ip).pendingIpDatagrams, d.header.ver = 4 := by
  intro k d hd
  cases h with
  | idle frames pending =>
    rw [pending k] at hd
    exact hold k d hd
  | keep ip d' call frames pending =>
    subst call
    rw [pending k,List.mem_append] at hd
    rcases hd with hd | hd
    · exact hold k d hd
    · split_ifs at hd
      · rw [List.mem_singleton.mp hd]
        exact hver
      · simp at hd
  | send ip d' eth f call frames carries maps empty pending =>
    rw [pending k] at hd
    exact hold k d hd
  | flush ip eth carries maps pending =>
    rw [pending k] at hd
    split_ifs at hd
    · simp at hd
    · exact hold k d hd

theorem Traced.step (h : Traced tr s) (hver : Version4 op) (hs : step s op = .ok (s',out)) :
    Traced (tr ++ [⟨s,op,out⟩]) s' := by
  obtain ⟨L,P,hprov⟩ := h.provenance
  obtain ⟨hwaiting,hmoves⟩ := h.ready.moves hver hs
  refine ⟨⟨step_wf h.ready.wf hs,hwaiting,hmoves.versions hver h.ready.versions⟩,?_⟩
  cases hmoves with
  | idle frames pending => exact ⟨L,P,hprov.idle out frames pending⟩
  | keep ip d call frames pending =>
    subst call
    exact ⟨L,_,hprov.keep out frames pending⟩
  | send ip d eth f call frames carries maps empty pending =>
    subst call
    exact ⟨_,P,hprov.send hs frames carries maps empty pending⟩
  | flush ip eth carries maps pending => exact ⟨_,_,hprov.flush hs carries maps pending⟩

theorem run_traced {eth : EthernetAddress} {ipv4 : Address} (hr : Run step (new eth ipv4) tr s)
    (hver : ∀ e ∈ tr, Version4 e.op) : Traced tr s :=
  Run.history_invariant Traced (fun e => Version4 e.op) (new_traced eth ipv4)
    (fun hi hg hs => hi.step hg hs) hr hver

theorem Provenance.before {L : List Sending} {P : Address → List Sending}
    (h : Provenance tr s L P) : L.Pairwise Before := by
  have hhop : L.Pairwise fun x y => x.nextHop = y.nextHop → x.index < y.index := by
    rw [List.pairwise_iff_forall_sublist]
    intro x y hxy heq
    have hpair := (List.pairwise_append.mp (h.order y.nextHop)).1
    rw [List.pairwise_filter,List.pairwise_iff_forall_sublist] at hpair
    exact hpair hxy (by simpa using heq) (by simp)
  refine (List.Pairwise.and_mem.mp hhop).imp ?_
  rintro x y ⟨hx,hy,hlt⟩
  refine ⟨fun heq => ?_,hlt⟩
  -- one call has one next hop
  have hcx := h.sent x hx
  have hcy := h.sent y hy
  rw [IsCall,heq,hcy] at hcx
  have hsame := Op.sendDatagram.inj (Option.some.inj hcx)
  have := hlt hsame.2.symm
  omega

/-- What was emitted is the first part of what was queued; each IPv4 frame of it has a call of its
own, in an order that keeps that of the calls for one next hop; and nothing is pending for an
address while its mapping is known. -/
theorem delivered_in_order {eth : EthernetAddress} {ipv4 : Address}
    (hr : Run step (new eth ipv4) tr s) (hver : ∀ e ∈ tr, Version4 e.op) :
    (∃ sent L, sent <+: queuedFrames tr ∧ sent.map Prod.snd = emitted tr ∧
      List.Forall₂ (Delivers tr) L (ipv4Only sent) ∧ L.Pairwise Before) ∧
    ∀ ip, (s.arpTable ip).arpMappingNodePtr ≠ none → (s.arpTable ip).pendingIpDatagrams = [] := by
  have h := run_traced hr hver
  refine ⟨?_,h.ready.waiting⟩
  obtain ⟨L,P,hprov⟩ := h.provenance
  obtain ⟨sent,waiting,hsplit,hemitted,-⟩ := List.map_eq_append_iff.mp (run_frames hr).symm
  have hdelivers := hprov.delivers
  rw [hsplit,ipv4Only_append] at hdelivers
  exact ⟨sent,L.take (ipv4Only sent).length,⟨waiting,hsplit.symm⟩,hemitted,
    List.forall₂_take_append _ _ _ hdelivers,hprov.before.sublist (List.take_sublist _ _)⟩

/-- Two hops; the datagram for 7 goes out when the answer comes in, the one for 8 never, and the
second one for 7 at once. -/
theorem delivered_in_order_two_hops : ∃ tr s, Run step (new ⟨[2,0,0,0,0,1],rfl⟩ 1) tr s ∧
    (ipv4Frames (emitted tr)).length = 2 ∧ ∃ sent L, sent.map Prod.snd = emitted tr ∧
      List.Forall₂ (Delivers tr) L (ipv4Only sent) ∧ L.Pairwise Before := by
  obtain ⟨tr,s,hr,hlen,hver⟩ := Run.exists_of_exec step (new ⟨[2,0,0,0,0,1],rfl⟩ 1)
    [.sendDatagram {} 7,.sendDatagram { payload := [[9]] } 8,.maybeSend,
      .recvFrame ⟨⟨⟨[2,0,0,0,0,1],rfl⟩,⟨[2,0,0,0,0,7],rfl⟩,TYPE_ARP⟩,
        [(ARPMessage.reply ⟨[2,0,0,0,0,7],rfl⟩ 7 ⟨[2,0,0,0,0,1],rfl⟩ 1).bytes]⟩,
      .maybeSend,.sendDatagram { payload := [[10]] } 7,.maybeSend,.maybeSend]
    (fun tr _ => (ipv4Frames (emitted tr)).length = 2 ∧ ∀ e ∈ tr, Version4 e.op)
    (by decide +kernel)
  obtain ⟨⟨sent,L,-,hemitted,hdelivers,hbefore⟩,-⟩ := delivered_in_order hr hver
  exact ⟨tr,s,hr,hlen,sent,L,hemitted,hdelivers,hbefore⟩

end InterfaceRuns
end Minnow
