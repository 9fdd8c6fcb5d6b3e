import Minnow.Library.Run
import Minnow.NetworkInterface

/-! Runs of the network interface: every datagram that it was given is in a frame that it
emitted, in a frame that waits, or among the datagrams that wait for an answer. -/
namespace Minnow
namespace InterfaceRuns

open Library NetworkInterface EthernetHeader

inductive Op
  | sendDatagram (dgram : InternetDatagram) (nextHop : Address)
  | recvFrame (frame : EthernetFrame)
  | tick (ms : ℕ)
  | maybeSend
  deriving DecidableEq

/-- A call with the frame that it emits. After an exception the run goes on with the state
that the call left behind. -/
def step (s : NetworkInterface) : Op → Except Fault (NetworkInterface × Option EthernetFrame)
  | .sendDatagram dgram nextHop =>
    match s.sendDatagram dgram nextHop with
    | .error f => .error f
    | .ok (s,_) => .ok (s,none)
  | .recvFrame frame =>
    match s.recvFrame frame with
    | .error f => .error f
    | .ok (s,_) => .ok (s,none)
  | .tick ms => .ok (s.tick ms,none)
  | .maybeSend => .ok s.maybeSend

abbrev Trace := List (Event NetworkInterface Op (Option EthernetFrame))

variable {tr : Trace} {s s' : NetworkInterface} {ip : Address} {op : Op}

/-- The datagrams that a call gives for the next hop `ip`. -/
def givenBy (ip : Address) : Op → List InternetDatagram
  | .sendDatagram dgram nextHop => if nextHop = ip then [dgram] else []
  | _ => []

def given (ip : Address) (tr : Trace) : List InternetDatagram := tr.flatMap fun e => givenBy ip e.op

def emitted (tr : Trace) : List EthernetFrame := tr.flatMap fun e => e.out.toList

def ipv4Frames (frames : List EthernetFrame) : List EthernetFrame :=
  frames.filter fun f => f.header.type = TYPE_IPv4

def IsFrameOf (entry : Address × InternetDatagram) (frame : EthernetFrame) : Prop :=
  frame.header.type = TYPE_IPv4 ∧ entry.2.serialized = .ok frame.payload

def toHop (ip : Address) (entries : List (Address × InternetDatagram)) : List InternetDatagram :=
  (entries.filter fun entry => entry.1 = ip).map Prod.snd

/-- `E` and `Q` say for which hop and from which datagram the emitted and the waiting frames
were made. For each hop they and the pending datagrams are those given, in order. -/
structure Kept (tr : Trace) (s : NetworkInterface) (E Q : List (Address × InternetDatagram)) :
    Prop where
  sent : List.Forall₂ IsFrameOf E (ipv4Frames (emitted tr))
  waiting : List.Forall₂ IsFrameOf Q (ipv4Frames s.ethFramesToBeSent)
  order : ∀ ip, given ip tr = toHop ip E ++ (toHop ip Q ++ (s.arpTable ip).pendingIpDatagrams)

/-- No datagram comes while a request for its hop is outstanding and unanswered, and none has
to be serialized that has the wrong version. -/
def Unblocked (s : NetworkInterface) : Op → Prop
  | .sendDatagram dgram nextHop =>
      ((s.arpTable nextHop).arpMappingNodePtr = none →
        (s.arpTable nextHop).arpRequestPtr = none) ∧
      ((s.arpTable nextHop).arpMappingNodePtr ≠ none → dgram.header.ver = 4)
  | .recvFrame frame => ∀ msg ∈ s.arpFor frame,
      (s.arpTable msg.senderIpAddress).arpMappingNodePtr = none →
        ∀ d ∈ (s.arpTable msg.senderIpAddress).pendingIpDatagrams, d.header.ver = 4
  | _ => True

instance (s : NetworkInterface) (op : Op) : Decidable (Unblocked s op) :=
  match op with
  | .sendDatagram _ _ | .recvFrame _ | .tick _ | .maybeSend => by unfold Unblocked; infer_instance

theorem step_sends {dgram : InternetDatagram} {nextHop : Address} {out : Option EthernetFrame}
    (hs : step s (.sendDatagram dgram nextHop) = .ok (s',out)) :
    (∃ r, s.sendDatagram dgram nextHop = .ok (s',r)) ∧ out = none := by
  simp only [step] at hs
  split at hs
  · cases hs
  · rename_i t r hsend
    cases hs
    exact ⟨⟨r,hsend⟩,rfl⟩

theorem step_receives {frame : EthernetFrame} {out : Option EthernetFrame}
    (hs : step s (.recvFrame frame) = .ok (s',out)) :
    (∃ r, s.recvFrame frame = .ok (s',r)) ∧ out = none := by
  simp only [step] at hs
  split at hs
  · cases hs
  · rename_i t r hrecv
    cases hs
    exact ⟨⟨r,hrecv⟩,rfl⟩

theorem step_wf (h : s.WF) {out : Option EthernetFrame} (hs : step s op = .ok (s',out)) :
    s'.WF := by
  cases op with
  | sendDatagram dgram nextHop =>
    obtain ⟨⟨r,hsend⟩,-⟩ := step_sends hs
    exact h.sendDatagram hsend
  | recvFrame frame =>
    obtain ⟨⟨r,hrecv⟩,-⟩ := step_receives hs
    exact h.recvFrame hrecv
  | tick ms =>
    cases hs
    exact h.tick ms
  | maybeSend =>
    obtain ⟨rfl,-⟩ := Prod.mk.inj (Except.ok.inj hs)
    exact h.maybeSend

@[simp] theorem toHop_nil (ip : Address) : toHop ip [] = [] := rfl

@[simp] theorem toHop_append (ip : Address) (xs ys : List (Address × InternetDatagram)) :
    toHop ip (xs ++ ys) = toHop ip xs ++ toHop ip ys := by
  simp [toHop]

theorem toHop_entries (ip hop : Address) (ds : List InternetDatagram) :
    toHop ip (ds.map fun d => (hop,d)) = if hop = ip then ds else [] := by
  induction ds with
  | nil => simp
  | cons d ds ih =>
    rw [List.map_cons,← List.singleton_append,toHop_append,ih]
    split_ifs with heq <;> simp [toHop,heq]

theorem given_snoc (ip : Address) (tr : Trace) (s : NetworkInterface) (op : Op)
    (out : Option EthernetFrame) :
    given ip (tr ++ [⟨s,op,out⟩]) = given ip tr ++ givenBy ip op := by
  simp [given]

theorem emitted_snoc (tr : Trace) (s : NetworkInterface) (op : Op) (out : Option EthernetFrame) :
    emitted (tr ++ [⟨s,op,out⟩]) = emitted tr ++ out.toList := by
  simp [emitted]

theorem ipv4Frames_append (xs ys : List EthernetFrame) :
    ipv4Frames (xs ++ ys) = ipv4Frames xs ++ ipv4Frames ys := by
  simp [ipv4Frames]

theorem ipv4Frames_arp {fs : List EthernetFrame} (h : ∀ f ∈ fs, f.header.type = TYPE_ARP) :
    ipv4Frames fs = [] := by
  rw [ipv4Frames,List.filter_eq_nil_iff]
  intro f hf
  simp [h f hf,TYPE_ARP_ne]

theorem framesOf (hop : Address) {src dst : EthernetAddress} {ds : List InternetDatagram}
    {fs : List EthernetFrame} (h : List.Forall₂ (Carries src dst) ds fs) :
    List.Forall₂ IsFrameOf (ds.map fun d => (hop,d)) (ipv4Frames fs) := by
  induction h with
  | nil => exact .nil
  | @cons d f ds fs hf _ ih =>
    obtain ⟨payload,hser,rfl⟩ := hf
    exact .cons ⟨rfl,hser⟩ ih

/-- The call appends frames for `new`; for each hop `new` and the datagrams that are pending
afterwards are those that were pending before and those that the call gave. -/
structure Passes (s s' : NetworkInterface) (op : Op) (fs : List EthernetFrame)
    (new : List (Address × InternetDatagram)) : Prop where
  frames : s'.ethFramesToBeSent = s.ethFramesToBeSent ++ fs
  isFrames : List.Forall₂ IsFrameOf new (ipv4Frames fs)
  order : ∀ ip, (s.arpTable ip).pendingIpDatagrams ++ givenBy ip op =
    toHop ip new ++ (s'.arpTable ip).pendingIpDatagrams

theorem Kept.passes {E Q new : List (Address × InternetDatagram)} {fs : List EthernetFrame}
    (h : Kept tr s E Q) (hp : Passes s s' op fs new) :
    Kept (tr ++ [⟨s,op,none⟩]) s' E (Q ++ new) := by
  constructor
  · rw [emitted_snoc,Option.toList_none,List.append_nil]
    exact h.sent
  · rw [hp.frames,ipv4Frames_append]
    exact List.rel_append h.waiting hp.isFrames
  · intro ip
    rw [given_snoc,h.order,toHop_append]
    simp only [List.append_assoc]
    rw [hp.order]

theorem Kept.maybeSend {E Q : List (Address × InternetDatagram)} (h : Kept tr s E Q) :
    ∃ E' Q', Kept (tr ++ [⟨s,.maybeSend,s.maybeSend.2⟩]) s.maybeSend.1 E' Q' := by
  have hqueued := h.waiting
  cases hf : s.ethFramesToBeSent with
  | nil =>
    refine ⟨E,Q,?_,?_,?_⟩
    · simpa [emitted_snoc,NetworkInterface.maybeSend,hf] using h.sent
    · simpa [NetworkInterface.maybeSend,hf] using h.waiting
    · intro ip
      simpa [given_snoc,givenBy,NetworkInterface.maybeSend,hf] using h.order ip
  | cons f fs =>
    rw [hf,← List.singleton_append,ipv4Frames_append] at hqueued
    have hgiven : ∀ ip, given ip (tr ++ [⟨s,.maybeSend,s.maybeSend.2⟩]) =
        toHop ip (E ++ Q) ++ (s.maybeSend.1.arpTable ip).pendingIpDatagrams := by
      intro ip
      simpa [given_snoc,givenBy,NetworkInterface.maybeSend,hf] using h.order ip
    have hemitted : ipv4Frames (emitted (tr ++ [⟨s,.maybeSend,s.maybeSend.2⟩])) =
        ipv4Frames (emitted tr) ++ ipv4Frames [f] := by
      simp [emitted_snoc,ipv4Frames_append,NetworkInterface.maybeSend,hf]
    have hrest : s.maybeSend.1.ethFramesToBeSent = fs := by
      simp [NetworkInterface.maybeSend,hf]
    let k := (ipv4Frames [f]).length
    refine ⟨E ++ Q.take k,Q.drop k,?_,?_,?_⟩
    · rw [hemitted]
      exact List.rel_append h.sent (List.forall₂_take_append _ _ _ hqueued)
    · rw [hrest]
      exact List.forall₂_drop_append _ _ _ hqueued
    · intro ip
      rw [hgiven,← List.append_assoc,← toHop_append,List.append_assoc,List.take_append_drop]

/-- Datagrams are only pending for hops whose mapping is not known. -/
def Waiting (s : NetworkInterface) : Prop :=
  ∀ ip, (s.arpTable ip).arpMappingNodePtr ≠ none → (s.arpTable ip).pendingIpDatagrams = []

theorem Waiting.update (h : Waiting s) {entry : ArpTableEntry}
    (htable : s'.arpTable = Function.update s.arpTable ip entry)
    (hnone : entry.arpMappingNodePtr ≠ none → entry.pendingIpDatagrams = []) : Waiting s' := by
  intro k
  rw [htable]
  by_cases hk : k = ip
  · rw [hk,Function.update_self]
    exact hnone
  · rw [Function.update_of_ne hk]
    exact h k

theorem Passes.arpFrames {fs : List EthernetFrame} (hgiven : ∀ ip, givenBy ip op = [])
    (htable : s'.arpTable = s.arpTable)
    (hframes : s'.ethFramesToBeSent = s.ethFramesToBeSent ++ fs)
    (harp : ∀ f ∈ fs, f.header.type = TYPE_ARP) : Passes s s' op fs [] := by
  refine ⟨hframes,?_,?_⟩
  · rw [ipv4Frames_arp harp]
    exact .nil
  · intro ip
    rw [hgiven,htable,List.append_nil]
    rfl

theorem step_sendDatagram (h : Waiting s) {d : InternetDatagram} {hop : Address}
    (hg : Unblocked s (.sendDatagram d hop)) {r : Except RuntimeError Unit}
    (hs : s.sendDatagram d hop = .ok (s',r)) :
    Waiting s' ∧ ∃ fs new, Passes s s' (.sendDatagram d hop) fs new := by
  obtain ⟨hfree,hver⟩ := hg
  rcases sendDatagram_cases hs with
    ⟨hptr,hreq,payload,rfl⟩ | ⟨hptr,hreq,rfl⟩ |
      ⟨ptr,node,frame,hptr,-,hframe,rfl⟩ | ⟨hptr,hbad,rfl⟩
  · -- the first datagram for the hop: it is pending, and a request goes out
    constructor
    · exact h.update rfl fun hsome => absurd hptr hsome
    · refine ⟨[EthernetFrame.broadcast s.ethernetAddress TYPE_ARP payload],[],rfl,?_,?_⟩
      · exact .nil
      · intro ip
        simp only [sendRequest,givenBy,toHop_nil,List.nil_append]
        by_cases hip : hop = ip
        · rw [hip,if_pos rfl,Function.update_self]
        · rw [if_neg hip,Function.update_of_ne (Ne.symm hip),List.append_nil]
  · exact absurd (hfree hptr) hreq
  · -- the mapping is known, so nothing is pending and the datagram goes out
    have hnil := h hop (by rw [hptr]; simp)
    refine ⟨h,[frame],[(hop,d)],rfl,?_,?_⟩
    · exact framesOf hop (.cons hframe .nil)
    · intro ip
      have hone := toHop_entries ip hop [d]
      rw [List.map_singleton] at hone
      rw [hone]
      change (s.arpTable ip).pendingIpDatagrams ++ _ = _ ++ (s.arpTable ip).pendingIpDatagrams
      simp only [givenBy]
      by_cases hip : hop = ip
      · rw [← hip,hnil]
        simp
      · simp [hip]
  · exact absurd (hver hptr) hbad

/-- What an ARP message for this interface does: nothing is pending afterwards for its sender. -/
theorem step_recvArp (h : Waiting s) (frame : EthernetFrame) {msg : ARPMessage}
    (hg : (s.arpTable msg.senderIpAddress).arpMappingNodePtr = none →
      ∀ d ∈ (s.arpTable msg.senderIpAddress).pendingIpDatagrams, d.header.ver = 4)
    {r : Except RuntimeError (Option InternetDatagram)} (hs : s.recvArp msg = .ok (s',r)) :
    Waiting s' ∧ (∃ fs new, Passes s s' (.recvFrame frame) fs new) ∧
      (s'.arpTable msg.senderIpAddress).pendingIpDatagrams = [] := by
  obtain ⟨replies,r',hrecv,hreplies⟩ := recvArp_spec s msg
  obtain ⟨rfl,-⟩ := Prod.mk.inj (Except.ok.inj (hs.symm.trans hrecv))
  have harp := fun f hf => (hreplies f hf).1
  rcases learn_spec s msg.senderIpAddress msg.senderEthernetAddress with
    ⟨hptr,hlearn⟩ | ⟨hptr,sent,rest,fs,r'',hsplit,hfs,hlearn,hall⟩
  · rw [hlearn]
    exact ⟨h,⟨replies,[],Passes.arpFrames (fun _ => rfl) rfl rfl harp⟩,h _ hptr⟩
  · -- everything that was pending can be serialized, so nothing stays behind
    obtain ⟨rfl,-⟩ := hall fun d hd => hg hptr d
      (by rw [hsplit]; exact List.mem_append_right _ hd)
    rw [List.append_nil] at hsplit
    rw [hlearn]
    refine ⟨h.update rfl fun _ => rfl,?_,by simp⟩
    refine ⟨fs ++ replies,sent.map fun d => (msg.senderIpAddress,d),?_,?_,?_⟩
    · simp
    · rw [ipv4Frames_append,ipv4Frames_arp harp,List.append_nil]
      exact framesOf msg.senderIpAddress hfs
    · intro ip
      rw [toHop_entries]
      simp only [givenBy,List.append_nil]
      by_cases hip : msg.senderIpAddress = ip
      · rw [← hip,if_pos rfl,Function.update_self,hsplit,List.append_nil]
      · rw [if_neg hip,Function.update_of_ne (Ne.symm hip),List.nil_append]

structure Inv (tr : Trace) (s : NetworkInterface) : Prop where
  waiting : Waiting s
  kept : ∃ E Q, Kept tr s E Q

theorem new_inv (eth : EthernetAddress) (ipv4 : Address) : Inv [] (new eth ipv4) :=
  ⟨fun _ _ => rfl,[],[],⟨.nil,.nil,fun _ => rfl⟩⟩

theorem Inv.passes (h : Inv tr s) (hw : Waiting s')
    (hp : ∃ fs new, Passes s s' op fs new) : Inv (tr ++ [⟨s,op,none⟩]) s' := by
  obtain ⟨E,Q,hk⟩ := h.kept
  obtain ⟨fs,new,hp⟩ := hp
  exact ⟨hw,E,Q ++ new,hk.passes hp⟩

theorem Inv.step (h : Inv tr s) (hg : Unblocked s op) {out : Option EthernetFrame}
    (hs : step s op = .ok (s',out)) : Inv (tr ++ [⟨s,op,out⟩]) s' := by
  cases op with
  | sendDatagram dgram nextHop =>
    obtain ⟨⟨r,hsend⟩,rfl⟩ := step_sends hs
    obtain ⟨hw,hp⟩ := step_sendDatagram h.waiting hg hsend
    exact h.passes hw hp
  | recvFrame frame =>
    obtain ⟨⟨r,hrecv⟩,rfl⟩ := step_receives hs
    rcases recvFrame_cases hrecv with rfl | ⟨msg,hmsg,harp⟩
    · exact h.passes h.waiting ⟨[],[],Passes.arpFrames (fun _ => rfl) rfl (by simp) (by simp)⟩
    · obtain ⟨hw,hp,-⟩ := step_recvArp h.waiting frame (hg msg hmsg) harp
      exact h.passes hw hp
  | tick ms =>
    cases hs
    refine h.passes ?_ ⟨[],[],by simp,.nil,by simp [givenBy]⟩
    intro ip hptr
    rw [tick_pending]
    exact h.waiting ip fun hnone => hptr (tick_mapping s ms hnone)
  | maybeSend =>
    have heq : s.maybeSend = (s',out) := Except.ok.inj hs
    have hw : Waiting s.maybeSend.1 := by
      rw [Waiting,maybeSend_arpTable]
      exact h.waiting
    obtain ⟨E,Q,hk⟩ := h.kept
    have hkept := hk.maybeSend
    rw [heq] at hw hkept
    exact ⟨hw,hkept⟩

theorem run_inv {eth : EthernetAddress} {ipv4 : Address} (hr : Run step (new eth ipv4) tr s)
    (hg : ∀ e ∈ tr, Unblocked e.before e.op) : Inv tr s :=
  Run.history_invariant Inv (fun e => Unblocked e.before e.op) (new_inv eth ipv4)
    (fun hi hg hs => hi.step hg hs) hr hg

/-- As long as no datagram comes while a request for its hop is outstanding, and none with a wrong
version has to be serialized, every datagram is in one of the three places; and an ARP message
leaves no datagram for its sender pending: those given so far are emitted or wait in the queue,
in order. -/
theorem no_datagram_lost {eth : EthernetAddress} {ipv4 : Address}
    (hr : Run step (new eth ipv4) tr s) (hg : ∀ e ∈ tr, Unblocked e.before e.op) :
    (∃ E Q, Kept tr s E Q) ∧
    ∀ frame, Unblocked s (.recvFrame frame) → ∀ msg ∈ s.arpFor frame,
      ∃ s', step s (.recvFrame frame) = .ok (s',none) ∧
      (s'.arpTable msg.senderIpAddress).pendingIpDatagrams = [] ∧
      ∃ E Q, Kept (tr ++ [⟨s,.recvFrame frame,none⟩]) s' E Q ∧
        given msg.senderIpAddress tr =
          toHop msg.senderIpAddress E ++ toHop msg.senderIpAddress Q := by
  have hinv := run_inv hr hg
  refine ⟨hinv.kept,?_⟩
  intro frame hfree msg hmsg
  obtain ⟨s',r,hrecv⟩ : ∃ s' r, s.recvArp msg = .ok (s',r) := by
    obtain ⟨replies,r,hrecv,-⟩ := recvArp_spec s msg
    exact ⟨_,r,hrecv⟩
  have hs := (recvFrame_arp hmsg).trans hrecv
  obtain ⟨-,-,hnil⟩ := step_recvArp hinv.waiting frame (hfree msg hmsg) hrecv
  have hstep : step s (.recvFrame frame) = .ok (s',none) := by simp only [step,hs]
  obtain ⟨E,Q,hk⟩ := (hinv.step hfree hstep).kept
  refine ⟨s',hstep,hnil,E,Q,hk,?_⟩
  have horder := hk.order msg.senderIpAddress
  rwa [given_snoc,hnil,List.append_nil,show givenBy msg.senderIpAddress (.recvFrame frame) = []
    from rfl,List.append_nil] at horder

theorem no_datagram_lost_answered : ∃ tr s,
    Run step (new ⟨[2,0,0,0,0,1],rfl⟩ 1) tr s ∧ (ipv4Frames (emitted tr)).length = 2 ∧
      ∃ E Q, Kept tr s E Q := by
  obtain ⟨tr,s,hr,hlen,hg⟩ := Run.exists_of_exec step (new ⟨[2,0,0,0,0,1],rfl⟩ 1)
    [.sendDatagram {} 7,.maybeSend,
      .recvFrame ⟨⟨⟨[2,0,0,0,0,1],rfl⟩,⟨[2,0,0,0,0,7],rfl⟩,TYPE_ARP⟩,
        [(ARPMessage.reply ⟨[2,0,0,0,0,7],rfl⟩ 7 ⟨[2,0,0,0,0,1],rfl⟩ 1).bytes]⟩,
      .tick 20000,.sendDatagram { payload := [[10]] } 7,.maybeSend,.maybeSend]
    (fun tr _ => (ipv4Frames (emitted tr)).length = 2 ∧ ∀ e ∈ tr, Unblocked e.before e.op)
    (by decide +kernel)
  exact ⟨tr,s,hr,hlen,(no_datagram_lost hr hg).1⟩

/-- The second of two datagrams for a hop that has not answered yet is nowhere. -/
theorem datagram_dropped : ∃ tr s, Run step (new ⟨[2,0,0,0,0,1],rfl⟩ 1) tr s ∧
    ¬ ∃ E Q, Kept tr s E Q := by
  obtain ⟨tr,s,hr,hgiven,hemitted,hqueued,hpending⟩ :=
    Run.exists_of_exec step (new ⟨[2,0,0,0,0,1],rfl⟩ 1)
      [.sendDatagram {} 7,.sendDatagram { payload := [[10]] } 7]
      (fun tr s => given 7 tr = [{},{ payload := [[10]] }] ∧ ipv4Frames (emitted tr) = [] ∧
        ipv4Frames s.ethFramesToBeSent = [] ∧ (s.arpTable 7).pendingIpDatagrams = [{}])
      (by decide +kernel)
  refine ⟨tr,s,hr,?_⟩
  rintro ⟨E,Q,hk⟩
  have hE := hk.sent
  have hQ := hk.waiting
  rw [hemitted,List.forall₂_nil_right_iff] at hE
  rw [hqueued,List.forall₂_nil_right_iff] at hQ
  have horder := hk.order 7
  rw [hE,hQ,hgiven,hpending] at horder
  exact absurd horder (by decide)

end InterfaceRuns
end Minnow
