import Minnow.EndToEnd
import Minnow.WindowFilling
import Minnow.SenderConservation

/-! Nothing is lost for good between the sender and the receiver: every number that the sender has
given away is assembled, or it is still in one of the sender's queues, in a message that the receiver
has room for. -/
namespace Minnow

open Library TCPSender SenderRuns

namespace SenderRuns

def Kept (K : ℕ) (t : TCPSender) : Prop :=
  ∀ a, K ≤ a → a < t.nextSeqno → ∃ m ∈ t.outstanding, Covers m a

/-- No segment carries more than `C` bytes, and the window asks for no more. -/
structure Modest (C : ℕ) (t : TCPSender) : Prop where
  window : t.windowSize.toNat ≤ C
  payloads : ∀ m ∈ t.outstanding, m.payload.length ≤ C

variable {K K' C : ℕ} {isn : Wrap32} {s : State} {t t' : TCPSender} {m : TCPSenderMessage}

theorem Kept.mono (h : Kept K t) (hle : K ≤ K') : Kept K' t :=
  fun a ha hnext => h a (hle.trans ha) hnext

theorem Kept.perm (h : Kept K t) (hnext : t'.nextSeqno = t.nextSeqno)
    (hperm : t'.outstanding.Perm t.outstanding) : Kept K t' := by
  intro a ha hlt
  obtain ⟨m,hm,hcov⟩ := h a ha (hlt.trans_eq hnext)
  exact ⟨m,hperm.mem_iff.mpr hm,hcov⟩

theorem Kept.emplace (h : Kept K t) (hperm : t'.outstanding.Perm (m::t.outstanding))
    (habs : m.absolute = t.nextSeqno) (hnext : t'.nextSeqno = t.nextSeqno + m.sequenceLength) :
    Kept K t' := by
  intro a ha hlt
  by_cases hold : a < t.nextSeqno
  · obtain ⟨x,hx,hcov⟩ := h a ha hold
    exact ⟨x,hperm.mem_iff.mpr (List.mem_cons_of_mem _ hx),hcov⟩
  · exact ⟨m,hperm.mem_iff.mpr List.mem_cons_self,by rw [habs]; omega,by omega⟩

theorem Kept.emplaceSegment (h : Kept K t) (data : List Byte) : Kept K (t.emplaceSegment data) := by
  refine h.emplace (emplaceSegment_perm t data) rfl ?_
  simp [TCPSender.emplaceSegment,TCPSenderMessage.sequenceLength,dataMessage]

/-- What waits unsent ends where the numbers end, and has no FIN yet. -/
def EndsOpen (t : TCPSender) : Prop :=
  ∀ init last, t.unsentMsgs = init ++ [last] → last.msg.FIN = false ∧
    last.msg.absolute + last.msg.sequenceLength = t.nextSeqno

theorem endsOpen_emplaceSegment (t : TCPSender) (data : List Byte) :
    EndsOpen (t.emplaceSegment data) := by
  intro init last hsplit
  obtain ⟨-,hlast⟩ := List.append_inj' hsplit rfl
  obtain rfl := (List.cons.inj hlast).1
  refine ⟨rfl,?_⟩
  simp [TCPSender.emplaceSegment,TCPSenderMessage.sequenceLength,dataMessage]

theorem Kept.finishPush (h : Kept K t) (hopen : EndsOpen t) (r : ByteStream) :
    Kept K (t.finishPush r) := by
  rcases finishPush_cases t r with ⟨-,heq⟩ | ⟨init,last,hsplit,heq⟩
  · rw [heq]
    exact h
  · obtain ⟨hno,hend⟩ := hopen init last hsplit
    rw [heq]
    intro a ha hlt
    change a < t.nextSeqno + (t.finFlag r).toNat at hlt
    let last' : TCPSenderMessage := { last.msg with FIN := t.finFlag r }
    have hgrow : last'.sequenceLength = last.msg.sequenceLength + (t.finFlag r).toNat := by
      simp [last',TCPSenderMessage.sequenceLength,hno]
    by_cases hin : last.msg.absolute ≤ a
    · refine ⟨last',by simp [outstanding,last'],hin,?_⟩
      rw [hgrow]
      change a < last.msg.absolute + _
      omega
    · obtain ⟨m,hm,hcov⟩ := h a ha (by omega)
      refine ⟨m,?_,hcov⟩
      simp only [outstanding,hsplit,List.map_append,List.map_cons,List.map_nil,List.mem_append,
        List.mem_singleton] at hm ⊢
      rcases hm with (hm | rfl) | hm
      · exact Or.inl (Or.inl hm)
      · exact absurd hcov.1 hin
      · exact Or.inr hm

theorem endsOpen_nil (hnil : t.unsentMsgs = []) : EndsOpen t := by
  intro init last hsplit
  simp [hnil] at hsplit

theorem Kept.push (h : Kept K t) (hnil : t.unsentMsgs = []) (r : ByteStream) :
    Kept K (t.push r).1 := by
  obtain ⟨rest,hkept,hopen⟩ := segment_induction (P := fun t _ _ => Kept K t ∧ EndsOpen t)
    (fun t _ _ ht _ _ => ⟨ht.1.emplaceSegment _,endsOpen_emplaceSegment t _⟩)
    r.peek.length t r r.peek ⟨h,endsOpen_nil hnil⟩
  exact hkept.finishPush hopen _

theorem Kept.maybeSend (h : Kept K s.sender) (hq : Queues isn s) : Kept K s.sender.maybeSend.1 := by
  rcases maybeSend_cases s.sender with ⟨heq,-⟩ | ⟨heq,hnil,-⟩ | ⟨w,rest,hsplit,heq⟩
  · rw [heq]
    exact h
  · rw [heq]
    exact h.emplace (sendFlagMessage_perm hnil) rfl rfl
  · have hsyn := hq.syn_sent (by simp [outstanding,hsplit])
    rw [heq]
    exact h.perm (sendUnsent_same hsyn).next (sendUnsent_perm hsyn hsplit)

theorem Modest.segmentSize_le (h : Modest C t) (hC : 0 < C) (hgo : t.windowAllows = true) :
    t.segmentSize ≤ C := by
  have hw := h.window
  rw [segmentSize_eq hgo,room]
  split_ifs <;> omega

theorem Modest.emplaceSegment (h : Modest C t) (hC : 0 < C) (hgo : t.windowAllows = true)
    (data : List Byte) : Modest C (t.emplaceSegment (data.take t.segmentSize)) := by
  refine ⟨h.window,?_⟩
  intro m hm
  rcases List.mem_cons.mp ((emplaceSegment_perm t _).mem_iff.mp hm) with rfl | hm
  · change (data.take t.segmentSize).length ≤ C
    rw [List.length_take]
    exact (Nat.min_le_left _ _).trans (h.segmentSize_le hC hgo)
  · exact h.payloads m hm

theorem Modest.finishPush (h : Modest C t) (r : ByteStream) : Modest C (t.finishPush r) := by
  refine ⟨?_,?_⟩
  · rw [(finishPush_window t r).1]
    exact h.window
  · rcases finishPush_cases t r with ⟨-,heq⟩ | ⟨init,last,hsplit,-⟩
    · rw [heq]
      exact h.payloads
    · obtain ⟨hlast,hmem⟩ := mem_outstanding_finishPush hsplit r
      intro m hm
      rcases hmem m hm with rfl | hm
      · exact h.payloads last.msg hlast
      · exact h.payloads m hm

theorem Modest.push (h : Modest C t) (hC : 0 < C) (r : ByteStream) : Modest C (t.push r).1 := by
  obtain ⟨rest,hmodest⟩ := segment_induction (P := fun t _ _ => Modest C t)
    (fun t _ data ht _ hgo => ht.emplaceSegment hC hgo data) r.peek.length t r r.peek h
  exact hmodest.finishPush _

theorem Modest.of_subset (h : Modest C t) (hw : t'.windowSize = t.windowSize)
    (hsub : t'.outstanding ⊆ t.outstanding) : Modest C t' :=
  ⟨hw ▸ h.window,fun m hm => h.payloads m (hsub hm)⟩

theorem Modest.maybeSend (h : Modest C s.sender) (hq : Queues isn s) :
    Modest C s.sender.maybeSend.1 := by
  rcases maybeSend_cases s.sender with ⟨heq,-⟩ | ⟨heq,hnil,-⟩ | ⟨w,rest,hsplit,heq⟩
  · rw [heq]
    exact h
  · rw [heq]
    refine ⟨h.window,?_⟩
    intro m hm
    rcases List.mem_cons.mp ((sendFlagMessage_perm hnil).mem_iff.mp hm) with rfl | hm
    · exact Nat.zero_le _
    · exact h.payloads m hm
  · have hsyn := hq.syn_sent (by simp [outstanding,hsplit])
    rw [heq]
    exact h.of_subset rfl (sendUnsent_perm hsyn hsplit).subset

theorem Modest.receive (h : Modest C t) {msg : TCPReceiverMessage} (hs : t.receive msg = .ok t')
    (hmsg : msg.windowSize.toNat ≤ C) : Modest C t' := by
  refine ⟨?_,fun m hm => h.payloads m ((receive_subperm hs).subset hm)⟩
  rcases receive_cases hs with ⟨-,rfl⟩ | ⟨K,n,retransmissions,timer,-,-,rfl⟩
  · exact hmsg
  · exact hmsg

theorem Modest.tick (h : Modest C t) {ms : ℕ} (hs : t.tick ms = .ok t') : Modest C t' := by
  refine h.of_subset ?_ (tick_perm hs).subset
  rcases tick_cases hs with ⟨-,timer,rfl⟩ | ⟨-,m,rest,retransmissions,timer,-,rfl⟩
  · rfl
  · rfl

end SenderRuns

namespace EndToEnd

variable {D : List Byte} {C : ℕ} {isn : Wrap32} {tr : Trace} {s s' : State} {op : Op} {out : Output}
  {rtr : ReassemblerRuns.Trace}

/-- Below this number the receiver has everything. -/
def known (s : State) : ℕ :=
  if s.receiver.initialSeqNum.isSome = true then s.receiver.absoluteAckno else 0

/-- What the sender still has to offer, and what it is asked for. -/
structure Whole (C : ℕ) (isn : Wrap32) (s : State) : Prop where
  queues : Queues isn s.senderSide
  timer : ∃ b, SenderTimer.Inv b s.sender
  kept : Kept (known s) s.sender
  modest : Modest C s.sender
  offers : ∀ ack ∈ s.acks, ack.2.windowSize.toNat ≤ C

theorem init_whole (hC : 0 < C) (outboundCapacity RTO : ℕ) (isn : Wrap32) :
    Whole C isn (init outboundCapacity C RTO isn) :=
  ⟨init_queues outboundCapacity RTO isn,⟨false,SenderTimer.new_inv RTO isn⟩,
    fun _ _ hlt => absurd hlt (Nat.not_lt_zero _),⟨hC,by simp [init,TCPSender.new,outstanding]⟩,
    by simp [init]⟩

theorem known_le (hsync : s.receiver.initialSeqNum.isSome = true) :
    known s = s.receiver.absoluteAckno := if_pos hsync

/-- What the sender no longer has is assembled. -/
theorem Whole.assembled (h : Whole C isn s) (hinv : Inv D C isn tr s rtr) {a : ℕ}
    (ha : a < s.sender.nextSeqno) : Assembled D s a ∨ ∃ m ∈ s.sender.outstanding, Covers m a := by
  by_cases hknown : known s ≤ a
  · exact Or.inr (h.kept a hknown ha)
  · left
    have hsync : s.receiver.initialSeqNum.isSome = true := by
      by_contra hno
      rw [known,if_neg hno] at hknown
      exact hknown (Nat.zero_le a)
    rw [known_le hsync] at hknown
    exact hinv.receiver.assembled hsync (by omega)

theorem Whole.of_sender (h : Whole C isn s) {stream : ByteStream} {t : TCPSender}
    (hqueues : Queues isn ⟨stream,t⟩) (htimer : ∃ b, SenderTimer.Inv b t)
    (hkept : Kept (known s) t) (hmodest : Modest C t) :
    Whole C isn { s with outboundStream := stream, sender := t } :=
  ⟨hqueues,htimer,hkept,hmodest,h.offers⟩

theorem Whole.receive (h : Whole C isn s) (hinv : Inv D C isn tr s rtr)
    (hD : 2*D.length + 2^33 ≤ 2^64) {ack : ℕ × TCPReceiverMessage} (hack : ack ∈ s.acks)
    (hnear : s.sender.nextSeqno < ack.1 + 2^31) {t : TCPSender}
    (ht : s.sender.receive ack.2 = .ok t) : Whole C isn { s with sender := t } := by
  obtain ⟨hsame,hunsent,dropped,hsplit,hdrop⟩ := receive_ok ht
  obtain ⟨b,htimer⟩ := h.timer
  refine h.of_sender (h.queues.receive ht) ⟨b,htimer.receive ht⟩ ?_
    (h.modest.receive ht (h.offers ack hack))
  intro a ha hlt
  obtain ⟨m,hm,hcov⟩ := h.kept a ha (hlt.trans_eq hsame.next)
  refine ⟨m,?_,hcov⟩
  rw [outstanding,hunsent]
  rw [outstanding,hsplit,← List.append_assoc] at hm
  rcases List.mem_append.mp hm with hm | hm
  · rcases List.mem_append.mp hm with hm | hm
    · exact List.mem_append_left _ hm
    · -- a message that was dropped covers no number that is missing
      obtain ⟨w,hw,-,hcover⟩ := hdrop m hm
      obtain ⟨hwrap,hle,hsync⟩ := hinv.acks ack hack w hw
      have hisn : s.sender.isn = isn := hinv.sender.numbering.isn_eq
      have hnext : s.sender.nextSeqno ≤ D.length + 2 := hinv.sender.numbering.next_le
      have hknown := hinv.receiver.absoluteAckno_le hsync hinv.tiled.filled
      have hout : m ∈ s.sender.outstanding := by
        rw [outstanding,hsplit]
        simp [hm]
      rw [hisn,hwrap,Wrap32.unwrap_wrap isn (by omega) hnear (by omega)] at hcover
      have hend := (hinv.sender.numbering.placed m hout).covered hnext hD hcover
      rw [known_le hsync] at ha
      have hlast := hcov.2
      omega
  · exact List.mem_append_right _ hm

structure Delivered (s s' : State) : Prop where
  side : s'.senderSide = s.senderSide
  segments : s'.segments = s.segments
  acks : s'.acks = s.acks
  popped : s'.inboundStream.bytesPopped = s.inboundStream.bytesPopped
  ackno : s.receiver.absoluteAckno ≤ s'.receiver.absoluteAckno
  known : known s ≤ known s'

theorem Inv.delivered (hC : 0 < C) (hfit : D.length + C < 2^64)
    (hD : 2*D.length + 2^33 ≤ 2^64) (h : Inv D C isn tr s rtr) {i : ℕ}
    (hreach : InReach s (.deliverSegment i)) (hfin : ¬ FINOvertakes D s (.deliverSegment i))
    (hs : EndToEnd.step s (.deliverSegment i) = .ok (s',out)) : Delivered s s' := by
  simp only [EndToEnd.step] at hs
  cases hm : s.segments[i]? with
  | none =>
    rw [hm] at hs
    cases hs
    exact ⟨rfl,rfl,rfl,rfl,le_rfl,le_rfl⟩
  | some m =>
    have hmem := List.mem_of_getElem? hm
    obtain ⟨hplaced,hends⟩ := h.segments m hmem
    obtain ⟨hlo,hhi⟩ := hreach m hm
    obtain ⟨receiver',r',inbound',rtr',hrun,-,-,hpop,hack,hsync⟩ :=
      h.receiver.receive hC hfit h.tiled hplaced hends
        (List.mem_append_left _ (List.mem_map_of_mem hmem)) hlo hhi (by omega)
        (fun hsync hearly => hfin ⟨m,hm,hsync,hearly⟩)
    simp only [hm,hrun,bind,Except.bind,Except.ok.injEq,Prod.mk.injEq] at hs
    obtain ⟨rfl,rfl⟩ := hs
    refine ⟨rfl,rfl,rfl,hpop,hack,?_⟩
    unfold EndToEnd.known
    by_cases hold : s.receiver.initialSeqNum.isSome = true
    · rw [if_pos hold,if_pos (hsync hold)]
      exact hack
    · rw [if_neg hold]
      exact Nat.zero_le _

theorem Whole.step (h : Whole C isn s) (hC : 0 < C) (hfit : D.length + C < 2^64)
    (hD : 2*D.length + 2^33 ≤ 2^64) (hinv : Inv D C isn tr s rtr) (hdriven : Driven D s op)
    (hreach : InReach s op) (hfin : ¬ FINOvertakes D s op)
    (hs : EndToEnd.step s op = .ok (s',out)) : Whole C isn s' := by
  obtain ⟨b,htimer⟩ := h.timer
  cases op with
  | write data =>
    cases hs
    exact h.of_sender (h.queues.write data) h.timer h.kept h.modest
  | close =>
    cases hs
    exact h.of_sender h.queues.close h.timer h.kept h.modest
  | push =>
    cases hs
    obtain ⟨hnil,hfirst⟩ := hdriven
    have hkeep : ¬ TakesFINBack s.senderSide .push := by
      rintro ⟨hlast,-⟩
      simp [lastUnsent,State.senderSide,hnil] at hlast
    exact h.of_sender (h.queues.push hfirst hkeep) ⟨b,htimer.push _⟩ (h.kept.push hnil _)
      (h.modest.push hC _)
  | maybeSend =>
    cases hs
    exact ⟨h.queues.maybeSend,⟨false,htimer.maybeSend⟩,h.kept.maybeSend h.queues,
      h.modest.maybeSend h.queues,h.offers⟩
  | tick ms =>
    obtain ⟨t,ht,hret⟩ := bind_ok.mp hs
    cases hret
    exact h.of_sender (h.queues.tick ht) ⟨_,htimer.tick ht⟩
      (h.kept.perm (tick_ok ht).1.next (tick_perm ht)) (h.modest.tick ht)
  | sendAck =>
    cases hs
    refine ⟨h.queues,h.timer,h.kept,h.modest,?_⟩
    intro ack hack
    rcases List.mem_append.mp hack with hack | hack
    · exact h.offers ack hack
    · -- the window is what the inbound stream has room for
      rw [List.mem_singleton.mp hack]
      have hcap : s.inboundStream.capacity = C := hinv.receiver.inv.tracks.capacity_eq
      have hstream : s.inboundStream.WF := hinv.receiver.inv.tracks.stream
      change (UInt16.ofNat (min s.inboundStream.availableCapacity 65535)).toNat ≤ C
      rw [UInt16.toNat_ofNat',hstream.available,hcap]
      exact (Nat.mod_le _ _).trans ((Nat.min_le_left _ _).trans (Nat.sub_le _ _))
  | deliverSegment i =>
    have hd := hinv.delivered hC hfit hD hreach hfin hs
    have hsender : s'.sender = s.sender := congrArg SenderRuns.State.sender hd.side
    refine ⟨hd.side ▸ h.queues,hsender ▸ h.timer,?_,hsender ▸ h.modest,hd.acks ▸ h.offers⟩
    rw [hsender]
    exact h.kept.mono hd.known
  | deliverAck i =>
    simp only [EndToEnd.step] at hs
    cases hack : s.acks[i]? with
    | none =>
      rw [hack] at hs
      cases hs
      exact h
    | some ack =>
      rw [hack] at hs
      obtain ⟨t,ht,hret⟩ := bind_ok.mp hs
      cases hret
      exact h.receive hinv hD (List.mem_of_getElem? hack) (hreach ack hack) ht
  | read len =>
    cases hs
    exact ⟨h.queues,h.timer,h.kept,h.modest,h.offers⟩

theorem run_whole {outboundCapacity RTO : ℕ} (hC : 0 < C) (hfit : D.length + C < 2^64)
    (hD : 2*D.length + 2^33 ≤ 2^64) (hr : Run step (init outboundCapacity C RTO isn) tr s)
    (hdriven : ∀ e ∈ tr, Driven D e.before e.op) (hreach : ∀ e ∈ tr, InReach e.before e.op)
    (hfin : ∀ e ∈ tr, ¬ FINOvertakes D e.before e.op) :
    (∃ rtr, Inv D C isn tr s rtr) ∧ Whole C isn s := by
  refine Run.history_invariant (fun tr s => (∃ rtr, Inv D C isn tr s rtr) ∧ Whole C isn s)
    (fun e => Driven D e.before e.op ∧ InReach e.before e.op ∧ ¬ FINOvertakes D e.before e.op)
    ⟨⟨[],init_inv D outboundCapacity C RTO isn⟩,init_whole hC outboundCapacity RTO isn⟩ ?_ hr
    (fun e he => ⟨hdriven e he,hreach e he,hfin e he⟩)
  rintro tr s s' op out ⟨⟨rtr,hinv⟩,hwhole⟩ ⟨hd,hr,hf⟩ hs
  exact ⟨(hinv.step hC hfit hD hd hr hf hs).1,hwhole.step hC hfit hD hinv hd hr hf hs⟩

/-- Whatever the network does, every number that the sender has given away is assembled by the
receiver or still queued at the sender, and no queued segment is longer than the receiver's
capacity. -/
theorem nothing_lost {outboundCapacity RTO : ℕ} (hC : 0 < C) (hfit : D.length + C < 2^64)
    (hD : 2*D.length + 2^33 ≤ 2^64) (hr : Run step (init outboundCapacity C RTO isn) tr s)
    (hdriven : ∀ e ∈ tr, Driven D e.before e.op) (hreach : ∀ e ∈ tr, InReach e.before e.op)
    (hfin : ∀ e ∈ tr, ¬ FINOvertakes D e.before e.op) :
    (∀ a < s.sender.nextSeqno, Assembled D s a ∨ ∃ m ∈ s.sender.outstanding, Covers m a) ∧
      ∀ m ∈ s.sender.outstanding, m.payload.length ≤ C := by
  obtain ⟨⟨rtr,hinv⟩,hwhole⟩ := run_whole hC hfit hD hr hdriven hreach hfin
  exact ⟨fun a ha => hwhole.assembled hinv ha,hwhole.modest.payloads⟩

/-- Two bytes and FIN, of which the second segment was lost. -/
theorem nothing_lost_underway : ∃ tr s, Run step (init 8 1 1000 ⟨7⟩) tr s ∧
    s.sender.nextSeqno = 3 ∧ s.sender.unackedMsgs.length = 1 ∧
      (∀ a < s.sender.nextSeqno, Assembled [10,11] s a ∨ ∃ m ∈ s.sender.outstanding, Covers m a) ∧
      ∀ m ∈ s.sender.outstanding, m.payload.length ≤ 1 := by
  obtain ⟨tr,s,hr,hnext,hlen,hdriven,hreach,hfin⟩ := Run.exists_of_exec step (init 8 1 1000 ⟨7⟩)
    [.maybeSend,.deliverSegment 0,.sendAck,.deliverAck 0,.write [10,11],.push,.maybeSend,
      .deliverSegment 1,.read 1,.sendAck,.deliverAck 1,.push,.maybeSend]
    (fun tr s => s.sender.nextSeqno = 3 ∧ s.sender.unackedMsgs.length = 1 ∧
      (∀ e ∈ tr, Driven [10,11] e.before e.op) ∧ (∀ e ∈ tr, InReach e.before e.op) ∧
      ∀ e ∈ tr, ¬ FINOvertakes [10,11] e.before e.op) (by decide +kernel)
  exact ⟨tr,s,hr,hnext,hlen,nothing_lost (by decide) (by decide) (by decide) hr hdriven hreach hfin⟩

end EndToEnd

end Minnow
