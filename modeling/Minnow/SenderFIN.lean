import Minnow.SenderRuns

/-! Where FIN goes, and that it stays there: runs of the sender in which SYN is sent before
any data is pushed. -/
namespace Minnow
namespace SenderRuns

open Library TCPSender

/-- `push` is due to attach FIN, and the last unsent message is not the one that ends at the
next number: it waits for a retransmission while later ones are outstanding. -/
def StrayFIN (s : State) : Op → Prop
  | .push => s.sender.finFlag s.outboundStream = true ∧
    ((lastUnsent s).any fun last =>
      last.absolute + last.sequenceLength != s.sender.nextSeqno) = true
  | _ => False

/-- `push` finds a message with FIN at the end of the unsent ones. -/
def ClearsFIN (s : State) : Op → Prop
  | .push => ((lastUnsent s).any fun last => last.FIN) = true
  | _ => False

instance (s : State) (op : Op) : Decidable (StrayFIN s op) :=
  match op with
  | .write _ | .close | .push | .maybeSend | .receive _ | .tick _ => by unfold StrayFIN; infer_instance

instance (s : State) (op : Op) : Decidable (ClearsFIN s op) :=
  match op with
  | .write _ | .close | .push | .maybeSend | .receive _ | .tick _ => by unfold ClearsFIN; infer_instance

/-- The message ends the stream: its FIN would occupy number `D.length + 1`. -/
def EndsStream (D : List Byte) (m : TCPSenderMessage) : Prop :=
  m.payloadStart + m.payload.length = D.length + 1

instance (D : List Byte) (m : TCPSenderMessage) : Decidable (EndsStream D m) := by
  unfold EndsStream; infer_instance

structure FINInv (D : List Byte) (isn : Wrap32) (s : State) : Prop where
  numbering : Inv D isn s
  none : s.sender.hasNotSentFIN = true → ∀ m ∈ s.sender.outstanding, m.FIN = false
  atEnd : ∀ m ∈ s.sender.outstanding, m.FIN = true → EndsStream D m

variable {D : List Byte} {isn : Wrap32} {s s' : State} {op : Op} {tr : Trace}
  {m : TCPSenderMessage} {out : Option TCPSenderMessage}

theorem init_finInv (D : List Byte) (C RTO : ℕ) (isn : Wrap32) : FINInv D isn (init C RTO isn) :=
  ⟨init_inv D C RTO isn,by simp [init,TCPSender.new,outstanding],
    by simp [init,TCPSender.new,outstanding]⟩

theorem Inv.finFlag_true (h : Inv D isn s) (hflag : s.sender.finFlag s.outboundStream = true) :
    s.sender.hasNotSentFIN = true ∧ s.outboundStream.bytesPopped = D.length := by
  simp only [finFlag,Bool.and_eq_true] at hflag
  exact ⟨hflag.1.1,(h.popped_of_finished hflag.1.2).1⟩

theorem Segmented.outstanding_FIN {t : State} (h : Segmented s t) {x : TCPSenderMessage}
    (hx : x ∈ t.sender.outstanding) : x ∈ s.sender.outstanding ∨ x.FIN = false := by
  rcases h.unsent with rfl | ⟨-,new,last,hq,hfin,-⟩
  · exact Or.inl hx
  · simp only [outstanding,hq,h.unacked,List.map_append,List.mem_append] at hx
    rcases hx with ((hx | hx) | hx) | hx
    · exact Or.inl (List.mem_append_left _ hx)
    · obtain ⟨w,hw,rfl⟩ := List.mem_map.mp hx
      exact Or.inr (hfin w (List.mem_append_left _ hw))
    · obtain ⟨w,hw,rfl⟩ := List.mem_map.mp hx
      exact Or.inr (hfin w (List.mem_append_right _ hw))
    · exact Or.inl (List.mem_append_right _ hx)

theorem FINInv.segment (h : FINInv D isn s) (hfirst : SYNFirst s .push) :
    FINInv D isn (segmentState s) := by
  obtain ⟨hinv,hseg⟩ := h.numbering.segment hfirst
  refine ⟨hinv,?_,?_⟩
  · intro hf x hx
    rcases hseg.outstanding_FIN hx with hx | hx
    · exact h.none (hseg.FIN.symm.trans hf) x hx
    · exact hx
  · intro x hx hf
    rcases hseg.outstanding_FIN hx with hx | hx
    · exact h.atEnd x hx hf
    · simp [hx] at hf

/-- The message that gets FIN ends at the next number, unless the flag goes astray. -/
theorem Segmented.last_ends (h : Segmented s (segmentState s)) (hstray : ¬ StrayFIN s .push)
    (hflag : (segmentState s).sender.finFlag (segmentState s).outboundStream = true)
    {ws : List TCPSenderMessageWrapper} {last : TCPSenderMessageWrapper}
    (hq : (segmentState s).sender.unsentMsgs = ws ++ [last]) :
    last.msg.absolute + last.msg.sequenceLength = (segmentState s).sender.nextSeqno := by
  rcases h.unsent with heq | ⟨-,new,last',hq',-,hend⟩
  · rw [heq] at hflag hq ⊢
    by_contra hne
    exact hstray ⟨hflag,by simp [lastUnsent,hq,hne]⟩
  · rw [hq'] at hq
    obtain ⟨-,hlast⟩ := List.append_inj' hq rfl
    simp only [List.cons.injEq,and_true] at hlast
    rw [← hlast]
    exact hend

theorem FINInv.last_endsStream (h : FINInv D isn s) (hfirst : SYNFirst s .push)
    (hstray : ¬ StrayFIN s .push)
    (hflag : (segmentState s).sender.finFlag (segmentState s).outboundStream = true)
    {ws : List TCPSenderMessageWrapper} {last : TCPSenderMessageWrapper}
    (hq : (segmentState s).sender.unsentMsgs = ws ++ [last]) : EndsStream D last.msg := by
  have ht := h.segment hfirst
  obtain ⟨hFIN,hpop⟩ := ht.numbering.finFlag_true hflag
  have hends := (h.numbering.segment hfirst).2.last_ends hstray hflag hq
  have hmem : last.msg ∈ (segmentState s).sender.outstanding := by simp [outstanding,hq]
  have hnext := ht.numbering.next (ht.numbering.syn_sent (List.ne_nil_of_mem hmem))
  have hno := ht.none hFIN _ hmem
  rw [hFIN,hpop] at hnext
  simp only [TCPSenderMessage.sequenceLength,hno,Bool.toNat_false,Bool.not_true] at hends hnext
  simp only [EndsStream,TCPSenderMessage.payloadStart]
  omega

theorem FINInv.push (h : FINInv D isn s) (hfirst : SYNFirst s .push)
    (hstray : ¬ StrayFIN s .push) : FINInv D isn (pushState s) := by
  have ht := h.segment hfirst
  have hfin := (pushState_spec s).2
  rcases hfin.unsent with ⟨hnil,hnil',-,hFIN⟩ | ⟨ws,last,hq,hq',-,hFIN⟩
  · have hout : (pushState s).sender.outstanding = (segmentState s).sender.outstanding := by
      rw [outstanding,outstanding,hnil,hnil',hfin.unacked]
    refine ⟨h.numbering.push hfirst,?_,?_⟩
    · rw [hout,hFIN]
      exact ht.none
    · rw [hout]
      exact ht.atEnd
  · obtain ⟨-,hmem⟩ := mem_outstanding_withFIN hq hq' hfin.unacked
    refine ⟨h.numbering.push hfirst,?_,?_⟩
    · intro hf x hx
      rw [hFIN,Bool.and_eq_true,Bool.not_eq_true'] at hf
      rcases hmem x hx with rfl | hx
      · exact hf.2
      · exact ht.none hf.1 x hx
    · intro x hx hf
      rcases hmem x hx with rfl | hx
      · exact h.last_endsStream hfirst hstray hf hq
      · exact ht.atEnd x hx hf

theorem FINInv.of_subperm (h : FINInv D isn s) {t : TCPSender} (hsame : SameNumbering s.sender t)
    (hsub : t.outstanding.Subperm s.sender.outstanding) : FINInv D isn { s with sender := t } :=
  ⟨h.numbering.of_subperm hsame hsub,
    fun hf x hx => h.none (hsame.FIN.symm.trans hf) x (hsub.subset hx),
    fun x hx hf => h.atEnd x (hsub.subset hx) hf⟩

theorem Inv.flagMessage_endsStream (h : Inv D isn s) (hf : s.sender.flagMessage.FIN = true) :
    EndsStream D s.sender.flagMessage := by
  change s.sender.canSendFIN = true at hf
  simp only [canSendFIN,Bool.and_eq_true] at hf
  have hpop := (h.popped_of_finished (h.finished hf.2)).1
  change s.sender.nextSeqno + s.sender.hasNotSentSYN.toNat + 0 = D.length + 1
  cases hs : s.sender.hasNotSentSYN with
  | true =>
    obtain ⟨-,hzero,hnext⟩ := h.fresh hs
    simp only [Bool.toNat_true]
    omega
  | false =>
    have hnext := h.next hs
    rw [hf.1] at hnext
    simp only [Bool.not_true,Bool.toNat_false] at hnext ⊢
    omega

theorem FINInv.maybeSend (h : FINInv D isn s) :
    FINInv D isn { s with sender := s.sender.maybeSend.1 } := by
  have hinv := h.numbering.maybeSend
  rcases maybeSend_cases s.sender with ⟨heq,-⟩ | ⟨heq,hq,hdue⟩ | ⟨w,rest,hq,heq⟩
  · rw [heq]
    exact h
  · rw [heq] at hinv ⊢
    have hmem : ∀ x ∈ s.sender.sendFlagMessage.outstanding, x = s.sender.flagMessage ∨
        x ∈ s.sender.outstanding :=
      fun x hx => List.mem_cons.mp ((sendFlagMessage_perm hq).mem_iff.mp hx)
    refine ⟨hinv,?_,?_⟩
    · intro hf x hx
      change (!s.sender.canSendFIN) = true at hf
      rw [Bool.not_eq_true'] at hf
      rcases hmem x hx with rfl | hx
      · exact hf
      · -- SYN was due, so FIN had not been sent before either
        have hsyn : s.sender.hasNotSentSYN = true := by simpa [hf] using hdue
        rw [(h.numbering.fresh hsyn).1] at hx
        cases hx
    · intro x hx hf
      rcases hmem x hx with rfl | hx
      · exact h.numbering.flagMessage_endsStream hf
      · exact h.atEnd x hx hf
  · have hsyn := h.numbering.syn_sent (by simp [outstanding,hq])
    rw [heq]
    exact h.of_subperm (sendUnsent_same hsyn) (sendUnsent_perm hsyn hq).subperm

theorem FINInv.step (h : FINInv D isn s) (hw : Writes D s op) (hfirst : SYNFirst s op)
    (hstray : ¬ StrayFIN s op) (hs : SenderRuns.step s op = .ok (s',out)) : FINInv D isn s' := by
  have hinv := h.numbering.step hw hfirst hs
  cases op with
  | write data =>
    cases hs
    exact ⟨hinv,h.none,h.atEnd⟩
  | close =>
    cases hs
    exact ⟨hinv,h.none,h.atEnd⟩
  | push =>
    cases hs
    exact h.push hfirst hstray
  | maybeSend =>
    cases hs
    exact h.maybeSend
  | receive msg =>
    obtain ⟨t,ht,rfl⟩ := step_receive hs
    exact h.of_subperm (receive_ok ht).1 (receive_subperm ht)
  | tick ms =>
    obtain ⟨t,ht,rfl⟩ := step_tick hs
    exact h.of_subperm (tick_ok ht).1 (tick_perm ht).subperm

/-- As long as no FIN goes astray, a message carries FIN only at the end of the stream: while
it is queued, while it is outstanding, and when it is returned. -/
theorem fin_only_at_end {C RTO : ℕ} (hr : Run step (init C RTO isn) tr s)
    (hw : ∀ e ∈ tr, Writes D e.before e.op) (hfirst : ∀ e ∈ tr, SYNFirst e.before e.op)
    (hstray : ∀ e ∈ tr, ¬ StrayFIN e.before e.op) :
    (∀ m ∈ s.sender.outstanding, m.FIN = true → EndsStream D m) ∧
      ∀ m ∈ returned tr, m.FIN = true → EndsStream D m := by
  obtain ⟨hinv,hgood⟩ := Run.forall_events (FINInv D isn)
    (fun e => Writes D e.before e.op ∧ SYNFirst e.before e.op ∧ ¬ StrayFIN e.before e.op)
    (fun e => ∀ m, e.out = some m → m.FIN = true → EndsStream D m)
    (init_finInv D C RTO isn)
    (by
      intro s s' op out hi hg hs
      have hi' := hi.step hg.1 hg.2.1 hg.2.2 hs
      refine ⟨hi',?_⟩
      rintro m rfl
      obtain rfl := step_some hs
      exact hi'.atEnd m (hi.numbering.returned_outstanding hs))
    hr (fun e he => ⟨hw e he,hfirst e he,hstray e he⟩)
  refine ⟨hinv.atEnd,?_⟩
  intro m hm
  obtain ⟨e,he,hout⟩ := List.mem_filterMap.mp hm
  exact hgood e he m hout

theorem fin_only_at_end_closed : ∃ tr s, Run step (init 8 1000 ⟨7⟩) tr s ∧
    (∃ m ∈ s.sender.outstanding, m.FIN = true) ∧
    ∀ m ∈ s.sender.outstanding, m.FIN = true → EndsStream [10,11] m := by
  obtain ⟨tr,s,hr,hfin,hw,hfirst,hstray⟩ := Run.exists_of_exec step (init 8 1000 ⟨7⟩)
    [.maybeSend,.receive ⟨some ⟨8⟩,5⟩,.write [10],.push,.maybeSend,.tick 1000,.write [11],
      .close,.push]
    (fun tr s => (∃ m ∈ s.sender.outstanding, m.FIN = true) ∧
      (∀ e ∈ tr, Writes [10,11] e.before e.op) ∧ (∀ e ∈ tr, SYNFirst e.before e.op) ∧
      ∀ e ∈ tr, ¬ StrayFIN e.before e.op) (by decide +kernel)
  exact ⟨tr,s,hr,hfin,(fin_only_at_end hr hw hfirst hstray).1⟩

/-- The first of two segments times out, and the `push` after the close puts FIN on it. -/
theorem fin_goes_astray : ∃ D tr s, Run step (init 8 1000 ⟨7⟩) tr s ∧
    (∀ e ∈ tr, Writes D e.before e.op) ∧ (∀ e ∈ tr, SYNFirst e.before e.op) ∧
    ∃ m ∈ s.sender.outstanding, m.FIN = true ∧ ¬ EndsStream D m := by
  obtain ⟨tr,s,hr,hw,hfirst,hbad⟩ := Run.exists_of_exec step (init 8 1000 ⟨7⟩)
    [.maybeSend,.receive ⟨some ⟨8⟩,5⟩,.write [10],.push,.maybeSend,.write [11],.push,
      .maybeSend,.tick 1000,.close,.push]
    (fun tr s => (∀ e ∈ tr, Writes [10,11] e.before e.op) ∧
      (∀ e ∈ tr, SYNFirst e.before e.op) ∧
      ∃ m ∈ s.sender.outstanding, m.FIN = true ∧ ¬ EndsStream [10,11] m) (by decide +kernel)
  exact ⟨_,tr,s,hr,hw,hfirst,hbad⟩

/-- The ackno covers the number of FIN, and it is not an impossible one. -/
def AcksFIN (D : List Byte) (s : State) : Op → Prop
  | .receive msg => ∃ ackno ∈ msg.ackno,
    D.length + 1 < ackno.unwrap s.sender.isn s.sender.nextSeqno ∧
      ackno.unwrap s.sender.isn s.sender.nextSeqno ≤ s.sender.nextSeqno
  | _ => False

instance (D : List Byte) (s : State) (op : Op) : Decidable (AcksFIN D s op) :=
  match op with
  | .write _ | .close | .push | .maybeSend | .receive _ | .tick _ => by unfold AcksFIN; infer_instance

def FINAcked (D : List Byte) (tr : Trace) : Prop := ∃ e ∈ tr, AcksFIN D e.before e.op

/-- `has_not_sent_FIN_` has become false at some point of the run. -/
def FINQueued (tr : Trace) (s : State) : Prop :=
  s.sender.hasNotSentFIN = false ∨ ∃ e ∈ tr, e.before.sender.hasNotSentFIN = false

def withFIN (s : State) : List TCPSenderMessage := s.sender.outstanding.filter fun m => m.FIN

structure OneFIN (D : List Byte) (isn : Wrap32) (tr : Trace) (s : State) : Prop where
  placed : FINInv D isn s
  sticky : FINQueued tr s → s.sender.hasNotSentFIN = false
  one : s.sender.hasNotSentFIN = false → FINAcked D tr ∨ (withFIN s).length = 1

theorem FINAcked.mono {tr' : Trace} (h : FINAcked D tr) : FINAcked D (tr ++ tr') := by
  obtain ⟨e,he,ha⟩ := h
  exact ⟨e,List.mem_append_left _ he,ha⟩

theorem finQueued_snoc (hs : FINQueued (tr ++ [⟨s,op,out⟩]) s') :
    s'.sender.hasNotSentFIN = false ∨ FINQueued tr s := by
  rcases hs with hs | ⟨e,he,hf⟩
  · exact Or.inl hs
  · rcases List.mem_append.mp he with he | he
    · exact Or.inr (Or.inr ⟨e,he,hf⟩)
    · rw [List.mem_singleton.mp he] at hf
      exact Or.inr (Or.inl hf)

theorem withFIN_length_perm {t : State} (h : t.sender.outstanding.Perm s.sender.outstanding) :
    (withFIN t).length = (withFIN s).length := (h.filter _).length_eq

theorem OneFIN.of_perm (h : OneFIN D isn tr s) (hplaced : FINInv D isn s')
    (hflag : s'.sender.hasNotSentFIN = s.sender.hasNotSentFIN)
    (hperm : s'.sender.outstanding.Perm s.sender.outstanding) :
    OneFIN D isn (tr ++ [⟨s,op,out⟩]) s' := by
  refine ⟨hplaced,?_,?_⟩
  · intro hq
    rw [hflag]
    rcases finQueued_snoc hq with hf | hf
    · exact hflag.symm.trans hf
    · exact h.sticky hf
  · intro hf
    rw [withFIN_length_perm hperm]
    rcases h.one (hflag.symm.trans hf) with ha | hone
    · exact Or.inl ha.mono
    · exact Or.inr hone

theorem Inv.segmentState_eq (h : Inv D isn s) (hf : s.sender.hasNotSentFIN = false) :
    segmentState s = s := by
  have hpeek := ((ByteStream.isFinished_iff h.stream).mp (h.finSent hf).2).2
  simp [segmentState,hpeek]

theorem OneFIN.push (h : OneFIN D isn tr s) (hfirst : SYNFirst s .push)
    (hstray : ¬ StrayFIN s .push) (hclear : ¬ ClearsFIN s .push) :
    OneFIN D isn (tr ++ [⟨s,.push,out⟩]) (pushState s) := by
  have hplaced := h.placed.push hfirst hstray
  have hseg := h.placed.segment hfirst
  have hfin := (pushState_spec s).2
  cases hold : s.sender.hasNotSentFIN with
  | false =>
    -- nothing is read and nothing attached; the last message had no FIN to lose
    have heq := h.placed.numbering.segmentState_eq hold
    rw [heq] at hfin
    have hflag : s.sender.finFlag s.outboundStream = false := by simp [finFlag,hold]
    rcases hfin.unsent with ⟨hnil,hnil',-,hFIN⟩ | ⟨ws,last,hq,hq',-,hFIN⟩
    · apply h.of_perm hplaced hFIN
      rw [outstanding,outstanding,hnil,hnil',hfin.unacked]
    · rw [hflag] at hq' hFIN
      have hno : last.msg.FIN = false := by simpa [ClearsFIN,lastUnsent,hq] using hclear
      have hsame : ({ last with msg := { last.msg with FIN := false } } : TCPSenderMessageWrapper) =
          last := by
        rw [← hno]
      apply h.of_perm hplaced (by simpa using hFIN)
      rw [outstanding,outstanding,hq,hq',hfin.unacked,hsame]
  | true =>
    refine ⟨hplaced,?_,?_⟩
    · intro hq
      rcases finQueued_snoc hq with hf | hf
      · exact hf
      · have := h.sticky hf
        simp [hold] at this
    · intro hf
      have hnew : (segmentState s).sender.hasNotSentFIN = true := by
        rw [(h.placed.numbering.segment hfirst).2.FIN,hold]
      rcases hfin.unsent with ⟨-,-,-,hFIN⟩ | ⟨ws,last,hq,hq',-,hFIN⟩
      · rw [hFIN,hnew] at hf
        cases hf
      · rw [hFIN,hnew,Bool.true_and,Bool.not_eq_false'] at hf
        rw [hf] at hq'
        have hnone := hseg.none hnew
        simp only [outstanding,hq,List.map_append,List.mem_append] at hnone
        have hws : (ws.map TCPSenderMessageWrapper.msg).filter (fun m => m.FIN) = [] :=
          List.filter_eq_nil_iff.mpr fun x hx => by simp [hnone x (Or.inl (Or.inl hx))]
        have hun : (segmentState s).sender.unackedMsgs.filter (fun m => m.FIN) = [] :=
          List.filter_eq_nil_iff.mpr fun x hx => by simp [hnone x (Or.inr hx)]
        refine Or.inr ?_
        simp [withFIN,outstanding,hq',hfin.unacked,hws,hun]

/-- Either FIN is still there, or the ackno covered it. -/
theorem OneFIN.receive (hD : 2*D.length + 2^33 ≤ 2^64) (h : OneFIN D isn tr s)
    {msg : TCPReceiverMessage} {t : TCPSender} (ht : s.sender.receive msg = .ok t) :
    OneFIN D isn (tr ++ [⟨s,.receive msg,out⟩]) { s with sender := t } := by
  obtain ⟨hsame,hunsent,dropped,hsplit,hall⟩ := receive_ok ht
  have hplaced := h.placed.of_subperm hsame (receive_subperm ht)
  refine ⟨hplaced,?_,?_⟩
  · intro hq
    change t.hasNotSentFIN = false
    rw [hsame.FIN]
    rcases finQueued_snoc hq with hf | hf
    · exact hsame.FIN.symm.trans hf
    · exact h.sticky hf
  · intro hf
    have hf' : s.sender.hasNotSentFIN = false := hsame.FIN.symm.trans hf
    by_cases hlost : ∃ m ∈ dropped, m.FIN = true
    · obtain ⟨m,hm,hmf⟩ := hlost
      obtain ⟨ackno,hack,hle,hcover⟩ := hall m hm
      refine Or.inl ⟨⟨s,.receive msg,out⟩,by simp,ackno,hack,?_,hle⟩
      have hmem : m ∈ s.sender.outstanding := by
        rw [outstanding,hsplit]
        simp [hm]
      have hend := h.placed.atEnd m hmem hmf
      rw [h.placed.numbering.isn_eq] at hcover
      have hlast := (h.placed.numbering.placed m hmem).covered h.placed.numbering.next_le hD hcover
      simp only [EndsStream,TCPSenderMessage.payloadStart] at hend
      simp only [TCPSenderMessage.sequenceLength,hmf,Bool.toNat_true] at hlast
      change _ < ackno.unwrap s.sender.isn s.sender.nextSeqno
      rw [h.placed.numbering.isn_eq]
      omega
    · have hkeep : (withFIN { s with sender := t }).length = (withFIN s).length := by
        have hnone : dropped.filter (fun m => m.FIN) = [] :=
          List.filter_eq_nil_iff.mpr fun x hx hxf => hlost ⟨x,hx,hxf⟩
        simp [withFIN,outstanding,hunsent,hsplit,hnone]
      rw [hkeep]
      rcases h.one hf' with ha | hone
      · exact Or.inl ha.mono
      · exact Or.inr hone

theorem OneFIN.maybeSend (h : OneFIN D isn tr s) :
    OneFIN D isn (tr ++ [⟨s,.maybeSend,out⟩]) { s with sender := s.sender.maybeSend.1 } := by
  have hplaced := h.placed.maybeSend
  rcases maybeSend_cases s.sender with ⟨heq,-⟩ | ⟨heq,hq,hdue⟩ | ⟨w,rest,hq,heq⟩
  · rw [heq] at hplaced ⊢
    exact h.of_perm hplaced rfl (List.Perm.refl _)
  · -- a flag goes out alone: FIN had not been sent before
    have hFIN : s.sender.hasNotSentFIN = true := by
      rcases hdue with hs | hc
      · by_contra hf
        have := (h.placed.numbering.finSent (by simpa using hf)).1
        simp [hs] at this
      · simp only [canSendFIN,Bool.and_eq_true] at hc
        exact hc.1
    rw [heq] at hplaced ⊢
    refine ⟨hplaced,?_,?_⟩
    · intro hqd
      rcases finQueued_snoc hqd with hf | hf
      · exact hf
      · have := h.sticky hf
        simp [hFIN] at this
    · intro hf
      change (!s.sender.canSendFIN) = false at hf
      have hnone := h.placed.none hFIN
      have hold : s.sender.outstanding.filter (fun m => m.FIN) = [] :=
        List.filter_eq_nil_iff.mpr fun x hx => by simp [hnone x hx]
      have hout : s.sender.sendFlagMessage.outstanding =
          s.sender.outstanding ++ [s.sender.flagMessage] := by
        simp [outstanding,TCPSender.sendFlagMessage,hq]
      refine Or.inr ?_
      have hone : s.sender.flagMessage.FIN = true := by
        change s.sender.canSendFIN = true
        simpa using hf
      simp [withFIN,hout,hold,hone]
  · have hsyn := h.placed.numbering.syn_sent (by simp [outstanding,hq])
    rw [heq] at hplaced ⊢
    exact h.of_perm hplaced rfl (sendUnsent_perm hsyn hq)

theorem OneFIN.step (hD : 2*D.length + 2^33 ≤ 2^64) (h : OneFIN D isn tr s)
    (hw : Writes D s op) (hfirst : SYNFirst s op) (hstray : ¬ StrayFIN s op)
    (hclear : ¬ ClearsFIN s op) (hs : SenderRuns.step s op = .ok (s',out)) :
    OneFIN D isn (tr ++ [⟨s,op,out⟩]) s' := by
  have hplaced := h.placed.step hw hfirst hstray hs
  cases op with
  | write data =>
    cases hs
    exact h.of_perm hplaced rfl (List.Perm.refl _)
  | close =>
    cases hs
    exact h.of_perm hplaced rfl (List.Perm.refl _)
  | push =>
    cases hs
    exact h.push hfirst hstray hclear
  | maybeSend =>
    cases hs
    exact h.maybeSend
  | receive msg =>
    obtain ⟨t,ht,rfl⟩ := step_receive hs
    exact h.receive hD ht
  | tick ms =>
    obtain ⟨t,ht,rfl⟩ := step_tick hs
    exact h.of_perm hplaced (tick_ok ht).1.FIN (tick_perm ht)

/-- Two messages with one number are the same: a retransmission is the message that was queued. -/
theorem Inv.retransmission (h : Inv D isn s) (hs : SenderRuns.step s .maybeSend = .ok (s',some m))
    {F : TCPSenderMessage} (hF : F ∈ s.sender.outstanding) (heq : m.absolute = F.absolute) :
    m = F := by
  simp only [SenderRuns.step,Except.ok.injEq,Prod.mk.injEq] at hs
  rcases maybeSend_cases s.sender with ⟨hr,-⟩ | ⟨hr,-,-⟩ | ⟨w,rest,hq,hr⟩
  · simp [hr] at hs
  · rw [hr] at hs
    obtain ⟨-,hm⟩ := hs
    cases hm
    exact absurd heq.symm (h.placed F hF).lt.ne
  · have hsyn := h.syn_sent (List.ne_nil_of_mem hF)
    rw [hr] at hs
    obtain ⟨-,hm⟩ := hs
    cases hm
    have hmem : s.sender.carrySYN w.msg ∈ s.sender.outstanding := by
      simp [outstanding,hq,carrySYN,hsyn]
    exact List.inj_on_of_nodup_map h.nodup hmem hF heq

/-- As long as no FIN goes astray and no `push` finds FIN at the end of the unsent messages, a
FIN once queued stays, in exactly one message and at its number, until it is acknowledged; and
every retransmission of that message carries it. -/
theorem fin_never_lost {C RTO : ℕ} (hD : 2*D.length + 2^33 ≤ 2^64)
    (hr : Run step (init C RTO isn) tr s) (hw : ∀ e ∈ tr, Writes D e.before e.op)
    (hfirst : ∀ e ∈ tr, SYNFirst e.before e.op) (hstray : ∀ e ∈ tr, ¬ StrayFIN e.before e.op)
    (hclear : ∀ e ∈ tr, ¬ ClearsFIN e.before e.op) :
    (FINQueued tr s → FINAcked D tr ∨ ∃ F, withFIN s = [F] ∧ EndsStream D F) ∧
      ∀ e ∈ tr, ∀ m, e.out = some m → ∀ F ∈ withFIN e.before, m.absolute = F.absolute →
        m.FIN = true := by
  have hguard : ∀ e ∈ tr, Writes D e.before e.op ∧ SYNFirst e.before e.op ∧
      ¬ StrayFIN e.before e.op ∧ ¬ ClearsFIN e.before e.op :=
    fun e he => ⟨hw e he,hfirst e he,hstray e he,hclear e he⟩
  have hinv : OneFIN D isn tr s := Run.history_invariant (OneFIN D isn)
    (fun e => Writes D e.before e.op ∧ SYNFirst e.before e.op ∧
      ¬ StrayFIN e.before e.op ∧ ¬ ClearsFIN e.before e.op)
    ⟨init_finInv D C RTO isn,by simp [FINQueued],by simp [init,TCPSender.new]⟩
    (fun hi hg hs => hi.step hD hg.1 hg.2.1 hg.2.2.1 hg.2.2.2 hs) hr hguard
  have hgood := (Run.forall_events (Inv D isn)
    (fun e => Writes D e.before e.op ∧ SYNFirst e.before e.op ∧
      ¬ StrayFIN e.before e.op ∧ ¬ ClearsFIN e.before e.op)
    (fun e => ∀ m, e.out = some m → ∀ F ∈ withFIN e.before,
      m.absolute = F.absolute → m.FIN = true) (init_inv D C RTO isn)
    (by
      intro s s' op out hi hg hs
      refine ⟨hi.step hg.1 hg.2.1 hs,?_⟩
      rintro m rfl F hF heq
      obtain rfl := step_some hs
      obtain ⟨hmem,hFf⟩ := List.mem_filter.mp hF
      rw [hi.retransmission hs hmem heq]
      exact hFf) hr hguard).2
  refine ⟨?_,hgood⟩
  intro hq
  rcases hinv.one (hinv.sticky hq) with ha | hone
  · exact Or.inl ha
  · obtain ⟨F,hF⟩ := List.length_eq_one_iff.mp hone
    obtain ⟨hmem,hFf⟩ := List.mem_filter.mp (show F ∈ withFIN s by simp [hF])
    exact Or.inr ⟨F,hF,hinv.placed.atEnd F hmem hFf⟩

theorem fin_never_lost_timeout : ∃ tr s, Run step (init 8 1000 ⟨7⟩) tr s ∧
    FINQueued tr s ∧ (FINAcked [10] tr ∨ ∃ F, withFIN s = [F] ∧ EndsStream [10] F) := by
  obtain ⟨tr,s,hr,hq,hw,hfirst,hstray,hclear⟩ := Run.exists_of_exec step (init 8 1000 ⟨7⟩)
    [.maybeSend,.receive ⟨some ⟨8⟩,5⟩,.write [10],.close,.push,.maybeSend,.tick 1000,
      .maybeSend]
    (fun tr s => s.sender.hasNotSentFIN = false ∧ (∀ e ∈ tr, Writes [10] e.before e.op) ∧
      (∀ e ∈ tr, SYNFirst e.before e.op) ∧ (∀ e ∈ tr, ¬ StrayFIN e.before e.op) ∧
      ∀ e ∈ tr, ¬ ClearsFIN e.before e.op) (by decide +kernel)
  exact ⟨tr,s,hr,Or.inl hq,
    (fin_never_lost (by decide) hr hw hfirst hstray hclear).1 (Or.inl hq)⟩

/-- A second `push` takes the queued FIN away: nothing carries it and no ackno came. -/
theorem fin_lost : ∃ D tr s, Run step (init 8 1000 ⟨7⟩) tr s ∧
    (∀ e ∈ tr, Writes D e.before e.op) ∧ (∀ e ∈ tr, SYNFirst e.before e.op) ∧
    FINQueued tr s ∧ ¬ (FINAcked D tr ∨ ∃ F, withFIN s = [F] ∧ EndsStream D F) := by
  obtain ⟨tr,s,hr,hw,hfirst,hq,hno,hack⟩ := Run.exists_of_exec step (init 8 1000 ⟨7⟩)
    [.maybeSend,.receive ⟨some ⟨8⟩,5⟩,.write [10],.close,.push,.push]
    (fun tr s => (∀ e ∈ tr, Writes [10] e.before e.op) ∧
      (∀ e ∈ tr, SYNFirst e.before e.op) ∧ s.sender.hasNotSentFIN = false ∧ withFIN s = [] ∧
      ∀ e ∈ tr, ¬ AcksFIN [10] e.before e.op) (by decide +kernel)
  refine ⟨_,tr,s,hr,hw,hfirst,Or.inl hq,?_⟩
  rintro (⟨e,he,ha⟩ | ⟨F,hF,-⟩)
  · exact hack e he ha
  · simp [hno] at hF

end SenderRuns
end Minnow
