import Minnow.Library.Expiry
import Minnow.SenderQueues

/-! Acknowledged messages: when the sender lets go of them, and when it sends them again. -/
namespace Minnow
namespace SenderRuns

open Library TCPSender

/-- Some number of the message does not lie below `A`. -/
def Above (A : ℕ) (m : TCPSenderMessage) : Prop := A < m.absolute + m.sequenceLength

/-- The sender has let go of what lies below `A`: none of it is queued, only queued messages
count as in flight, and nothing is in flight when everything is acknowledged. -/
structure Released (A : ℕ) (s : TCPSender) : Prop where
  above : ∀ m ∈ s.outstanding, Above A m
  inFlight : s.sequenceNumbersInFlight = UInt32.ofNat (seqnos s.outstanding)
  none : A = s.nextSeqno → s.sequenceNumbersInFlight = 0

/-- At every point of the run the sender has let go of what was acknowledged so far, and it does
not send it again. -/
structure Releases (s₀ : State) (tr : Trace) : Prop where
  released : ∀ tr₁ s₁, tr₁ <+: tr → Run step s₀ tr₁ s₁ → Released (accepted tr₁) s₁.sender
  sent : ∀ tr₁ e, tr₁ ++ [e] <+: tr → ∀ m, e.out = some m → Above (accepted tr₁) m

/-- An accepted ackno covers a message that waits unsent for its retransmission, or one that the
loop of `receive` does not recognise as covered. -/
def Retains (s : State) : Op → Prop
  | .receive msg => ∃ K ∈ s.sender.acceptedAckno msg,
    (∃ w ∈ s.sender.unsentMsgs, w.msg.absolute + w.msg.sequenceLength ≤ K) ∨
    ∃ m ∈ s.sender.unackedMsgs, m.absolute + m.sequenceLength ≤ K ∧ s.sender.acknowledges K m = false
  | _ => False

instance (A : ℕ) (m : TCPSenderMessage) : Decidable (Above A m) := by unfold Above; infer_instance

instance (s : State) (op : Op) : Decidable (Retains s op) :=
  match op with
  | .receive msg => match h : s.sender.acceptedAckno msg with
    | none => isFalse (by simp [Retains,h])
    | some K => decidable_of_iff
      ((∃ w ∈ s.sender.unsentMsgs, w.msg.absolute + w.msg.sequenceLength ≤ K) ∨
        ∃ m ∈ s.sender.unackedMsgs, m.absolute + m.sequenceLength ≤ K ∧
          s.sender.acknowledges K m = false) (by simp [Retains,h])
  | .write _ | .close | .push | .maybeSend | .tick _ => isFalse id

variable {isn : Wrap32} {s s' : State} {op : Op} {tr : Trace} {m : TCPSenderMessage}
  {out : Option TCPSenderMessage} {t : TCPSender} {A : ℕ}

structure Clear (A : ℕ) (s : State) : Prop where
  accepted_le : A ≤ s.sender.nextSeqno
  above : ∀ m ∈ s.sender.outstanding, Above A m

theorem Queues.released (h : Queues isn s) (hclear : Clear A s) : Released A s.sender := by
  have hcount : s.sender.sequenceNumbersInFlight = UInt32.ofNat (seqnos s.sender.outstanding) := by
    rw [sequenceNumbersInFlight,h.counted.unsent,h.counted.unacked,← UInt32.ofNat_add,
      ← seqnos_append]
    rfl
  refine ⟨hclear.above,hcount,?_⟩
  intro hall
  have hnil : s.sender.outstanding = [] := by
    rw [List.eq_nil_iff_forall_not_mem]
    intro m hm
    have hbelow := (h.numbered m hm).below
    have habove := hclear.above m hm
    simp only [Above] at habove
    omega
  rw [hcount,hnil]
  rfl

theorem Clear.emplaceSegment (h : Clear A s) {k : ℕ} (hne : s.outboundStream.peek.take k ≠ []) :
    Clear A ⟨s.outboundStream.pop k,
      s.sender.emplaceSegment (s.outboundStream.peek.take k)⟩ := by
  have hle := h.accepted_le
  generalize s.outboundStream.peek.take k = data at hne
  have hpos := List.length_pos_iff.mpr hne
  refine ⟨hle.trans (Nat.le_add_right _ _),?_⟩
  intro x hx
  rcases List.mem_cons.mp ((emplaceSegment_perm s.sender data).mem_iff.mp hx) with rfl | hx
  · change A < s.sender.nextSeqno + (0 + data.length + 0)
    omega
  · exact h.above x hx

theorem Clear.finishPush (h : Clear A s)
    (hlast : ∀ init last, s.sender.unsentMsgs = init ++ [last] → last.msg.FIN = false) :
    Clear A { s with sender := s.sender.finishPush s.outboundStream } := by
  rcases finishPush_cases s.sender s.outboundStream with ⟨hnil,heq⟩ | ⟨ws,last,hq,heq⟩
  · rw [heq]
    exact ⟨h.accepted_le,h.above⟩
  · have hno := hlast ws last hq
    obtain ⟨hmem,hother⟩ := mem_outstanding_finishPush hq s.outboundStream
    have habove := h.above last.msg hmem
    rw [heq] at hother ⊢
    refine ⟨h.accepted_le.trans (Nat.le_add_right _ _),?_⟩
    intro x hx
    rcases hother x hx with rfl | hx
    · simp only [Above,TCPSenderMessage.sequenceLength,hno,Bool.toNat_false] at habove ⊢
      omega
    · exact h.above x hx

theorem Clear.of_subset (h : Clear A s) (hnext : t.nextSeqno = s.sender.nextSeqno)
    (hsub : t.outstanding ⊆ s.sender.outstanding) : Clear A { s with sender := t } :=
  ⟨h.accepted_le.trans hnext.ge,fun m hm => h.above m (hsub hm)⟩

theorem Clear.maybeSend (h : Clear A s) (hq : Queues isn s) :
    Clear A { s with sender := s.sender.maybeSend.1 } := by
  have hqueues := hq.maybeSend
  rcases maybeSend_cases s.sender with ⟨heq,-⟩ | ⟨heq,hnil,-⟩ | ⟨w,rest,hcons,heq⟩
  · rw [heq]
    exact h
  · rw [heq] at hqueues ⊢
    have hle := h.accepted_le
    refine ⟨hle.trans (Nat.le_add_right _ _),?_⟩
    intro x hx
    rcases List.mem_cons.mp ((sendFlagMessage_perm hnil).mem_iff.mp hx) with rfl | hx'
    · have hpos := (hqueues.numbered _ hx).pos
      change A < s.sender.nextSeqno + _
      omega
    · exact h.above x hx'
  · have hsyn := hq.syn_sent (by simp [outstanding,hcons])
    rw [heq]
    exact h.of_subset rfl (sendUnsent_perm hsyn hcons).subset

theorem Queues.unacked_ends (h : Queues isn s) :
    s.sender.unackedMsgs.Pairwise fun m m' =>
      m.absolute + m.sequenceLength ≤ m'.absolute + m'.sequenceLength := by
  obtain ⟨ms,hord,hpair⟩ := h.ordered
  refine (hpair.sublist hord.unacked_sublist).imp_of_mem ?_
  intro m m' _ hm' hbefore
  have hpos := (h.numbered m' (List.mem_append_right _ hm')).pos
  have hbit : m.FIN.toNat ≤ 1 := Bool.toNat_le _
  simp only [Before,TCPSenderMessage.payloadStart] at hbefore
  simp only [TCPSenderMessage.sequenceLength] at hpos ⊢
  omega

/-- If the loop of `receive` misses nothing that `K` covers, nothing that it keeps is covered: the
first message that stays ends above `K`, and the ones behind it end later. -/
theorem Queues.kept_above (h : Queues isn s) {K : ℕ}
    (hmiss : ∀ m ∈ s.sender.unackedMsgs, s.sender.acknowledges K m = false → Above K m) :
    ∀ m ∈ s.sender.unackedMsgs.dropWhile (s.sender.acknowledges K), Above K m := by
  intro m hm
  have hyoung := young_of_mem_dropWhile h.unacked_ends
    (fun y hy hno => show K < y.absolute + y.sequenceLength + 0 from hmiss y hy hno) hm
  exact hyoung

/-- `receive` lets go of everything below the ackno unless the ackno covers a message where the
loop does not see it. -/
theorem Clear.receive_iff {msg : TCPReceiverMessage} (h : Clear A s) (hq : Queues isn s)
    (ht : s.sender.receive msg = .ok t) :
    Clear (max A ((s.sender.acceptedAckno msg).getD 0)) { s with sender := t } ↔
      ¬ Retains s (.receive msg) := by
  have hle := h.accepted_le
  have hsub := (receive_subperm ht).subset
  rcases receive_cases ht with ⟨hnone,rfl⟩ | ⟨K,n',retransmissions,timer,hK,-,rfl⟩
  · simp only [hnone,Option.getD_none,Nat.max_zero,Retains,Option.not_mem_none,false_and,
      exists_false,not_false_eq_true,iff_true]
    exact h.of_subset rfl hsub
  · have hKnext : K ≤ s.sender.nextSeqno := by
      simpa using (Option.filter_eq_some_iff.mp hK).2
    rw [hK,Option.getD_some]
    constructor
    · rintro hclear ⟨K',hK',hcase⟩
      obtain rfl : K = K' := Option.some.inj (hK.symm.trans hK')
      rcases hcase with ⟨w,hw,hcov⟩ | ⟨m,hm,hcov,hmiss⟩
      · have habove := hclear.above w.msg (List.mem_append_left _ (List.mem_map_of_mem hw))
        simp only [Above] at habove
        omega
      · have habove := hclear.above m (List.mem_append_right _ (mem_dropWhile_of_not hm hmiss))
        simp only [Above] at habove
        omega
    · intro hret
      have hunsent : ∀ w ∈ s.sender.unsentMsgs, Above K w.msg := by
        intro w hw
        by_contra hcov
        exact hret ⟨K,hK,Or.inl ⟨w,hw,Nat.le_of_not_lt hcov⟩⟩
      have hunacked := hq.kept_above (K := K) (by
        intro m hm hmiss
        by_contra hcov
        exact hret ⟨K,hK,Or.inr ⟨m,hm,Nat.le_of_not_lt hcov,hmiss⟩⟩)
      refine ⟨Nat.max_le.mpr ⟨hle,hKnext⟩,?_⟩
      intro m hm
      refine Nat.max_lt.mpr ⟨h.above m (hsub hm),?_⟩
      rcases List.mem_append.mp hm with hm | hm
      · obtain ⟨w,hw,rfl⟩ := List.mem_map.mp hm
        exact hunsent w hw
      · exact hunacked m hm

/-- One step: `A'` is what is acknowledged after it. -/
theorem Clear.step_iff (h : Clear A s) (hq : Queues isn s) (hfirst : SYNFirst s op)
    (hkeep : ¬ TakesFINBack s op) (hs : SenderRuns.step s op = .ok (s',out)) :
    Clear (max A ((acceptedAt s op).getD 0)) s' ↔ ¬ Retains s op := by
  have hno : ∀ {op' : Op}, (∀ msg, op' ≠ .receive msg) → acceptedAt s op' = none ∧ ¬ Retains s op' := by
    intro op' hop
    cases op' with
    | receive msg => exact absurd rfl (hop msg)
    | write data => exact ⟨rfl,id⟩
    | close => exact ⟨rfl,id⟩
    | push => exact ⟨rfl,id⟩
    | maybeSend => exact ⟨rfl,id⟩
    | tick ms => exact ⟨rfl,id⟩
  have hother : (∀ msg, op ≠ .receive msg) → Clear A s' →
      (Clear (max A ((acceptedAt s op).getD 0)) s' ↔ ¬ Retains s op) := by
    intro hop hclear
    rw [(hno hop).1,Option.getD_none,Nat.max_zero]
    exact ⟨fun _ => (hno hop).2,fun _ => hclear⟩
  cases op with
  | write data =>
    cases hs
    exact hother (by simp) ⟨h.accepted_le,h.above⟩
  | close =>
    cases hs
    exact hother (by simp) ⟨h.accepted_le,h.above⟩
  | push =>
    cases hs
    exact hother (by simp) (hq.push_induction hfirst hkeep (P := Clear A) h
      (fun t _ k hne ht => ht.emplaceSegment hne) (fun t _ hlast ht => ht.finishPush hlast)).2
  | maybeSend =>
    cases hs
    exact hother (by simp) (h.maybeSend hq)
  | receive msg =>
    obtain ⟨t,ht,rfl⟩ := step_receive hs
    exact h.receive_iff hq ht
  | tick ms =>
    obtain ⟨t,ht,rfl⟩ := step_tick hs
    exact hother (by simp) (h.of_subset (tick_ok ht).1.next (tick_perm ht).subset)

theorem accepted_le_next {C RTO : ℕ} (hr : Run step (init C RTO isn) tr s) :
    accepted tr ≤ s.sender.nextSeqno := by
  refine Run.history_invariant (fun tr s => accepted tr ≤ s.sender.nextSeqno) (fun _ => True)
    le_rfl ?_ hr (fun _ _ => trivial)
  intro tr s s' op out hle _ hs
  have hnext := step_next_le hs
  have hK : (acceptedAt s op).getD 0 ≤ s.sender.nextSeqno := by
    cases hacc : acceptedAt s op with
    | none => exact Nat.zero_le _
    | some K =>
      cases op with
      | receive msg => simpa using (Option.filter_eq_some_iff.mp hacc).2
      | write data => cases hacc
      | close => cases hacc
      | push => cases hacc
      | maybeSend => cases hacc
      | tick ms => cases hacc
  rw [accepted_snoc]
  exact Nat.max_le.mpr ⟨hle.trans hnext,hK.trans hnext⟩

theorem releases_snoc_iff {s₀ : State} {e : Event State Op (Option TCPSenderMessage)} :
    Releases s₀ (tr ++ [e]) ↔ Releases s₀ tr ∧
      (∀ s₁, Run step s₀ (tr ++ [e]) s₁ → Released (accepted (tr ++ [e])) s₁.sender) ∧
      ∀ m, e.out = some m → Above (accepted tr) m := by
  constructor
  · intro h
    exact ⟨⟨fun tr₁ s₁ hp => h.released tr₁ s₁ (hp.trans (List.prefix_append _ _)),
        fun tr₁ e' hp => h.sent tr₁ e' (hp.trans (List.prefix_append _ _))⟩,
      fun s₁ => h.released _ s₁ List.prefix_rfl,h.sent tr e List.prefix_rfl⟩
  · rintro ⟨h,hlast,hout⟩
    refine ⟨?_,?_⟩
    · intro tr₁ s₁ hp hr
      rcases List.prefix_concat_iff.mp hp with rfl | hp
      · exact hlast s₁ hr
      · exact h.released tr₁ s₁ hp hr
    · intro tr₁ e' hp
      rcases List.prefix_concat_iff.mp hp with heq | hp
      · obtain ⟨rfl,he⟩ := List.append_inj' heq rfl
        obtain rfl := (List.cons.inj he).1
        exact hout
      · exact h.sent tr₁ e' hp

theorem run_queues {C RTO : ℕ} (hr : Run step (init C RTO isn) tr s)
    (hfirst : ∀ e ∈ tr, SYNFirst e.before e.op) (hkeep : ∀ e ∈ tr, ¬ TakesFINBack e.before e.op) :
    Queues isn s :=
  Run.invariant (Queues isn) (fun e => SYNFirst e.before e.op ∧ ¬ TakesFINBack e.before e.op)
    (init_queues C RTO isn) (fun hi hg hs => hi.step hg.1 hg.2 hs) hr
    (fun e he => ⟨hfirst e he,hkeep e he⟩)

/-- A run in which SYN goes out before data and no FIN is taken back releases what is acknowledged
exactly when no accepted ackno covers a message that the loop of `receive` does not see. -/
theorem releases_iff {C RTO : ℕ} (hr : Run step (init C RTO isn) tr s)
    (hfirst : ∀ e ∈ tr, SYNFirst e.before e.op) (hkeep : ∀ e ∈ tr, ¬ TakesFINBack e.before e.op) :
    Releases (init C RTO isn) tr ↔ ∀ e ∈ tr, ¬ Retains e.before e.op := by
  suffices h : (Releases (init C RTO isn) tr ↔ ∀ e ∈ tr, ¬ Retains e.before e.op) ∧
      (Releases (init C RTO isn) tr → Clear (accepted tr) s) from h.1
  induction hr with
  | nil =>
    have hclear : Clear 0 (init C RTO isn) := ⟨le_rfl,by simp [init,TCPSender.new,outstanding]⟩
    refine ⟨⟨fun _ => by simp,fun _ => ⟨?_,?_⟩⟩,fun _ => hclear⟩
    · intro tr₁ s₁ hp hr
      obtain rfl := List.prefix_nil.mp hp
      rw [← Run.unique Run.nil hr]
      exact (init_queues C RTO isn).released hclear
    · intro tr₁ e hp
      simp at hp
  | @snoc tr s s' op out hrun hs ih =>
    have hfirst' : ∀ e ∈ tr, SYNFirst e.before e.op := fun e he => hfirst e (List.mem_append_left _ he)
    have hkeep' : ∀ e ∈ tr, ¬ TakesFINBack e.before e.op :=
      fun e he => hkeep e (List.mem_append_left _ he)
    obtain ⟨hiff,hclear⟩ := ih hfirst' hkeep'
    have hfirst'' : SYNFirst s op := hfirst ⟨s,op,out⟩ (by simp)
    have hkeep'' : ¬ TakesFINBack s op := hkeep ⟨s,op,out⟩ (by simp)
    have hq := run_queues hrun hfirst' hkeep'
    have hq' := hq.step hfirst'' hkeep'' hs
    have hall : (∀ e ∈ tr ++ [⟨s,op,out⟩], ¬ Retains e.before e.op) ↔
        (∀ e ∈ tr, ¬ Retains e.before e.op) ∧ ¬ Retains s op := by
      simp only [List.forall_mem_append,List.forall_mem_singleton]
    have hstep := fun h => (hclear h).step_iff hq hfirst'' hkeep'' hs
    have hrel : Releases (init C RTO isn) (tr ++ [⟨s,op,out⟩]) →
        Clear (accepted (tr ++ [⟨s,op,out⟩])) s' := by
      intro h
      have hrun' := Run.snoc hrun hs
      exact ⟨accepted_le_next hrun',(h.released _ s' List.prefix_rfl hrun').above⟩
    refine ⟨⟨?_,?_⟩,hrel⟩
    · intro h
      have hR := (releases_snoc_iff.mp h).1
      have hc := hrel h
      rw [accepted_snoc] at hc
      exact hall.mpr ⟨hiff.mp hR,(hstep hR).mp hc⟩
    · intro h
      obtain ⟨hprev,hnot⟩ := hall.mp h
      have hR := hiff.mpr hprev
      have hc := (hstep hR).mpr hnot
      refine releases_snoc_iff.mpr ⟨hR,?_,?_⟩
      · intro s₁ hr₁
        rw [← Run.unique (Run.snoc hrun hs) hr₁,accepted_snoc]
        exact hq'.released hc
      · rintro m rfl
        obtain rfl := step_some hs
        simp only [SenderRuns.step,Except.ok.injEq,Prod.mk.injEq] at hs
        obtain ⟨rfl,hout⟩ := hs
        simpa [acceptedAt] using hc.above m (maybeSend_outstanding hq.syn_sent hout)

theorem releases_iff_resent : ∃ tr s, Run step (init 8 1000 ⟨7⟩) tr s ∧ accepted tr = 3 ∧
    Releases (init 8 1000 ⟨7⟩) tr := by
  obtain ⟨tr,s,hr,haccepted,hfirst,hkeep,hnot⟩ := Run.exists_of_exec step (init 8 1000 ⟨7⟩)
    [.maybeSend,.receive ⟨some ⟨8⟩,5⟩,.write [10],.push,.maybeSend,.write [11],.push,.maybeSend,
      .tick 1000,.maybeSend,.receive ⟨some ⟨10⟩,5⟩]
    (fun tr _ => accepted tr = 3 ∧ (∀ e ∈ tr, SYNFirst e.before e.op) ∧
      (∀ e ∈ tr, ¬ TakesFINBack e.before e.op) ∧ ∀ e ∈ tr, ¬ Retains e.before e.op)
    (by decide +kernel)
  exact ⟨tr,s,hr,haccepted,(releases_iff hr hfirst hkeep).mpr hnot⟩

/-- The ack arrives between the timeout and the retransmission: everything is acknowledged, one
number stays in flight, and the byte goes out again. -/
theorem acknowledged_sent_again : ∃ tr s m, Run step (init 8 1000 ⟨7⟩) tr s ∧
    accepted tr = s.sender.nextSeqno ∧ s.sender.sequenceNumbersInFlight = 1 ∧
    s.sender.maybeSend.2 = some m ∧ ¬ Above (accepted tr) m ∧ ¬ Releases (init 8 1000 ⟨7⟩) tr := by
  obtain ⟨tr,s,hr,haccepted,hflight,hagain⟩ := Run.exists_of_exec step (init 8 1000 ⟨7⟩)
    [.maybeSend,.receive ⟨some ⟨8⟩,5⟩,.write [10],.push,.maybeSend,.tick 1000,
      .receive ⟨some ⟨9⟩,5⟩]
    (fun tr s => accepted tr = s.sender.nextSeqno ∧ s.sender.sequenceNumbersInFlight = 1 ∧
      ∃ m ∈ s.sender.maybeSend.2, ¬ Above (accepted tr) m) (by decide +kernel)
  obtain ⟨m,hm,hbelow⟩ := hagain
  refine ⟨tr,s,m,hr,haccepted,hflight,hm,hbelow,?_⟩
  intro h
  have hzero := (h.released tr s List.prefix_rfl hr).none haccepted
  rw [hflight] at hzero
  exact absurd hzero (by decide)

end SenderRuns
end Minnow
