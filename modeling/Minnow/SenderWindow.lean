import Minnow.SenderRuns

/-! New sequence numbers against the receiver's window, over runs in which the caller and the
peer are free in everything. -/
namespace Minnow
namespace SenderRuns

open Library TCPSender

/-- If the step assigns sequence numbers, what is in flight after it fits the window, a window
of zero counting as one. -/
def RespectsWindow (s : State) (op : Op) : Prop :=
  ∀ s' out, step s op = .ok (s',out) → s.sender.nextSeqno < s'.sender.nextSeqno →
    s'.sender.sequenceNumbersInFlight.toNat ≤ max 1 s'.sender.windowSize.toNat

/-- The step goes over the window. The zero window lets `push` add a byte, and `maybe_send` a flag,
to what is in flight already; and `maybe_send` adds SYN and FIN together to a window that has
room for one. The counter has 32 bits: where it is about to wrap, what is added ends near zero. -/
def Overruns (s : State) : Op → Prop
  | .push =>
    s.sender.windowSize = 0 ∧ s.sender.zeroWindowSizeSpecialCaseFlag = true ∧
      s.outboundStream.peek ≠ [] ∧ s.sender.sequenceNumbersInFlight ≠ 0 ∧
      s.sender.sequenceNumbersInFlight ≠ 0xffffffff ∧
      ¬ (s.sender.sequenceNumbersInFlight = 0xfffffffe ∧ s.sender.hasNotSentFIN = true ∧
        s.outboundStream.isClosed = true ∧ s.outboundStream.peek.length = 1)
  | .maybeSend =>
    s.sender.unsentMsgs = [] ∧ (s.sender.hasNotSentSYN || s.sender.canSendFIN) = true ∧
      if s.sender.windowSize = 0 then
        s.sender.zeroWindowSizeSpecialCaseFlag = true ∧
          if (s.sender.hasNotSentSYN && s.sender.canSendFIN) = true then
            s.sender.sequenceNumbersInFlight.toNat < 2^32 - 2
          else 0 < s.sender.sequenceNumbersInFlight.toNat ∧
            s.sender.sequenceNumbersInFlight.toNat < 2^32 - 1
      else (s.sender.hasNotSentSYN && s.sender.canSendFIN) = true ∧
        s.sender.sequenceNumbersInFlight.toNat + 1 = s.sender.windowSize.toNat
  | _ => False

instance (s : State) (op : Op) : Decidable (Overruns s op) :=
  match op with
  | .write _ | .close | .push | .maybeSend | .receive _ | .tick _ => by unfold Overruns; infer_instance

variable {s s' : State} {op : Op} {tr : Trace} {t : TCPSender} {out : Option TCPSenderMessage}

theorem windowAllows_iff (t : TCPSender) :
    t.windowAllows = true ↔ t.windowSize = 0 ∧ t.zeroWindowSizeSpecialCaseFlag = true ∨
      t.sequenceNumbersInFlight.toNat < t.windowSize.toNat := by
  simp only [windowAllows,Bool.or_eq_true,Bool.and_eq_true,beq_iff_eq,decide_eq_true_eq,
    UInt32.lt_iff_toNat_lt,sequenceNumbersInFlight,UInt32.add_comm t.unackedSeqnos]
  simp

theorem emplaceSegment_inFlight (t : TCPSender) (data : List Byte) :
    (t.emplaceSegment data).sequenceNumbersInFlight =
      t.sequenceNumbersInFlight + UInt32.ofNat data.length := by
  simp only [sequenceNumbersInFlight,TCPSender.emplaceSegment]
  grind

theorem sendFlagMessage_inFlight (t : TCPSender) :
    t.sendFlagMessage.sequenceNumbersInFlight = t.sequenceNumbersInFlight +
      UInt32.ofNat (t.hasNotSentSYN.toNat + t.canSendFIN.toNat) := by
  simp only [sequenceNumbersInFlight,TCPSender.sendFlagMessage]
  grind

theorem segmentSize_of_zero (h : t.windowSize = 0) : t.segmentSize = 1 := by
  simp only [segmentSize,if_pos h]
  decide

theorem segmentSize_of_open (hw : t.windowSize ≠ 0) (hgo : t.windowAllows = true) :
    t.segmentSize = min 1000 (t.windowSize.toNat - t.sequenceNumbersInFlight.toNat) := by
  have hroom : t.sequenceNumbersInFlight.toNat < t.windowSize.toNat := by
    rcases (windowAllows_iff t).mp hgo with ⟨hzero,-⟩ | hroom
    · exact absurd hzero hw
    · exact hroom
  have hu := t.unackedSeqnos.toNat_lt
  have hv := t.unsentSeqnos.toNat_lt
  have hz := t.windowSize.toNat_lt
  have hmaxsize : TCPConfig.maxPayloadSize.toNat = 1000 := by decide
  simp only [sequenceNumbersInFlight,UInt32.toNat_add] at hroom ⊢
  simp only [segmentSize,if_neg hw]
  have hfree : (t.windowSize.toUInt32 - t.unackedSeqnos - t.unsentSeqnos).toNat +
      (t.unsentSeqnos.toNat + t.unackedSeqnos.toNat) % 2^32 = t.windowSize.toNat := by
    rw [UInt32.toNat_sub,UInt32.toNat_sub,UInt16.toNat_toUInt32]
    omega
  split_ifs with hmax
  · rw [UInt32.lt_iff_toNat_lt,hmaxsize] at hmax
    omega
  · rw [UInt32.lt_iff_toNat_lt,hmaxsize] at hmax
    omega

theorem inFlight_add_segmentSize (hw : t.windowSize ≠ 0) (hgo : t.windowAllows = true) :
    t.sequenceNumbersInFlight.toNat + t.segmentSize ≤ t.windowSize.toNat := by
  have hsize := segmentSize_of_open hw hgo
  rcases (windowAllows_iff t).mp hgo with ⟨hzero,-⟩ | hroom
  · exact absurd hzero hw
  · omega

theorem finishPush_inFlight (t : TCPSender) (r : ByteStream) :
    (t.finishPush r).windowSize = t.windowSize ∧
      (t.unsentMsgs = [] ∨ t.finFlag r = false) ∧
        (t.finishPush r).sequenceNumbersInFlight = t.sequenceNumbersInFlight ∧
        (t.finishPush r).nextSeqno = t.nextSeqno ∨
    (t.finishPush r).windowSize = t.windowSize ∧ t.unsentMsgs ≠ [] ∧ t.finFlag r = true ∧
      (t.finishPush r).sequenceNumbersInFlight = t.sequenceNumbersInFlight + 1 ∧
      (t.finishPush r).nextSeqno = t.nextSeqno + 1 := by
  rcases finishPush_cases t r with ⟨hnil,heq⟩ | ⟨ws,last,hq,heq⟩
  · rw [heq]
    exact Or.inl ⟨rfl,Or.inl hnil,rfl,rfl⟩
  · rw [heq]
    cases hflag : t.finFlag r with
    | false =>
      refine Or.inl ⟨rfl,Or.inr rfl,?_,rfl⟩
      change t.unsentSeqnos + UInt32.ofNat 0 + t.unackedSeqnos = _
      rw [show UInt32.ofNat 0 = 0 from rfl,UInt32.add_zero]
      rfl
    | true =>
      refine Or.inr ⟨rfl,by simp [hq],rfl,?_,rfl⟩
      change t.unsentSeqnos + UInt32.ofNat 1 + t.unackedSeqnos = t.unsentSeqnos + t.unackedSeqnos + 1
      rw [show UInt32.ofNat 1 = 1 from rfl]
      grind

theorem hasRoomForFIN_iff (t : TCPSender) :
    t.hasRoomForFIN = true ↔ (t.sequenceNumbersInFlight + 1).toNat ≤ t.windowSize.toNat := by
  simp only [hasRoomForFIN,decide_eq_true_eq,UInt32.le_iff_toNat_le,sequenceNumbersInFlight,
    UInt32.add_comm t.unackedSeqnos,UInt16.toNat_toUInt32]

theorem pushState_sender (s : State) :
    (pushState s).sender = (segmentState s).sender.finishPush (segmentState s).outboundStream := rfl

theorem push_open (hw : s.sender.windowSize ≠ 0)
    (hgrow : s.sender.nextSeqno < (pushState s).sender.nextSeqno) :
    (pushState s).sender.windowSize = s.sender.windowSize ∧
      (pushState s).sender.sequenceNumbersInFlight.toNat ≤ s.sender.windowSize.toNat := by
  obtain ⟨-,hwindow,hfit⟩ := segment_induction
    (P := fun t _ _ => t.windowSize = s.sender.windowSize ∧
      (s.sender.nextSeqno < t.nextSeqno →
        t.sequenceNumbersInFlight.toNat ≤ s.sender.windowSize.toNat))
    (by
      rintro t r data ⟨hwindow,-⟩ - hgo
      refine ⟨hwindow,fun _ => ?_⟩
      have hle := inFlight_add_segmentSize (by rw [hwindow]; exact hw) hgo
      have htake : (data.take t.segmentSize).length ≤ t.segmentSize := List.length_take_le _ _
      have hz := t.windowSize.toNat_lt
      rw [emplaceSegment_inFlight,UInt32.toNat_add,UInt32.toNat_ofNat',← hwindow]
      omega)
    s.outboundStream.peek.length s.sender s.outboundStream s.outboundStream.peek
    ⟨rfl,fun h => absurd h (lt_irrefl _)⟩
  change (segmentState s).sender.windowSize = _ at hwindow
  change _ < (segmentState s).sender.nextSeqno → (segmentState s).sender.sequenceNumbersInFlight.toNat ≤ _
    at hfit
  rw [pushState_sender] at hgrow ⊢
  rcases finishPush_inFlight (segmentState s).sender (segmentState s).outboundStream with
    ⟨hsize,-,hflight,hnext⟩ | ⟨hsize,-,hflag,hflight,-⟩
  · rw [hsize,hflight]
    exact ⟨hwindow,hfit (hnext ▸ hgrow)⟩
  · simp only [finFlag,Bool.and_eq_true,hasRoomForFIN_iff] at hflag
    rw [hsize,hflight,← hwindow]
    exact ⟨rfl,hflag.2⟩

/-- Into a closed window goes one byte, if the special case is armed and there is data. -/
theorem segmentState_of_zero (hw : s.sender.windowSize = 0) :
    segmentState s = if s.outboundStream.peek ≠ [] ∧ s.sender.zeroWindowSizeSpecialCaseFlag = true then
      ⟨s.outboundStream.pop 1,s.sender.emplaceSegment (s.outboundStream.peek.take 1)⟩ else s := by
  have hallows : ∀ t : TCPSender, t.windowSize = 0 →
      (t.windowAllows = true ↔ t.zeroWindowSizeSpecialCaseFlag = true) := by
    intro t ht
    rw [windowAllows_iff,ht]
    simp
  split_ifs with hgo
  · obtain ⟨hne,hflag⟩ := hgo
    simp only [segmentState]
    cases hpeek : s.outboundStream.peek with
    | nil => exact absurd hpeek hne
    | cons c cs =>
      have hstop : ¬ (cs ≠ [] ∧ (s.sender.emplaceSegment [c]).windowAllows = true) := by
        rw [hallows (s.sender.emplaceSegment [c]) hw]
        simp [TCPSender.emplaceSegment,hw]
      rw [List.length_cons,TCPSender.segment,if_pos ⟨by simp,(hallows _ hw).mpr hflag⟩]
      simp only [segmentSize_of_zero hw,List.take_succ_cons,List.take_zero,List.drop_succ_cons,
        List.drop_zero,segment_stop hstop]
  · rw [← hallows _ hw] at hgo
    simp only [segmentState,segment_stop hgo]

theorem segmentState_probe (hw : s.sender.windowSize = 0) (hne : s.outboundStream.peek ≠ [])
    (harmed : s.sender.zeroWindowSizeSpecialCaseFlag = true) :
    (segmentState s).sender.sequenceNumbersInFlight = s.sender.sequenceNumbersInFlight + 1 ∧
      (segmentState s).sender.nextSeqno = s.sender.nextSeqno + 1 ∧
      (segmentState s).sender.windowSize = 0 ∧ (segmentState s).sender.unsentMsgs ≠ [] ∧
      (segmentState s).sender.hasNotSentFIN = s.sender.hasNotSentFIN ∧
      (segmentState s).outboundStream = s.outboundStream.pop 1 := by
  have hpos := List.length_pos_iff.mpr hne
  have hlen : (s.outboundStream.peek.take 1).length = 1 := by
    rw [List.length_take]
    omega
  have hseg := segmentState_of_zero hw
  rw [if_pos ⟨hne,harmed⟩] at hseg
  rw [hseg]
  refine ⟨?_,?_,hw,by simp [TCPSender.emplaceSegment],rfl,rfl⟩
  · rw [emplaceSegment_inFlight,hlen]
    rfl
  · change s.sender.nextSeqno + (s.outboundStream.peek.take 1).length = _
    rw [hlen]

/-- FIN needs room behind that byte in a window of zero, so the sum has to wrap. -/
theorem finFlag_probe_iff (hwf : s.outboundStream.WF) (hw : s.sender.windowSize = 0)
    (hne : s.outboundStream.peek ≠ []) (harmed : s.sender.zeroWindowSizeSpecialCaseFlag = true) :
    (segmentState s).sender.finFlag (segmentState s).outboundStream = true ↔
      s.sender.sequenceNumbersInFlight = 0xfffffffe ∧ s.sender.hasNotSentFIN = true ∧
        s.outboundStream.isClosed = true ∧ s.outboundStream.peek.length = 1 := by
  obtain ⟨hflight,-,hw₁,-,hFIN,hpop⟩ := segmentState_probe hw hne harmed
  have hpos := List.length_pos_iff.mpr hne
  have hfinished : (segmentState s).outboundStream.isFinished = true ↔
      s.outboundStream.isClosed = true ∧ s.outboundStream.peek.length = 1 := by
    rw [hpop,ByteStream.isFinished_iff (ByteStream.pop_wf hwf 1),ByteStream.pop_peek hwf,
      ← List.length_eq_zero_iff,List.length_drop,ByteStream.pop_isClosed]
    exact and_congr_right fun _ => by omega
  have hroom : (segmentState s).sender.hasRoomForFIN = true ↔
      s.sender.sequenceNumbersInFlight = 0xfffffffe := by
    have hF := s.sender.sequenceNumbersInFlight.toNat_lt
    rw [hasRoomForFIN_iff,hw₁,hflight,← UInt32.toNat_inj,UInt32.toNat_add,UInt32.toNat_add]
    simp
    omega
  rw [finFlag,Bool.and_eq_true,Bool.and_eq_true,hroom,hfinished,hFIN]
  exact and_comm

/-- `push` into a closed window: with the special case armed and data waiting it adds a byte, and
FIN behind it only where the counter is about to wrap. -/
theorem push_zero (hwf : s.outboundStream.WF) (hw : s.sender.windowSize = 0)
    (hne : s.outboundStream.peek ≠ []) (harmed : s.sender.zeroWindowSizeSpecialCaseFlag = true) :
    s.sender.nextSeqno < (pushState s).sender.nextSeqno ∧ (pushState s).sender.windowSize = 0 ∧
      if s.sender.sequenceNumbersInFlight = 0xfffffffe ∧ s.sender.hasNotSentFIN = true ∧
          s.outboundStream.isClosed = true ∧ s.outboundStream.peek.length = 1 then
        (pushState s).sender.sequenceNumbersInFlight = 0
      else (pushState s).sender.sequenceNumbersInFlight = s.sender.sequenceNumbersInFlight + 1 := by
  obtain ⟨hflight₁,hnext₁,hw₁,hfull,-,-⟩ := segmentState_probe hw hne harmed
  have hflag := finFlag_probe_iff hwf hw hne harmed
  rw [pushState_sender]
  rcases finishPush_inFlight (segmentState s).sender (segmentState s).outboundStream with
    ⟨hsize,hno,hflight,hnext⟩ | ⟨hsize,-,hyes,hflight,hnext⟩
  · have hcond := hno.resolve_left hfull
    rw [← Bool.not_eq_true,hflag] at hcond
    rw [if_neg hcond,hflight,hnext,hsize,hflight₁,hnext₁,hw₁]
    exact ⟨Nat.lt_succ_self _,rfl,rfl⟩
  · have hcond := hflag.mp hyes
    rw [if_pos hcond,hflight,hnext,hsize,hflight₁,hnext₁,hw₁,hcond.1]
    exact ⟨by omega,rfl,by decide⟩

theorem push_zero_idle (hw : s.sender.windowSize = 0)
    (hidle : ¬ (s.outboundStream.peek ≠ [] ∧ s.sender.zeroWindowSizeSpecialCaseFlag = true))
    (hgrow : s.sender.nextSeqno < (pushState s).sender.nextSeqno) :
    (pushState s).sender.sequenceNumbersInFlight.toNat = 0 := by
  have hseg := segmentState_of_zero hw
  rw [if_neg hidle] at hseg
  rw [pushState_sender,hseg] at hgrow ⊢
  rcases finishPush_inFlight s.sender s.outboundStream with
    ⟨-,-,-,hnext⟩ | ⟨-,-,hflag,hflight,-⟩
  · omega
  · simp only [finFlag,Bool.and_eq_true,hasRoomForFIN_iff,hw] at hflag
    rw [hflight]
    exact Nat.le_zero.mp hflag.2

theorem respectsWindow_push_iff (hwf : s.outboundStream.WF) :
    RespectsWindow s .push ↔ ¬ Overruns s .push := by
  have hiff : RespectsWindow s .push ↔ (s.sender.nextSeqno < (pushState s).sender.nextSeqno →
      (pushState s).sender.sequenceNumbersInFlight.toNat ≤
        max 1 (pushState s).sender.windowSize.toNat) :=
    ⟨fun h => h _ _ rfl,fun h s' out hs => by cases hs; exact h⟩
  rw [hiff]
  by_cases hw : s.sender.windowSize = 0
  · by_cases hgo : s.outboundStream.peek ≠ [] ∧ s.sender.zeroWindowSizeSpecialCaseFlag = true
    · have hF := s.sender.sequenceNumbersInFlight.toNat_lt
      obtain ⟨hgrow,hw',hflight⟩ := push_zero hwf hw hgo.1 hgo.2
      simp only [hgrow,forall_const,hw',Overruns,hw,hgo.1,hgo.2,true_and,ne_eq,not_false_eq_true]
      split_ifs at hflight with hfin
      · simp [hflight,hfin]
      · rw [hflight]
        simp only [hfin,not_false_eq_true,and_true]
        simp only [← UInt32.toNat_inj,UInt32.toNat_add]
        simp
        omega
    · refine ⟨fun _ hover => hgo ⟨hover.2.2.1,hover.2.1⟩,fun _ hgrow => ?_⟩
      rw [push_zero_idle hw hgo hgrow]
      exact Nat.zero_le _
  · refine ⟨fun _ hover => hw hover.1,fun _ hgrow => ?_⟩
    obtain ⟨hsize,hle⟩ := push_open hw hgrow
    rw [hsize]
    exact hle.trans (Nat.le_max_right _ _)

theorem sendFlagMessage_fits_iff (hdue : (t.hasNotSentSYN || t.canSendFIN) = true)
    (hgo : t.windowAllows = true) :
    t.nextSeqno < t.sendFlagMessage.nextSeqno ∧
      (t.sendFlagMessage.sequenceNumbersInFlight.toNat ≤ max 1 t.windowSize.toNat ↔
        ¬ if t.windowSize = 0 then
          if (t.hasNotSentSYN && t.canSendFIN) = true then
            t.sequenceNumbersInFlight.toNat < 2^32 - 2
          else 0 < t.sequenceNumbersInFlight.toNat ∧ t.sequenceNumbersInFlight.toNat < 2^32 - 1
        else (t.hasNotSentSYN && t.canSendFIN) = true ∧
          t.sequenceNumbersInFlight.toNat + 1 = t.windowSize.toNat) := by
  have hF := t.sequenceNumbersInFlight.toNat_lt
  have hz := t.windowSize.toNat_lt
  have hwindow : t.windowSize = 0 ↔ t.windowSize.toNat = 0 := by
    rw [← UInt16.toNat_inj]
    rfl
  have hroom := (windowAllows_iff t).mp hgo
  rw [hwindow] at hroom
  rw [sendFlagMessage_inFlight,UInt32.toNat_add,UInt32.toNat_ofNat']
  simp only [hwindow]
  change t.nextSeqno < t.nextSeqno + (t.hasNotSentSYN.toNat + t.canSendFIN.toNat) ∧ _
  generalize t.canSendFIN = FIN at hdue ⊢
  generalize t.hasNotSentSYN = SYN at hdue ⊢
  cases SYN <;> cases FIN
  · simp at hdue
  all_goals
    simp only [Bool.toNat_true,Bool.toNat_false,Bool.and_true,Bool.and_false,Bool.false_eq_true,
      if_true,if_false,true_and,false_and]
    refine ⟨by omega,?_⟩
    by_cases hw : t.windowSize.toNat = 0
    · rw [if_pos hw]
      omega
    · simp only [if_neg hw,not_false_eq_true,iff_true]
      omega

theorem respectsWindow_maybeSend_iff : RespectsWindow s .maybeSend ↔ ¬ Overruns s .maybeSend := by
  have hiff : RespectsWindow s .maybeSend ↔
      (s.sender.nextSeqno < s.sender.maybeSend.1.nextSeqno →
        s.sender.maybeSend.1.sequenceNumbersInFlight.toNat ≤
          max 1 s.sender.maybeSend.1.windowSize.toNat) :=
    ⟨fun h => h _ _ rfl,fun h s' out hs => by cases hs; exact h⟩
  rw [hiff]
  cases hq : s.sender.unsentMsgs with
  | cons w rest =>
    have hmaybe : s.sender.maybeSend.1 = s.sender.sendUnsent w rest := by
      simp only [TCPSender.maybeSend,hq]
    rw [hmaybe]
    refine ⟨fun _ hover => ?_,fun _ hgrow => absurd hgrow (lt_irrefl _)⟩
    rw [Overruns,hq] at hover
    cases hover.1
  | nil =>
    by_cases hgo : ((s.sender.hasNotSentSYN || s.sender.canSendFIN) && s.sender.windowAllows) = true
    · have hmaybe : s.sender.maybeSend.1 = s.sender.sendFlagMessage := by
        simp only [TCPSender.maybeSend,hq,if_pos hgo]
      rw [Bool.and_eq_true] at hgo
      obtain ⟨hgrow,hfits⟩ := sendFlagMessage_fits_iff hgo.1 hgo.2
      have hsame : s.sender.sendFlagMessage.windowSize = s.sender.windowSize := rfl
      have harmed : s.sender.windowSize = 0 → s.sender.zeroWindowSizeSpecialCaseFlag = true := by
        intro hw
        rcases (windowAllows_iff s.sender).mp hgo.2 with ⟨-,hflag⟩ | hroom
        · exact hflag
        · simp [hw] at hroom
      rw [hmaybe,hsame,hfits]
      simp only [hgrow,forall_const,Overruns,hq,hgo.1,true_and]
      by_cases hw : s.sender.windowSize = 0
      · simp only [if_pos hw,harmed hw,true_and]
      · simp only [if_neg hw]
    · have hmaybe : s.sender.maybeSend.1 = s.sender := by
        simp only [TCPSender.maybeSend,hq,if_neg hgo]
      rw [hmaybe]
      refine ⟨fun _ hover => hgo ?_,fun _ hgrow => absurd hgrow (lt_irrefl _)⟩
      obtain ⟨-,hdue,hcase⟩ := hover
      rw [Bool.and_eq_true,windowAllows_iff]
      refine ⟨hdue,?_⟩
      by_cases hw : s.sender.windowSize = 0
      · rw [if_pos hw] at hcase
        exact Or.inl ⟨hw,hcase.1⟩
      · rw [if_neg hw] at hcase
        exact Or.inr (hcase.2 ▸ Nat.lt_succ_self _)

theorem respectsWindow_iff (hwf : s.outboundStream.WF) : RespectsWindow s op ↔ ¬ Overruns s op := by
  have hsame : (∀ s' out, step s op = .ok (s',out) → s'.sender.nextSeqno = s.sender.nextSeqno) →
      RespectsWindow s op :=
    fun h s' out hs hgrow => absurd hgrow (h s' out hs).le.not_gt
  cases op with
  | push => exact respectsWindow_push_iff hwf
  | maybeSend => exact respectsWindow_maybeSend_iff
  | write data =>
    refine iff_of_true (hsame ?_) id
    rintro s' out hs
    cases hs
    rfl
  | close =>
    refine iff_of_true (hsame ?_) id
    rintro s' out hs
    cases hs
    rfl
  | receive msg =>
    refine iff_of_true (hsame ?_) id
    rintro s' out hs
    obtain ⟨t,ht,rfl⟩ := step_receive hs
    exact (receive_ok ht).1.next
  | tick ms =>
    refine iff_of_true (hsame ?_) id
    rintro s' out hs
    obtain ⟨t,ht,rfl⟩ := step_tick hs
    exact (tick_ok ht).1.next

theorem step_stream_wf (hwf : s.outboundStream.WF) (hs : step s op = .ok (s',out)) :
    s'.outboundStream.WF := by
  cases op with
  | write data =>
    cases hs
    exact ByteStream.push_wf hwf data
  | close =>
    cases hs
    exact ByteStream.close_wf hwf
  | push =>
    cases hs
    obtain ⟨-,hwf'⟩ := segment_induction (P := fun _ r _ => r.WF)
      (fun _ _ _ hr _ _ => ByteStream.pop_wf hr _) s.outboundStream.peek.length s.sender
      s.outboundStream s.outboundStream.peek hwf
    exact hwf'
  | maybeSend =>
    cases hs
    exact hwf
  | receive msg =>
    obtain ⟨t,-,rfl⟩ := step_receive hs
    exact hwf
  | tick ms =>
    obtain ⟨t,-,rfl⟩ := step_tick hs
    exact hwf

/-- All steps of a run respect the window exactly when none of them overruns it. -/
theorem window_respected_iff {C RTO : ℕ} {isn : Wrap32} (hr : Run step (init C RTO isn) tr s) :
    (∀ e ∈ tr, RespectsWindow e.before e.op) ↔ ∀ e ∈ tr, ¬ Overruns e.before e.op := by
  have hall := (Run.forall_events (fun s => s.outboundStream.WF) (fun _ => True)
    (fun e => RespectsWindow e.before e.op ↔ ¬ Overruns e.before e.op) (ByteStream.new_wf C)
    (fun hwf _ hs => ⟨step_stream_wf hwf hs,respectsWindow_iff hwf⟩) hr (fun _ _ => trivial)).2
  exact forall₂_congr hall

theorem window_respected_iff_probe : ∃ tr s, Run step (init 8 1000 ⟨7⟩) tr s ∧
    s.sender.nextSeqno = 3 ∧ ∀ e ∈ tr, RespectsWindow e.before e.op := by
  obtain ⟨tr,s,hr,hnext,hnot⟩ := Run.exists_of_exec step (init 8 1000 ⟨7⟩)
    [.maybeSend,.receive ⟨some ⟨8⟩,0⟩,.write [10,11],.push,.push,.maybeSend,.receive ⟨some ⟨9⟩,1⟩,.push]
    (fun tr s => s.sender.nextSeqno = 3 ∧ ∀ e ∈ tr, ¬ Overruns e.before e.op) (by decide +kernel)
  exact ⟨tr,s,hr,hnext,(window_respected_iff hr).mpr hnot⟩

/-- The peer repeats its ack with a window of zero, and `push` sends a second byte into it. -/
theorem zero_window_overrun : ∃ tr s, Run step (init 8 1000 ⟨7⟩) tr s ∧
    s.sender.windowSize = 0 ∧ s.sender.sequenceNumbersInFlight = 2 ∧
    ¬ ∀ e ∈ tr, RespectsWindow e.before e.op := by
  obtain ⟨tr,s,hr,hw,hflight,hbad⟩ := Run.exists_of_exec step (init 8 1000 ⟨7⟩)
    [.maybeSend,.receive ⟨some ⟨8⟩,0⟩,.write [10,11],.push,.maybeSend,.receive ⟨some ⟨8⟩,0⟩,.push]
    (fun tr s => s.sender.windowSize = 0 ∧ s.sender.sequenceNumbersInFlight = 2 ∧
      ∃ e ∈ tr, e.op = .push ∧ e.before.sender.nextSeqno < (pushState e.before).sender.nextSeqno ∧
        1 < (pushState e.before).sender.sequenceNumbersInFlight.toNat ∧
        (pushState e.before).sender.windowSize.toNat ≤ 1) (by decide +kernel)
  refine ⟨tr,s,hr,hw,hflight,?_⟩
  obtain ⟨e,he,hop,hgrow,hlarge,hsmall⟩ := hbad
  intro hall
  have hfit := hall e he
  rw [hop] at hfit
  have hle := hfit _ _ rfl hgrow
  omega

end SenderRuns
end Minnow
