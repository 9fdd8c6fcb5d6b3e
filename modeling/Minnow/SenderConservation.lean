import Minnow.SenderQueues

/-! Every sequence number that is not yet acknowledged is held by exactly one message of the
two deques, as long as `push` has not seen the end of the stream. -/
namespace Minnow
namespace SenderRuns

open Library TCPSender

/-- What a step puts into the stream: of a write as much as there is room for. -/
def writtenAt (s : State) : Op → List Byte
  | .write data => data.take s.outboundStream.availableCapacity
  | _ => []

def written (tr : Trace) : List Byte := tr.flatMap fun e => writtenAt e.before e.op

/-- `push` finds the outbound stream finished. -/
def SeesEnd (s : State) : Op → Prop
  | .push => (pushState s).sender.streamIsFinished = true
  | _ => False

instance (s : State) (op : Op) : Decidable (SeesEnd s op) :=
  match op with
  | .write _ | .close | .push | .maybeSend | .receive _ | .tick _ => by unfold SeesEnd; infer_instance

def Covers (m : TCPSenderMessage) (a : ℕ) : Prop :=
  m.absolute ≤ a ∧ a < m.absolute + m.sequenceLength

instance (m : TCPSenderMessage) (a : ℕ) : Decidable (Covers m a) := by
  unfold Covers; infer_instance

/-- What the two deques must be for a stream `D` of which everything below `A` is acknowledged. -/
structure Conserved (D : List Byte) (isn : Wrap32) (A : ℕ) (s : TCPSender) : Prop where
  covered : ∀ a, A ≤ a → a < s.nextSeqno →
    s.outstanding.countP (fun m => decide (Covers m a)) = 1
  seqno : ∀ m ∈ s.outstanding, m.seqno = Wrap32.wrap m.absolute isn
  holds : ∀ m ∈ s.outstanding, ∀ a, Covers m a →
    if a = 0 then m.SYN = true else ∃ b, m.byteAt a = some b ∧ D[a-1]? = some b
  increasing : s.unackedMsgs.Pairwise fun m m' =>
    m.absolute < m'.absolute ∧ m.absolute + m.sequenceLength ≤ m'.absolute
  retransmitted : ∀ w ∈ s.unsentMsgs, w.isRetransmitted = true → ∀ m ∈ s.unackedMsgs,
    w.msg.absolute + w.msg.sequenceLength ≤ m.absolute
  fresh : ∀ w ∈ s.unsentMsgs, w.isRetransmitted = false → ∀ m ∈ s.unackedMsgs,
    m.absolute + m.sequenceLength ≤ w.msg.absolute
  unsentSeqnos : s.unsentSeqnos.toNat = seqnos (s.unsentMsgs.map TCPSenderMessageWrapper.msg)
  unackedSeqnos : s.unackedSeqnos.toNat = seqnos s.unackedMsgs

structure Conserving (D : List Byte) (isn : Wrap32) (A : ℕ) (s : State) : Prop where
  queues : Queues isn s
  start : s.sender.hasNotSentSYN = true → s.sender.nextSeqno = 0
  unfinished : s.sender.hasNotSentFIN = true ∧ s.sender.streamIsFinished = false
  pushed : s.outboundStream.bytesPushed = D.length
  content : s.outboundStream.peek = D.drop s.outboundStream.bytesPopped
  placed : ∀ m ∈ s.sender.outstanding, Placed D isn s.sender.nextSeqno m
  noFIN : ∀ m ∈ s.sender.outstanding, m.FIN = false
  accepted_le : A ≤ s.sender.nextSeqno
  covered : ∀ a, A ≤ a → a < s.sender.nextSeqno → ∃ m ∈ s.sender.outstanding, Covers m a

variable {D : List Byte} {isn : Wrap32} {s s' : State} {op : Op} {tr : Trace}
  {m : TCPSenderMessage} {out : Option TCPSenderMessage} {t : TCPSender} {A n : ℕ}
  {ms : List TCPSenderMessage}

@[simp] theorem written_snoc (tr : Trace) (e : Event State Op (Option TCPSenderMessage)) :
    written (tr ++ [e]) = written tr ++ writtenAt e.before e.op := by
  simp [written]

theorem Placed.extend (h : Placed D isn n m) (E : List Byte) : Placed (D ++ E) isn n m := by
  have hpos := h.payloadStart_pos
  have hin := h.inside
  refine ⟨h.seqno,h.start,?_,?_,h.below,h.lt⟩
  · rw [slice,List.drop_append_of_le_length (by omega),List.take_append_of_le_length]
    · exact h.payload
    · rw [List.length_drop]
      omega
  · rw [List.length_append]
    omega

theorem init_conserving (capacity RTO : ℕ) (isn : Wrap32) :
    Conserving [] isn 0 (init capacity RTO isn) :=
  ⟨init_queues capacity RTO isn,fun _ => rfl,⟨rfl,rfl⟩,rfl,by simp [init],
    by simp [init,TCPSender.new,outstanding],by simp [init,TCPSender.new,outstanding],le_rfl,
    by simp [init,TCPSender.new]⟩

theorem Conserving.next_eq (h : Conserving D isn A s) (hsyn : s.sender.hasNotSentSYN = false) :
    s.sender.nextSeqno = s.outboundStream.bytesPopped + 1 := by
  have hnext := h.queues.next
  rw [hsyn,h.unfinished.1] at hnext
  simpa using hnext

theorem Conserving.popped_le (h : Conserving D isn A s) : s.outboundStream.bytesPopped ≤ D.length := by
  have hp := h.queues.stream.pushed_eq
  have hlen := h.pushed
  omega

theorem Conserving.write (h : Conserving D isn A s) (data : List Byte) :
    Conserving (D ++ data.take s.outboundStream.availableCapacity) isn A
      { s with outboundStream := s.outboundStream.push data } := by
  have hpop := h.popped_le
  refine ⟨h.queues.write data,h.start,h.unfinished,?_,?_,fun m hm => (h.placed m hm).extend _,
    h.noFIN,h.accepted_le,h.covered⟩
  · rw [ByteStream.push_bytesPushed,h.pushed,List.length_append,List.length_take,Nat.min_comm]
  · rw [ByteStream.push_peek h.queues.stream,h.content,ByteStream.push_bytesPopped,
      List.drop_append_of_le_length hpop]

theorem Conserving.close (h : Conserving D isn A s) :
    Conserving D isn A { s with outboundStream := s.outboundStream.close } :=
  ⟨h.queues.close,h.start,h.unfinished,h.pushed,h.content,h.placed,h.noFIN,h.accepted_le,h.covered⟩

theorem Conserving.emplaced (h : Conserving D isn A s) (hperm : ms.Perm (m::s.sender.outstanding))
    (hnew : Placed D isn n m) (habs : m.absolute = s.sender.nextSeqno)
    (hend : m.absolute + m.sequenceLength = n) (hFIN : m.FIN = false) :
    (∀ x ∈ ms, Placed D isn n x) ∧ (∀ x ∈ ms, x.FIN = false) ∧ A ≤ n ∧
      ∀ a, A ≤ a → a < n → ∃ x ∈ ms, Covers x a := by
  have hle := h.accepted_le
  refine ⟨?_,?_,by omega,?_⟩
  · intro x hx
    rcases List.mem_cons.mp (hperm.mem_iff.mp hx) with rfl | hx
    · exact hnew
    · exact (h.placed x hx).mono (by omega)
  · intro x hx
    rcases List.mem_cons.mp (hperm.mem_iff.mp hx) with rfl | hx
    · exact hFIN
    · exact h.noFIN x hx
  · intro a hA ha
    by_cases hold : a < s.sender.nextSeqno
    · obtain ⟨x,hx,hcov⟩ := h.covered a hA hold
      exact ⟨x,hperm.mem_iff.mpr (List.mem_cons_of_mem _ hx),hcov⟩
    · exact ⟨m,hperm.mem_iff.mpr List.mem_cons_self,by omega,by omega⟩

theorem Conserving.emplaceSegment (h : Conserving D isn A s)
    (hsyn : s.sender.hasNotSentSYN = false) {k : ℕ} (hne : s.outboundStream.peek.take k ≠ []) :
    Conserving D isn A ⟨s.outboundStream.pop k,
      s.sender.emplaceSegment (s.outboundStream.peek.take k)⟩ := by
  have hqueues := h.queues.emplaceSegment hsyn hne
  have hnext := h.next_eq hsyn
  have hpop := h.popped_le
  have hstream := h.queues.stream
  have hlen : (s.outboundStream.peek.take k).length = min k s.outboundStream.bytesBuffered := by
    rw [List.length_take,hstream.length_peek]
  have hp := hstream.pushed_eq
  have hpushed := h.pushed
  have hslice : s.outboundStream.peek.take k =
      slice D s.outboundStream.bytesPopped (s.outboundStream.peek.take k).length := by
    rw [h.content,slice,List.length_take]
    exact List.take_eq_take_min
  have hpeek := ByteStream.pop_peek hstream k
  have hbuffered := hstream.length_peek
  generalize s.outboundStream.peek.take k = data at hqueues hlen hslice hne ⊢
  have hpos := List.length_pos_iff.mpr hne
  have hdata : (s.sender.dataMessage data).sequenceLength = data.length := by
    simp [TCPSenderMessage.sequenceLength,dataMessage]
  have hnew : Placed D isn (s.sender.nextSeqno + data.length) (s.sender.dataMessage data) := by
    refine dataMessage_placed h.queues.isn_eq (by omega) hpos ?_ (by omega)
    rw [hnext]
    exact hslice
  obtain ⟨hplaced,hnoFIN,hle,hcovered⟩ := h.emplaced (emplaceSegment_perm s.sender data) hnew rfl
    (by rw [hdata]; rfl) rfl
  refine ⟨hqueues,?_,h.unfinished,h.pushed,?_,hplaced,hnoFIN,hle,hcovered⟩
  · intro hs
    exact absurd (hsyn.symm.trans hs) (by simp)
  · rw [hpeek,h.content,List.drop_drop]
    change _ = D.drop (s.outboundStream.bytesPopped + min k s.outboundStream.bytesBuffered)
    rcases Nat.le_total k s.outboundStream.bytesBuffered with hle | hle
    · rw [Nat.min_eq_left hle]
    · rw [Nat.min_eq_right hle,List.drop_of_length_le (by omega),List.drop_of_length_le (by omega)]

/-- Without an end in sight the last part of `push` does nothing. -/
theorem Conserving.finishPush_eq (h : Conserving D isn A s)
    (hopen : s.outboundStream.isFinished = false) :
    s.sender.finishPush s.outboundStream = s.sender := by
  have hflag : s.sender.finFlag s.outboundStream = false := by simp [finFlag,hopen]
  have hfinished := h.unfinished.2
  rcases finishPush_cases s.sender s.outboundStream with ⟨-,heq⟩ | ⟨ws,last,hq,heq⟩
  · rw [heq,hopen,← hfinished]
  · have hno := h.noFIN last.msg (by simp [outstanding,hq])
    have hlast : ({ last with msg := { last.msg with FIN := false } } : TCPSenderMessageWrapper) =
        last := by
      rw [← hno]
    rw [heq,hflag,hlast,← hq,hopen]
    simp only [Bool.not_false,Bool.and_true,Bool.toNat_false,Nat.add_zero]
    rw [show UInt32.ofNat 0 = 0 from rfl,UInt32.add_zero,← hfinished]

theorem Conserving.push (h : Conserving D isn A s) (hfirst : SYNFirst s .push)
    (hopen : ¬ SeesEnd s .push) : Conserving D isn A (pushState s) := by
  obtain ⟨rest,hcons,-,-⟩ := TCPSender.segment_induction
    (P := fun t r data => Conserving D isn A ⟨r,t⟩ ∧ data = r.peek ∧
      (data ≠ [] → t.hasNotSentSYN = false))
    (by
      rintro t r data ⟨hcons,rfl,hsyn⟩ hne hgo
      exact ⟨hcons.emplaceSegment (hsyn hne) (take_segmentSize_ne_nil hne hgo),
        (ByteStream.pop_peek hcons.queues.stream _).symm,fun _ => hsyn hne⟩)
    s.outboundStream.peek.length s.sender s.outboundStream s.outboundStream.peek
    ⟨h,rfl,by
      intro hne
      by_contra hs
      exact hne (hfirst (by simpa using hs))⟩
  have hunfinished : (segmentState s).outboundStream.isFinished = false := by
    rw [← Bool.not_eq_true,← (pushState_spec s).2.finished]
    exact hopen
  have hstop : pushState s = segmentState s := by
    have heq := Conserving.finishPush_eq (s := segmentState s) hcons hunfinished
    change (⟨_,(segmentState s).sender.finishPush (segmentState s).outboundStream⟩ : State) = _
    rw [heq]
    rfl
  rw [hstop]
  exact hcons

/-- A step that keeps the numbering and drops only messages below the acknowledged numbers. -/
theorem Conserving.of_same (h : Conserving D isn A s) (hq : Queues isn { s with sender := t })
    (hsame : SameNumbering s.sender t) (hsub : t.outstanding ⊆ s.sender.outstanding) {A' : ℕ}
    (hA : A ≤ A') (hle : A' ≤ s.sender.nextSeqno)
    (hkept : ∀ m ∈ s.sender.outstanding, A' < m.absolute + m.sequenceLength → m ∈ t.outstanding) :
    Conserving D isn A' { s with sender := t } := by
  refine ⟨hq,?_,?_,h.pushed,h.content,?_,fun m hm => h.noFIN m (hsub hm),?_,?_⟩
  · intro hs
    exact hsame.next.trans (h.start (hsame.SYN.symm.trans hs))
  · exact ⟨hsame.FIN.trans h.unfinished.1,hsame.finished.trans h.unfinished.2⟩
  · intro m hm
    rw [hsame.next]
    exact h.placed m (hsub hm)
  · exact hle.trans hsame.next.ge
  · intro a ha hnext
    obtain ⟨m,hm,hcov⟩ := h.covered a (hA.trans ha) (hnext.trans_eq hsame.next)
    exact ⟨m,hkept m hm (ha.trans_lt hcov.2),hcov⟩

theorem Conserving.sendFlagMessage (h : Conserving D isn A s) (hq : s.sender.unsentMsgs = [])
    (hdue : s.sender.hasNotSentSYN = true ∨ s.sender.canSendFIN = true) :
    Conserving D isn A { s with sender := s.sender.sendFlagMessage } := by
  have hFIN : s.sender.canSendFIN = false := by simp [canSendFIN,h.unfinished.2]
  have hsyn : s.sender.hasNotSentSYN = true := by simpa [hFIN] using hdue
  have hnext := h.start hsyn
  have hnew := flagMessage_placed (D := D) h.queues.isn_eq (by simp [hsyn]) (by simp [hsyn,hnext])
    (by simp [hsyn,hnext])
  have hlen : s.sender.flagMessage.sequenceLength =
      s.sender.hasNotSentSYN.toNat + s.sender.canSendFIN.toNat := by
    simp [flagMessage,TCPSenderMessage.sequenceLength]
  obtain ⟨hplaced,hnoFIN,hle,hcovered⟩ := h.emplaced (sendFlagMessage_perm hq) hnew rfl
    (by rw [hlen]; rfl) hFIN
  refine ⟨h.queues.sendFlagMessage hq hdue,?_,?_,h.pushed,h.content,hplaced,hnoFIN,hle,hcovered⟩
  · intro hs
    cases hs
  · exact ⟨by simp [TCPSender.sendFlagMessage,hFIN],h.unfinished.2⟩

theorem Conserving.maybeSend (h : Conserving D isn A s) :
    Conserving D isn A { s with sender := s.sender.maybeSend.1 } := by
  have hqueues := h.queues.maybeSend
  rcases maybeSend_cases s.sender with ⟨heq,-⟩ | ⟨heq,hq,hdue⟩ | ⟨w,rest,hq,heq⟩
  · rw [heq]
    exact h
  · rw [heq]
    exact h.sendFlagMessage hq hdue
  · have hsyn := h.queues.syn_sent (by simp [outstanding,hq])
    have hperm := sendUnsent_perm hsyn hq
    rw [heq] at hqueues ⊢
    exact h.of_same hqueues (sendUnsent_same hsyn) hperm.subset le_rfl h.accepted_le
      (fun m hm _ => hperm.mem_iff.mpr hm)

theorem Conserving.receive {msg : TCPReceiverMessage} (h : Conserving D isn A s)
    (hsize : s.sender.nextSeqno + 2^32 ≤ 2^64) (hnear : Near s) (ht : s.sender.receive msg = .ok t) :
    Conserving D isn (max A ((s.sender.acceptedAckno msg).getD 0)) { s with sender := t } := by
  have hqueues := h.queues.receive ht
  have hsame := (receive_ok ht).1
  have hsub := (receive_subperm ht).subset
  rcases receive_cases ht with ⟨hnone,rfl⟩ | ⟨K,n',retransmissions,timer,hK,-,rfl⟩
  · rw [hnone,Option.getD_none,Nat.max_zero]
    exact h.of_same hqueues hsame hsub le_rfl h.accepted_le (fun m hm _ => hm)
  · rw [hK,Option.getD_some]
    have hKnext : K ≤ s.sender.nextSeqno := by
      simpa using (Option.filter_eq_some_iff.mp hK).2
    refine h.of_same hqueues hsame hsub (Nat.le_max_left _ _) (Nat.max_le.mpr ⟨h.accepted_le,hKnext⟩) ?_
    intro m hm hlt
    have hnum := h.queues.numbered m hm
    rw [← h.queues.isn_eq] at hnum
    rcases List.mem_append.mp hm with hm' | hm'
    · exact List.mem_append_left _ hm'
    · rw [← List.takeWhile_append_dropWhile (p := s.sender.acknowledges K)
        (l := s.sender.unackedMsgs)] at hm'
      rcases List.mem_append.mp hm' with hdropped | hkept
      · have hle := (hnum.acknowledges_iff hsize (hnear m hm) K).mp (List.mem_takeWhile_imp hdropped)
        omega
      · exact List.mem_append_right _ hkept

theorem Conserving.tick {ms : ℕ} (h : Conserving D isn A s) (ht : s.sender.tick ms = .ok t) :
    Conserving D isn A { s with sender := t } :=
  h.of_same (h.queues.tick ht) (tick_ok ht).1 (tick_perm ht).subset le_rfl h.accepted_le
    (fun _ hm _ => (tick_perm ht).mem_iff.mpr hm)

theorem Conserving.step (h : Conserving D isn A s) (hsize : s.sender.nextSeqno + 2^32 ≤ 2^64)
    (hfirst : SYNFirst s op) (hopen : ¬ SeesEnd s op) (hnear : Near s)
    (hs : SenderRuns.step s op = .ok (s',out)) :
    Conserving (D ++ writtenAt s op) isn (max A ((acceptedAt s op).getD 0)) s' := by
  cases op with
  | write data =>
    cases hs
    simpa [acceptedAt,writtenAt] using h.write data
  | close =>
    cases hs
    simpa [acceptedAt,writtenAt] using h.close
  | push =>
    cases hs
    simpa [acceptedAt,writtenAt] using h.push hfirst hopen
  | maybeSend =>
    cases hs
    simpa [acceptedAt,writtenAt] using h.maybeSend
  | receive msg =>
    obtain ⟨t,ht,rfl⟩ := step_receive hs
    simpa [acceptedAt,writtenAt] using h.receive hsize hnear ht
  | tick ms =>
    obtain ⟨t,ht,rfl⟩ := step_tick hs
    simpa [acceptedAt,writtenAt] using h.tick ht

theorem run_conserving {C RTO : ℕ} (hr : Run step (init C RTO isn) tr s)
    (hsize : (written tr).length + 2^33 ≤ 2^64)
    (hfirst : ∀ e ∈ tr, SYNFirst e.before e.op) (hopen : ∀ e ∈ tr, ¬ SeesEnd e.before e.op)
    (hnear : ∀ e ∈ tr, Near e.before) : Conserving (written tr) isn (accepted tr) s := by
  refine Run.history_invariant
    (fun tr s => (written tr).length + 2^33 ≤ 2^64 → Conserving (written tr) isn (accepted tr) s)
    (fun e => SYNFirst e.before e.op ∧ ¬ SeesEnd e.before e.op ∧ Near e.before)
    (fun _ => init_conserving C RTO isn) ?_ hr
    (fun e he => ⟨hfirst e he,hopen e he,hnear e he⟩) hsize
  rintro tr s s' op out hinv ⟨hfirst,hopen,hnear⟩ hs hsize
  rw [written_snoc] at hsize ⊢
  rw [List.length_append] at hsize
  have h := hinv (by omega)
  have hnext := h.queues.next
  have hpop := h.popped_le
  rw [accepted_snoc]
  exact h.step (by omega) hfirst hopen hnear hs

def Apart (m m' : TCPSenderMessage) : Prop := m.absolute + m.sequenceLength ≤ m'.absolute

theorem Conserving.apart (h : Conserving D isn A s) :
    ∃ ms, InOrder s.sender.unsentMsgs s.sender.unackedMsgs ms ∧ ms.Pairwise Apart := by
  obtain ⟨ms,hord,hpair⟩ := h.queues.ordered
  refine ⟨ms,hord,hpair.imp_of_mem ?_⟩
  intro m m' hm _ hbefore
  have hFIN := h.noFIN m (hord.mem hm)
  simp only [Before,TCPSenderMessage.payloadStart] at hbefore
  simp only [Apart,TCPSenderMessage.sequenceLength,hFIN,Bool.toNat_false]
  omega

theorem countP_covers (hpair : ms.Pairwise Apart) {a : ℕ} (hex : ∃ m ∈ ms, Covers m a) :
    ms.countP (fun m => decide (Covers m a)) = 1 := by
  induction ms with
  | nil => simp at hex
  | cons m ms ih =>
    obtain ⟨hhead,htail⟩ := List.pairwise_cons.mp hpair
    by_cases hm : Covers m a
    · have hnone : ms.countP (fun m => decide (Covers m a)) = 0 := by
        rw [List.countP_eq_zero]
        intro m' hm' hcov
        have hapart := hhead m' hm'
        have hcov' : Covers m' a := by simpa using hcov
        have hlo := hcov'.1
        have hhi := hm.2
        simp only [Apart] at hapart
        omega
      rw [List.countP_cons_of_pos (by simpa using hm),hnone]
    · rw [List.countP_cons_of_neg (by simpa using hm)]
      obtain ⟨m',hm',hcov⟩ := hex
      rcases List.mem_cons.mp hm' with rfl | hm'
      · exact absurd hcov hm
      · exact ih htail ⟨m',hm',hcov⟩

theorem seqnos_le {lo hi : ℕ} (hpair : ms.Pairwise Apart) (hlo : ∀ m ∈ ms, lo ≤ m.absolute)
    (hhi : ∀ m ∈ ms, m.absolute + m.sequenceLength ≤ hi) (hle : lo ≤ hi) : lo + seqnos ms ≤ hi := by
  induction ms generalizing lo with
  | nil => exact hle
  | cons m ms ih =>
    obtain ⟨hhead,htail⟩ := List.pairwise_cons.mp hpair
    have hrest := ih htail hhead (fun x hx => hhi x (List.mem_cons_of_mem _ hx)) (hhi m List.mem_cons_self)
    have hm := hlo m List.mem_cons_self
    rw [seqnos_cons]
    omega

theorem Conserving.seqnos_lt (h : Conserving D isn A s) (hnear : Near s) :
    seqnos s.sender.outstanding < 2^31 := by
  obtain ⟨ms,hord,hpair⟩ := h.apart
  have hsame : seqnos ms = seqnos s.sender.outstanding := (hord.perm.map _).sum_eq
  rw [← hsame]
  cases ms with
  | nil => simp
  | cons m ms =>
    have hfirst := hnear m (hord.mem List.mem_cons_self)
    have hle : m.absolute + seqnos (m :: ms) ≤ s.sender.nextSeqno := seqnos_le hpair (by
      intro x hx
      rcases List.mem_cons.mp hx with rfl | hx
      · exact le_rfl
      · exact (Nat.le_add_right _ _).trans ((List.pairwise_cons.mp hpair).1 x hx))
      (fun x hx => (h.queues.numbered x (hord.mem hx)).below)
      ((Nat.le_add_right _ _).trans (h.queues.numbered m (hord.mem List.mem_cons_self)).below)
    omega

theorem Placed.holds (h : Placed D isn n m) (hFIN : m.FIN = false) {a : ℕ} (hcov : Covers m a) :
    if a = 0 then m.SYN = true else ∃ b, m.byteAt a = some b ∧ D[a-1]? = some b := by
  have hstart := h.start
  obtain ⟨hlo,hhi⟩ := hcov
  simp only [TCPSenderMessage.sequenceLength,hFIN,Bool.toNat_false] at hhi
  split_ifs with hzero
  · by_contra hsyn
    rw [if_neg hsyn] at hstart
    omega
  · have hps : m.payloadStart ≤ a := by
      simp only [TCPSenderMessage.payloadStart]
      split_ifs at hstart with hsyn
      · simp only [hsyn,Bool.toNat_true]
        omega
      · simp only [hsyn,Bool.toNat_false]
        omega
    have hk : a - m.payloadStart < m.payload.length := by
      simp only [TCPSenderMessage.payloadStart] at hps ⊢
      omega
    have hbyte : m.byteAt a = some m.payload[a - m.payloadStart] := by
      rw [TCPSenderMessage.byteAt,if_neg (by omega),List.getElem?_eq_getElem hk]
    exact ⟨_,hbyte,h.faithful.byteAt_eq hbyte⟩

theorem Conserving.conserved (h : Conserving D isn A s) (hnear : Near s) :
    Conserved D isn A s.sender := by
  obtain ⟨ms,hord,hpair⟩ := h.apart
  have hsum := h.seqnos_lt hnear
  rw [outstanding,seqnos_append] at hsum
  refine ⟨?_,fun m hm => (h.placed m hm).seqno,fun m hm a hcov => (h.placed m hm).holds (h.noFIN m hm) hcov,
    ?_,fun w hw hflag m hm => hord.retransmitted_rel hpair hw hflag hm,
    fun w hw hflag m hm => hord.fresh_rel hpair hw hflag hm,?_,?_⟩
  · intro a hA ha
    obtain ⟨m,hm,hcov⟩ := h.covered a hA ha
    have hperm : ms.Perm s.sender.outstanding := hord.perm
    rw [← hperm.countP_eq]
    exact countP_covers hpair ⟨m,hperm.mem_iff.mpr hm,hcov⟩
  · refine (hpair.sublist hord.unacked_sublist).imp_of_mem ?_
    intro m m' hm _ hapart
    have hpos := (h.queues.numbered m (List.mem_append_right _ hm)).pos
    simp only [Apart] at hapart
    exact ⟨by omega,hapart⟩
  · rw [h.queues.counted.unsent,UInt32.toNat_ofNat_of_lt']
    exact lt_of_lt_of_le (lt_of_le_of_lt (Nat.le_add_right _ _) hsum) (by decide)
  · rw [h.queues.counted.unacked,UInt32.toNat_ofNat_of_lt']
    exact lt_of_lt_of_le (lt_of_le_of_lt (Nat.le_add_left _ _) hsum) (by decide)

/-- As long as SYN goes out before data and `push` has not seen the end of the stream, the two
deques hold every unacknowledged number once, in order, and the counters are their lengths. -/
theorem two_deques_conserved {C RTO : ℕ} (hr : Run step (init C RTO isn) tr s)
    (hsize : (written tr).length + 2^33 ≤ 2^64)
    (hfirst : ∀ e ∈ tr, SYNFirst e.before e.op) (hopen : ∀ e ∈ tr, ¬ SeesEnd e.before e.op)
    (hnear : ∀ e ∈ tr, Near e.before) (hlast : Near s) :
    Conserved (written tr) isn (accepted tr) s.sender :=
  (run_conserving hr hsize hfirst hopen hnear).conserved hlast

/-- Two segments, both time out before one of them is sent again, and an ack for the SYN and the
first of them comes in between. -/
theorem two_deques_conserved_timeouts : ∃ tr s, Run step (init 8 1000 ⟨7⟩) tr s ∧
    s.sender.unsentMsgs.length = 1 ∧ s.sender.unackedMsgs.length = 1 ∧
    Conserved [10,11] ⟨7⟩ 2 s.sender := by
  obtain ⟨tr,s,hr,hlen,hlen',hwritten,haccepted,hfirst,hopen,hnear,hlast⟩ :=
    Run.exists_of_exec step (init 8 1000 ⟨7⟩)
      [.maybeSend,.receive ⟨some ⟨8⟩,5⟩,.write [10],.push,.maybeSend,.write [11],.push,.maybeSend,
        .tick 1000,.tick 2000,.maybeSend,.receive ⟨some ⟨9⟩,5⟩]
      (fun tr s => s.sender.unsentMsgs.length = 1 ∧ s.sender.unackedMsgs.length = 1 ∧
        written tr = [10,11] ∧ accepted tr = 2 ∧
        (∀ e ∈ tr, SYNFirst e.before e.op) ∧ (∀ e ∈ tr, ¬ SeesEnd e.before e.op) ∧
        (∀ e ∈ tr, Near e.before) ∧ Near s) (by decide +kernel)
  have h := two_deques_conserved hr (by rw [hwritten]; decide) hfirst hopen hnear hlast
  rw [hwritten,haccepted] at h
  exact ⟨tr,s,hr,hlen,hlen',h⟩

end SenderRuns
end Minnow
