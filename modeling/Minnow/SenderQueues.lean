import Minnow.SenderRuns

/-! The two deques of the sender: the order of their messages and the counters of their
sequence numbers. The caller is free, but data is pushed only after SYN has been sent. -/
namespace Minnow
namespace SenderRuns

open Library TCPSender

def Before (m m' : TCPSenderMessage) : Prop := m.payloadStart + m.payload.length ≤ m'.absolute

/-- `ms` is both deques read in the order of sequence numbers: a timeout puts its message in
front of the unsent ones, so these begin with the retransmissions, the latest first; then come
the outstanding messages, then the unsent ones that are fresh. -/
def InOrder (unsent : List TCPSenderMessageWrapper) (unacked ms : List TCPSenderMessage) : Prop :=
  ∃ retransmitted fresh : List TCPSenderMessage,
    unsent = retransmitted.map (⟨·,true⟩) ++ fresh.map (⟨·,false⟩) ∧
    ms = retransmitted.reverse ++ unacked ++ fresh

structure Counted (s : TCPSender) : Prop where
  unsent : s.unsentSeqnos = UInt32.ofNat (seqnos (s.unsentMsgs.map TCPSenderMessageWrapper.msg))
  unacked : s.unackedSeqnos = UInt32.ofNat (seqnos s.unackedMsgs)

structure Numbered (isn : Wrap32) (next : ℕ) (m : TCPSenderMessage) : Prop where
  seqno : m.seqno = Wrap32.wrap m.absolute isn
  pos : 0 < m.sequenceLength
  below : m.absolute + m.sequenceLength ≤ next

structure Queues (isn : Wrap32) (s : State) : Prop where
  stream : s.outboundStream.WF
  isn_eq : s.sender.isn = isn
  next : s.sender.nextSeqno + s.sender.hasNotSentSYN.toNat + s.sender.hasNotSentFIN.toNat =
    s.outboundStream.bytesPopped + 2
  fresh : s.sender.hasNotSentSYN = true →
    s.sender.outstanding = [] ∧ s.sender.hasNotSentFIN = true
  numbered : ∀ m ∈ s.sender.outstanding, Numbered isn s.sender.nextSeqno m
  ordered : ∃ ms, InOrder s.sender.unsentMsgs s.sender.unackedMsgs ms ∧ ms.Pairwise Before
  counted : Counted s.sender

/-- Fewer than `2^31` numbers separate the oldest queued message from the next number. -/
def Near (s : State) : Prop :=
  ∀ m ∈ s.sender.outstanding, s.sender.nextSeqno < m.absolute + 2^31

/-- The absolute ackno that a step accepts. -/
def acceptedAt (s : State) : Op → Option ℕ
  | .receive msg => s.sender.acceptedAckno msg
  | _ => none

/-- The largest absolute ackno accepted in a run. -/
def accepted (tr : Trace) : ℕ :=
  tr.foldl (fun A e => max A ((acceptedAt e.before e.op).getD 0)) 0

@[simp] theorem accepted_snoc (tr : Trace) (e : Event State Op (Option TCPSenderMessage)) :
    accepted (tr ++ [e]) = max (accepted tr) ((acceptedAt e.before e.op).getD 0) := by
  simp [accepted]

/-- `push` takes back a FIN: the last unsent message has it, and no new segment follows. -/
def TakesFINBack (s : State) : Op → Prop
  | .push => ((lastUnsent s).any fun last => last.FIN) = true ∧
    ¬ (s.outboundStream.peek ≠ [] ∧ s.sender.windowAllows = true)
  | _ => False

instance (s : State) (op : Op) : Decidable (TakesFINBack s op) :=
  match op with
  | .write _ | .close | .push | .maybeSend | .receive _ | .tick _ => by
    unfold TakesFINBack; infer_instance

instance (s : State) : Decidable (Near s) := by unfold Near; infer_instance

variable {isn : Wrap32} {s s' : State} {op : Op} {tr : Trace} {m : TCPSenderMessage}
  {out : Option TCPSenderMessage} {t : TCPSender} {unsent : List TCPSenderMessageWrapper}
  {unacked ms : List TCPSenderMessage} {n n' : ℕ}

theorem Numbered.mono (h : Numbered isn n m) (hn : n ≤ n') : Numbered isn n' m :=
  { h with below := h.below.trans hn }

/-- Within `2^31` of the next number the loop of `receive` reads the message's end correctly. -/
theorem Numbered.acknowledges_iff (h : Numbered t.isn t.nextSeqno m)
    (hsize : t.nextSeqno + 2^32 ≤ 2^64) (hnear : t.nextSeqno < m.absolute + 2^31) (K : ℕ) :
    t.acknowledges K m = true ↔ m.absolute + m.sequenceLength ≤ K := by
  have hbelow := h.below
  rw [acknowledges,decide_eq_true_eq,h.seqno,Wrap32.unwrap_wrap _ hsize hnear (by omega),
    u64_of_lt (by omega)]

theorem InOrder.perm (h : InOrder unsent unacked ms) :
    ms.Perm (unsent.map TCPSenderMessageWrapper.msg ++ unacked) := by
  obtain ⟨retransmitted,fresh,rfl,rfl⟩ := h
  simp only [List.map_append,List.map_map,Function.comp_def,List.map_id',List.append_assoc]
  exact (List.reverse_perm _).append List.perm_append_comm

theorem InOrder.emplace (h : InOrder unsent unacked ms) (m : TCPSenderMessage) :
    InOrder (unsent ++ [⟨m,false⟩]) unacked (ms ++ [m]) := by
  obtain ⟨retransmitted,fresh,rfl,rfl⟩ := h
  exact ⟨retransmitted,fresh ++ [m],by simp,by simp⟩

theorem InOrder.sendFlag (h : InOrder [] unacked ms) (m : TCPSenderMessage) :
    InOrder [] (unacked ++ [m]) (ms ++ [m]) := by
  obtain ⟨retransmitted,fresh,hnil,rfl⟩ := h
  have hboth := List.append_eq_nil_iff.mp hnil.symm
  simp only [List.map_eq_nil_iff] at hboth
  obtain ⟨rfl,rfl⟩ := hboth
  exact ⟨[],[],rfl,by simp⟩

/-- A retransmission goes back to the front, a fresh message to the end: no message changes
its place in the order. -/
theorem InOrder.send {w : TCPSenderMessageWrapper} (h : InOrder (w::unsent) unacked ms) :
    InOrder unsent (if w.isRetransmitted then w.msg::unacked else unacked ++ [w.msg]) ms := by
  obtain ⟨retransmitted,fresh,hsplit,rfl⟩ := h
  cases retransmitted with
  | cons r rs =>
    simp only [List.map_cons,List.cons_append,List.cons.injEq] at hsplit
    obtain ⟨rfl,rfl⟩ := hsplit
    exact ⟨rs,fresh,rfl,by simp⟩
  | nil =>
    cases fresh with
    | nil => simp at hsplit
    | cons f fs =>
      simp only [List.map_nil,List.nil_append,List.map_cons,List.cons.injEq] at hsplit
      obtain ⟨rfl,rfl⟩ := hsplit
      exact ⟨[],fs,rfl,by simp⟩

theorem InOrder.requeue (h : InOrder unsent (m::unacked) ms) :
    InOrder (⟨m,true⟩::unsent) unacked ms := by
  obtain ⟨retransmitted,fresh,rfl,rfl⟩ := h
  exact ⟨m::retransmitted,fresh,rfl,by simp⟩

theorem InOrder.drop {dropped : List TCPSenderMessage} (h : InOrder unsent (dropped ++ unacked) ms) :
    ∃ ms', InOrder unsent unacked ms' ∧ ms'.Sublist ms := by
  obtain ⟨retransmitted,fresh,rfl,rfl⟩ := h
  refine ⟨_,⟨retransmitted,fresh,rfl,rfl⟩,?_⟩
  exact ((List.sublist_append_right dropped unacked).append_left _).append_right _

theorem InOrder.unacked_sublist (h : InOrder unsent unacked ms) : unacked.Sublist ms := by
  obtain ⟨retransmitted,fresh,-,rfl⟩ := h
  rw [List.append_assoc]
  exact (List.sublist_append_left unacked fresh).trans (List.sublist_append_right _ _)

theorem InOrder.retransmitted_rel {R : TCPSenderMessage → TCPSenderMessage → Prop}
    (h : InOrder unsent unacked ms) (hpair : ms.Pairwise R) {w : TCPSenderMessageWrapper}
    (hw : w ∈ unsent) (hflag : w.isRetransmitted = true) (hm : m ∈ unacked) : R w.msg m := by
  obtain ⟨retransmitted,fresh,rfl,rfl⟩ := h
  have hin : w.msg ∈ retransmitted := by
    simp only [List.mem_append,List.mem_map] at hw
    rcases hw with ⟨r,hr,rfl⟩ | ⟨f,-,rfl⟩
    · exact hr
    · cases hflag
  exact (List.pairwise_append.mp (List.pairwise_append.mp hpair).1).2.2 _ (by simpa using hin) m hm

theorem InOrder.fresh_rel {R : TCPSenderMessage → TCPSenderMessage → Prop}
    (h : InOrder unsent unacked ms) (hpair : ms.Pairwise R) {w : TCPSenderMessageWrapper}
    (hw : w ∈ unsent) (hflag : w.isRetransmitted = false) (hm : m ∈ unacked) : R m w.msg := by
  obtain ⟨retransmitted,fresh,rfl,rfl⟩ := h
  have hin : w.msg ∈ fresh := by
    simp only [List.mem_append,List.mem_map] at hw
    rcases hw with ⟨r,-,rfl⟩ | ⟨f,hf,rfl⟩
    · cases hflag
    · exact hf
  exact (List.pairwise_append.mp hpair).2.2 m (List.mem_append_right _ hm) _ hin

def span (m : TCPSenderMessage) : ℕ × ℕ := (m.absolute,m.payloadStart + m.payload.length)

theorem pairwise_before_iff (ms : List TCPSenderMessage) :
    ms.Pairwise Before ↔ (ms.map span).Pairwise (fun a b => a.2 ≤ b.1) := by
  rw [List.pairwise_map]
  rfl

theorem InOrder.setFIN {last : TCPSenderMessageWrapper} (h : InOrder (unsent ++ [last]) unacked ms)
    (b : Bool) : ∃ ms', InOrder (unsent ++ [{ last with msg := { last.msg with FIN := b } }]) unacked ms' ∧
      ms'.map span = ms.map span := by
  obtain ⟨retransmitted,fresh,hsplit,rfl⟩ := h
  have hspan : ∀ m : TCPSenderMessage, span { m with FIN := b } = span m := fun _ => rfl
  rcases List.eq_nil_or_concat fresh with rfl | ⟨fs,f,rfl⟩
  · rcases List.eq_nil_or_concat retransmitted with rfl | ⟨rs,r,rfl⟩
    · simp at hsplit
    · simp only [List.concat_eq_append,List.map_append,List.map_cons,List.map_nil,
        List.append_nil] at hsplit
      obtain ⟨rfl,hlast⟩ := List.append_inj' hsplit rfl
      obtain rfl := (List.cons.inj hlast).1
      refine ⟨_,⟨rs ++ [{ r with FIN := b }],[],by simp,rfl⟩,?_⟩
      simp [hspan]
  · simp only [List.concat_eq_append,List.map_append,List.map_cons,List.map_nil,
      ← List.append_assoc] at hsplit
    obtain ⟨rfl,hlast⟩ := List.append_inj' hsplit rfl
    obtain rfl := (List.cons.inj hlast).1
    refine ⟨_,⟨retransmitted,fs ++ [{ f with FIN := b }],by simp,rfl⟩,?_⟩
    simp [hspan]

theorem InOrder.mem (h : InOrder unsent unacked ms) {x : TCPSenderMessage} (hx : x ∈ ms) :
    x ∈ unsent.map TCPSenderMessageWrapper.msg ++ unacked := h.perm.mem_iff.mp hx

theorem init_queues (capacity RTO : ℕ) (isn : Wrap32) : Queues isn (init capacity RTO isn) :=
  ⟨ByteStream.new_wf capacity,rfl,rfl,fun _ => ⟨rfl,rfl⟩,by simp [init,TCPSender.new,outstanding],
    ⟨[],⟨[],[],rfl,rfl⟩,List.Pairwise.nil⟩,⟨rfl,rfl⟩⟩

theorem Queues.syn_sent (h : Queues isn s) (hne : s.sender.outstanding ≠ []) :
    s.sender.hasNotSentSYN = false := by
  by_contra hsyn
  rw [Bool.not_eq_false] at hsyn
  exact hne (h.fresh hsyn).1

theorem Queues.write (h : Queues isn s) (data : List Byte) :
    Queues isn { s with outboundStream := s.outboundStream.push data } :=
  ⟨ByteStream.push_wf h.stream data,h.isn_eq,h.next,h.fresh,h.numbered,h.ordered,h.counted⟩

theorem Queues.close (h : Queues isn s) :
    Queues isn { s with outboundStream := s.outboundStream.close } :=
  ⟨ByteStream.close_wf h.stream,h.isn_eq,h.next,h.fresh,h.numbered,h.ordered,h.counted⟩

theorem Queues.ordered_snoc (h : Queues isn s)
    (hord : InOrder s.sender.unsentMsgs s.sender.unackedMsgs ms) (hpair : ms.Pairwise Before)
    (hm : m.absolute = s.sender.nextSeqno) : (ms ++ [m]).Pairwise Before := by
  rw [List.pairwise_append]
  refine ⟨hpair,by simp,?_⟩
  intro a ha b hb
  rw [List.mem_singleton] at hb
  subst b
  have hbelow := (h.numbered a (hord.mem ha)).below
  simp only [Before,hm,TCPSenderMessage.payloadStart]
  simp only [TCPSenderMessage.sequenceLength] at hbelow
  omega

theorem Queues.emplaceSegment (h : Queues isn s) (hsyn : s.sender.hasNotSentSYN = false) {k : ℕ}
    (hne : s.outboundStream.peek.take k ≠ []) :
    Queues isn ⟨s.outboundStream.pop k,
      s.sender.emplaceSegment (s.outboundStream.peek.take k)⟩ := by
  have hnext := h.next
  have hlen : (s.outboundStream.peek.take k).length = min k s.outboundStream.bytesBuffered := by
    rw [List.length_take,h.stream.length_peek]
  generalize s.outboundStream.peek.take k = data at hne hlen
  have hpos := List.length_pos_iff.mpr hne
  have hdata : (s.sender.dataMessage data).sequenceLength = data.length := by
    simp [TCPSenderMessage.sequenceLength,dataMessage]
  have hperm := emplaceSegment_perm s.sender data
  obtain ⟨ms,hord,hpair⟩ := h.ordered
  refine ⟨ByteStream.pop_wf h.stream k,h.isn_eq,?_,?_,?_,?_,?_⟩
  · change s.sender.nextSeqno + data.length + _ + _ =
      s.outboundStream.bytesPopped + min k s.outboundStream.bytesBuffered + 2
    change _ + s.sender.hasNotSentSYN.toNat + s.sender.hasNotSentFIN.toNat = _
    omega
  · intro hs
    exact absurd (hsyn.symm.trans hs) (by simp)
  · intro x hx
    rcases List.mem_cons.mp (hperm.mem_iff.mp hx) with rfl | hx
    · refine ⟨by rw [← h.isn_eq]; rfl,by omega,?_⟩
      rw [hdata]
      exact le_rfl
    · exact (h.numbered x hx).mono (Nat.le_add_right _ _)
  · exact ⟨ms ++ [s.sender.dataMessage data],hord.emplace _,h.ordered_snoc hord hpair rfl⟩
  · refine ⟨?_,h.counted.unacked⟩
    simp only [TCPSender.emplaceSegment,List.map_append,List.map_cons,List.map_nil,seqnos_append,
      seqnos_cons,seqnos_nil,hdata,Nat.add_zero,UInt32.ofNat_add,h.counted.unsent]

theorem Queues.finishPush (h : Queues isn s)
    (hlast : ∀ init last, s.sender.unsentMsgs = init ++ [last] → last.msg.FIN = false) :
    Queues isn { s with sender := s.sender.finishPush s.outboundStream } := by
  obtain ⟨ms,hord,hpair⟩ := h.ordered
  rcases finishPush_cases s.sender s.outboundStream with ⟨hnil,heq⟩ | ⟨ws,last,hq,heq⟩
  · rw [heq]
    exact ⟨h.stream,h.isn_eq,h.next,h.fresh,h.numbered,h.ordered,
      ⟨h.counted.unsent,h.counted.unacked⟩⟩
  · have hnext := h.next
    have hno := hlast ws last hq
    have hsyn := h.syn_sent (by simp [outstanding,hq])
    obtain ⟨hmem,hother⟩ := mem_outstanding_finishPush hq s.outboundStream
    rw [heq] at hother ⊢
    generalize hflag : s.sender.finFlag s.outboundStream = flag at hother
    have hFIN : flag = true → s.sender.hasNotSentFIN = true := by
      rintro rfl
      simp only [finFlag,Bool.and_eq_true] at hflag
      exact hflag.1.1
    have hlong : ({ last.msg with FIN := flag } : TCPSenderMessage).sequenceLength =
        last.msg.sequenceLength + flag.toNat := by
      simp [TCPSenderMessage.sequenceLength,hno]
    refine ⟨h.stream,h.isn_eq,?_,?_,?_,?_,?_⟩
    · change s.sender.nextSeqno + flag.toNat + s.sender.hasNotSentSYN.toNat +
        (s.sender.hasNotSentFIN && !flag).toNat = _
      cases flag with
      | false => simpa using hnext
      | true =>
        rw [hFIN rfl] at hnext ⊢
        simpa [Nat.add_right_comm] using hnext
    · intro hs
      exact absurd (hsyn.symm.trans hs) (by simp)
    · have hbelow := (h.numbered _ hmem).below
      have hpos := (h.numbered _ hmem).pos
      intro x hx
      rcases hother x hx with rfl | hx
      · refine ⟨(h.numbered _ hmem).seqno,?_,?_⟩
        · rw [hlong]
          omega
        · rw [hlong]
          change last.msg.absolute + _ ≤ s.sender.nextSeqno + flag.toNat
          omega
      · exact (h.numbered x hx).mono (Nat.le_add_right _ _)
    · rw [hq] at hord
      obtain ⟨ms',hord',hspan⟩ := hord.setFIN flag
      refine ⟨ms',hord',?_⟩
      rw [pairwise_before_iff,hspan,← pairwise_before_iff]
      exact hpair
    · refine ⟨?_,h.counted.unacked⟩
      simp only [List.map_append,List.map_cons,List.map_nil,seqnos_append,seqnos_cons,seqnos_nil,
        hlong,Nat.add_zero,h.counted.unsent,hq,UInt32.ofNat_add]
      grind

/-- `push` as rounds of its loop and its end; the message that gets FIN had none before. -/
theorem Queues.push_induction (h : Queues isn s) (hfirst : SYNFirst s .push)
    (hkeep : ¬ TakesFINBack s .push) {P : State → Prop} (hP : P s)
    (hround : ∀ t : State, Queues isn t → ∀ k, t.outboundStream.peek.take k ≠ [] → P t →
      P ⟨t.outboundStream.pop k,t.sender.emplaceSegment (t.outboundStream.peek.take k)⟩)
    (hfinish : ∀ t : State, Queues isn t →
      (∀ init last, t.sender.unsentMsgs = init ++ [last] → last.msg.FIN = false) → P t →
      P { t with sender := t.sender.finishPush t.outboundStream }) :
    Queues isn (pushState s) ∧ P (pushState s) := by
  by_cases hgo : s.outboundStream.peek ≠ [] ∧ s.sender.windowAllows = true
  · have hsyn : s.sender.hasNotSentSYN = false := by
      by_contra hs
      exact hgo.1 (hfirst (by simpa using hs))
    have hfresh : ∀ (t : TCPSender) (data : List Byte) init last,
        (t.emplaceSegment data).unsentMsgs = init ++ [last] → last.msg.FIN = false := by
      intro t data init last heq
      obtain ⟨-,hcons⟩ := List.append_inj' heq rfl
      rw [← (List.cons.inj hcons).1]
      rfl
    obtain ⟨rest,hq,-,-,hlast,hPt⟩ := segment_rounds
      (P := fun t r data => Queues isn ⟨r,t⟩ ∧ data = r.peek ∧ t.hasNotSentSYN = false ∧
        (∀ init last, t.unsentMsgs = init ++ [last] → last.msg.FIN = false) ∧ P ⟨r,t⟩)
      (by
        rintro t r data ⟨hq,rfl,hs,-,hPt⟩ hne hw
        have htake := take_segmentSize_ne_nil hne hw
        exact ⟨hq.emplaceSegment hs htake,(ByteStream.pop_peek hq.stream _).symm,hs,hfresh t _,
          hround ⟨r,t⟩ hq _ htake hPt⟩)
      hgo s.outboundStream
      (by
        have htake := take_segmentSize_ne_nil hgo.1 hgo.2
        exact ⟨h.emplaceSegment hsyn htake,(ByteStream.pop_peek h.stream _).symm,hsyn,
          hfresh s.sender _,hround s h _ htake hP⟩)
    exact ⟨hq.finishPush hlast,hfinish _ hq hlast hPt⟩
  · have hstop : pushState s = { s with sender := s.sender.finishPush s.outboundStream } := by
      simp only [pushState,TCPSender.push,segment_stop hgo]
    have hlast : ∀ init last, s.sender.unsentMsgs = init ++ [last] → last.msg.FIN = false := by
      intro init last hq
      by_contra hno
      exact hkeep ⟨by simpa [lastUnsent,hq] using hno,hgo⟩
    rw [hstop]
    exact ⟨h.finishPush hlast,hfinish s h hlast hP⟩

theorem Queues.push (h : Queues isn s) (hfirst : SYNFirst s .push)
    (hkeep : ¬ TakesFINBack s .push) : Queues isn (pushState s) :=
  (h.push_induction hfirst hkeep (P := fun _ => True) trivial (fun _ _ _ _ _ => trivial)
    (fun _ _ _ _ => trivial)).1

theorem Queues.of_same (h : Queues isn s) (hsame : SameNumbering s.sender t)
    (hsub : t.outstanding ⊆ s.sender.outstanding)
    (hord : ∃ ms, InOrder t.unsentMsgs t.unackedMsgs ms ∧ ms.Pairwise Before)
    (hcount : Counted t) : Queues isn { s with sender := t } := by
  refine ⟨h.stream,hsame.isn.trans h.isn_eq,?_,?_,?_,hord,hcount⟩
  · rw [hsame.next,hsame.SYN,hsame.FIN]
    exact h.next
  · intro hs
    obtain ⟨hnil,hFIN⟩ := h.fresh (hsame.SYN.symm.trans hs)
    rw [hnil] at hsub
    exact ⟨List.subset_nil.mp hsub,hsame.FIN.trans hFIN⟩
  · intro x hx
    rw [hsame.next]
    exact h.numbered x (hsub hx)

theorem Queues.sendFlagMessage (h : Queues isn s) (hq : s.sender.unsentMsgs = [])
    (hdue : s.sender.hasNotSentSYN = true ∨ s.sender.canSendFIN = true) :
    Queues isn { s with sender := s.sender.sendFlagMessage } := by
  have hnext := h.next
  have hcan : s.sender.canSendFIN = true → s.sender.hasNotSentFIN = true := by
    intro hc
    simp only [canSendFIN,Bool.and_eq_true] at hc
    exact hc.1
  have hFIN : s.sender.hasNotSentFIN = true := hdue.elim (fun hs => (h.fresh hs).2) hcan
  have hlen : s.sender.flagMessage.sequenceLength =
      s.sender.hasNotSentSYN.toNat + s.sender.canSendFIN.toNat := rfl
  obtain ⟨ms,hord,hpair⟩ := h.ordered
  refine ⟨h.stream,h.isn_eq,?_,?_,?_,?_,?_⟩
  · change s.sender.nextSeqno + (s.sender.hasNotSentSYN.toNat + s.sender.canSendFIN.toNat) + 0 +
      (!s.sender.canSendFIN).toNat = _
    rw [hFIN] at hnext
    cases hc : s.sender.canSendFIN with
    | false => simpa using hnext
    | true => simpa [Nat.add_assoc] using hnext
  · intro hs
    cases hs
  · intro x hx
    have hmem : x ∈ s.sender.outstanding ∨ x = s.sender.flagMessage := by
      simpa [outstanding,TCPSender.sendFlagMessage,hq] using hx
    rcases hmem with hx | rfl
    · exact (h.numbered x hx).mono (Nat.le_add_right _ _)
    · refine ⟨by rw [← h.isn_eq]; rfl,?_,le_rfl⟩
      rw [hlen]
      rcases hdue with hs | hc
      · simp [hs]
      · simp [hc]
  · refine ⟨ms ++ [s.sender.flagMessage],?_,h.ordered_snoc hord hpair rfl⟩
    rw [hq] at hord
    change InOrder s.sender.unsentMsgs _ _
    rw [hq]
    exact hord.sendFlag _
  · refine ⟨h.counted.unsent,?_⟩
    simp only [TCPSender.sendFlagMessage,seqnos_append,seqnos_cons,seqnos_nil,hlen,Nat.add_zero,
      UInt32.ofNat_add,h.counted.unacked]

theorem Queues.maybeSend (h : Queues isn s) :
    Queues isn { s with sender := s.sender.maybeSend.1 } := by
  rcases maybeSend_cases s.sender with ⟨heq,-⟩ | ⟨heq,hq,hdue⟩ | ⟨w,rest,hq,heq⟩
  · rw [heq]
    exact h
  · rw [heq]
    exact h.sendFlagMessage hq hdue
  · have hsyn := h.syn_sent (by simp [outstanding,hq])
    have hcarry : s.sender.carrySYN w.msg = w.msg := by simp [carrySYN,hsyn]
    obtain ⟨ms,hord,hpair⟩ := h.ordered
    rw [heq]
    rw [hq] at hord
    refine h.of_same (sendUnsent_same hsyn) (sendUnsent_perm hsyn hq).subset ⟨ms,?_,hpair⟩ ?_
    · simp only [sendUnsent,hcarry]
      exact hord.send
    · have hu := h.counted.unsent
      have hv := h.counted.unacked
      rw [hq,List.map_cons,seqnos_cons,UInt32.ofNat_add] at hu
      refine ⟨?_,?_⟩
      · simp only [sendUnsent,hcarry,hu]
        grind
      · simp only [sendUnsent,hcarry,hv]
        split_ifs
        · rw [seqnos_cons,UInt32.ofNat_add]
          grind
        · rw [seqnos_append,UInt32.ofNat_add]
          simp

theorem Queues.receive {msg : TCPReceiverMessage} (h : Queues isn s)
    (ht : s.sender.receive msg = .ok t) : Queues isn { s with sender := t } := by
  have hu := h.counted.unsent
  have hv := h.counted.unacked
  obtain ⟨ms,hord,hpair⟩ := h.ordered
  refine h.of_same (receive_ok ht).1 (receive_subperm ht).subset ?_ ?_
  · obtain ⟨-,hunsent,dropped,hsplit,-⟩ := receive_ok ht
    rw [hsplit] at hord
    obtain ⟨ms',hord',hsub⟩ := hord.drop
    rw [hunsent]
    exact ⟨ms',hord',hpair.sublist hsub⟩
  · rcases receive_cases ht with ⟨-,rfl⟩ | ⟨K,n',retransmissions,timer,-,hn,rfl⟩
    · exact ⟨hu,hv⟩
    · refine ⟨hu,?_⟩
      rw [← List.takeWhile_append_dropWhile (p := s.sender.acknowledges K)
        (l := s.sender.unackedMsgs),seqnos_append,UInt32.ofNat_add] at hv
      change n' = _
      grind

theorem Queues.tick {ms : ℕ} (h : Queues isn s) (ht : s.sender.tick ms = .ok t) :
    Queues isn { s with sender := t } := by
  have hu := h.counted.unsent
  have hv := h.counted.unacked
  obtain ⟨order,hord,hpair⟩ := h.ordered
  refine h.of_same (tick_ok ht).1 (tick_perm ht).subset ⟨order,?_,hpair⟩ ?_
  · rcases tick_cases ht with ⟨-,timer,rfl⟩ | ⟨-,m,rest,retransmissions,timer,hun,rfl⟩
    · exact hord
    · rw [hun] at hord
      exact hord.requeue
  · rcases tick_cases ht with ⟨-,timer,rfl⟩ | ⟨-,m,rest,retransmissions,timer,hun,rfl⟩
    · exact ⟨hu,hv⟩
    · rw [hun,seqnos_cons,UInt32.ofNat_add] at hv
      refine ⟨?_,?_⟩
      · simp only [requeue,List.map_cons,seqnos_cons,UInt32.ofNat_add,hu]
        grind
      · simp only [requeue,hv]
        grind

theorem Queues.step (h : Queues isn s) (hfirst : SYNFirst s op) (hkeep : ¬ TakesFINBack s op)
    (hs : SenderRuns.step s op = .ok (s',out)) : Queues isn s' := by
  cases op with
  | write data =>
    cases hs
    exact h.write data
  | close =>
    cases hs
    exact h.close
  | push =>
    cases hs
    exact h.push hfirst hkeep
  | maybeSend =>
    cases hs
    exact h.maybeSend
  | receive msg =>
    obtain ⟨t,ht,rfl⟩ := step_receive hs
    exact h.receive ht
  | tick ms =>
    obtain ⟨t,ht,rfl⟩ := step_tick hs
    exact h.tick ht

end SenderRuns
end Minnow
