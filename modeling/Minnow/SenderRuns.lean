import Minnow.Library.Run
import Minnow.TCPSender

/-! Runs of a sender together with its outbound stream, into which an application writes a
byte string `D`: how the absolute sequence numbers lie over the stream. -/
namespace Minnow
namespace SenderRuns

open Library TCPSender

structure State where
  outboundStream : ByteStream
  sender : TCPSender
  deriving DecidableEq, Repr

inductive Op
  | write (data : List Byte)
  | close
  | push
  | maybeSend
  | receive (msg : TCPReceiverMessage)
  | tick (msSinceLastTick : ℕ)
  deriving DecidableEq, Repr

def init (capacity RTO : ℕ) (isn : Wrap32) : State :=
  ⟨ByteStream.new capacity,TCPSender.new RTO isn⟩

def pushState (s : State) : State :=
  ⟨(s.sender.push s.outboundStream).2,(s.sender.push s.outboundStream).1⟩

def step (s : State) : Op → Except Fault (State × Option TCPSenderMessage)
  | .write data => .ok ({ s with outboundStream := s.outboundStream.push data },none)
  | .close => .ok ({ s with outboundStream := s.outboundStream.close },none)
  | .push => .ok (pushState s,none)
  | .maybeSend => .ok ({ s with sender := s.sender.maybeSend.1 },s.sender.maybeSend.2)
  | .receive msg => do .ok ({ s with sender := ← s.sender.receive msg },none)
  | .tick ms => do .ok ({ s with sender := ← s.sender.tick ms },none)

abbrev Trace := List (Event State Op (Option TCPSenderMessage))

def returned (tr : Trace) : List TCPSenderMessage := tr.filterMap Event.out

/-- The application writes `D` piece by piece, and closes when it has written all of it. -/
def Writes (D : List Byte) (s : State) : Op → Prop
  | .write data => data <+: D.drop s.outboundStream.bytesPushed ∧ s.outboundStream.isClosed = false
  | .close => s.outboundStream.bytesPushed = D.length
  | _ => True

/-- No byte is buffered when `push` is called before SYN has been sent. -/
def SYNFirst (s : State) : Op → Prop
  | .push => s.sender.hasNotSentSYN = true → s.outboundStream.peek = []
  | _ => True

/-- The message that `push` would give the flag if it read no data. -/
def lastUnsent (s : State) : Option TCPSenderMessage :=
  s.sender.unsentMsgs.getLast?.map TCPSenderMessageWrapper.msg

instance (D : List Byte) (s : State) (op : Op) : Decidable (Writes D s op) :=
  match op with
  | .write _ | .close | .push | .maybeSend | .receive _ | .tick _ => by unfold Writes; infer_instance

instance (s : State) (op : Op) : Decidable (SYNFirst s op) :=
  match op with
  | .write _ | .close | .push | .maybeSend | .receive _ | .tick _ => by unfold SYNFirst; infer_instance

/-- Byte `i` of `D` at number `i+1`, SYN at number 0, everything below `next`. -/
structure Placed (D : List Byte) (isn : Wrap32) (next : ℕ) (m : TCPSenderMessage) : Prop where
  seqno : m.seqno = Wrap32.wrap m.absolute isn
  start : if m.SYN = true then m.absolute = 0 else 0 < m.absolute
  payload : m.payload = slice D (m.payloadStart - 1) m.payload.length
  inside : m.payloadStart + m.payload.length ≤ D.length + 1
  below : m.absolute + m.sequenceLength ≤ next
  lt : m.absolute < next

/-- The numbering of the stream. -/
structure Inv (D : List Byte) (isn : Wrap32) (s : State) : Prop where
  stream : s.outboundStream.WF
  content : s.outboundStream.peek =
    slice D s.outboundStream.bytesPopped s.outboundStream.bytesBuffered
  pushed_le : s.outboundStream.bytesPushed ≤ D.length
  closed : s.outboundStream.isClosed = true → s.outboundStream.bytesPushed = D.length
  isn_eq : s.sender.isn = isn
  finished : s.sender.streamIsFinished = true → s.outboundStream.isFinished = true
  finSent : s.sender.hasNotSentFIN = false →
    s.sender.hasNotSentSYN = false ∧ s.outboundStream.isFinished = true
  fresh : s.sender.hasNotSentSYN = true → s.sender.outstanding = [] ∧
    s.outboundStream.bytesPopped = 0 ∧ s.sender.nextSeqno = 0
  next : s.sender.hasNotSentSYN = false →
    s.sender.nextSeqno = s.outboundStream.bytesPopped + 1 + (!s.sender.hasNotSentFIN).toNat
  placed : ∀ m ∈ s.sender.outstanding, Placed D isn s.sender.nextSeqno m
  nodup : (s.sender.outstanding.map TCPSenderMessage.absolute).Nodup

variable {D : List Byte} {isn : Wrap32} {s s' : State} {op : Op} {tr : Trace}
  {m : TCPSenderMessage} {out : Option TCPSenderMessage} {n n' : ℕ}

theorem Placed.payloadStart_pos (h : Placed D isn n m) : 0 < m.payloadStart := by
  have hs := h.start
  simp only [TCPSenderMessage.payloadStart]
  split_ifs at hs with hsyn
  · simp [hsyn]
  · omega

theorem Placed.mono (h : Placed D isn n m) (hn : n ≤ n') : Placed D isn n' m :=
  { h with below := h.below.trans hn, lt := h.lt.trans_le hn }

theorem Inv.popped_of_finished (h : Inv D isn s) (hfin : s.outboundStream.isFinished = true) :
    s.outboundStream.bytesPopped = D.length ∧ s.outboundStream.isClosed = true := by
  obtain ⟨hclosed,hpeek⟩ := (ByteStream.isFinished_iff h.stream).mp hfin
  have hlen := h.stream.length_peek
  have hp := h.stream.pushed_eq
  have hall := h.closed hclosed
  rw [hpeek,List.length_nil] at hlen
  exact ⟨by omega,hclosed⟩

theorem Inv.popped_le (h : Inv D isn s) : s.outboundStream.bytesPopped ≤ D.length := by
  have hp := h.stream.pushed_eq
  have hle := h.pushed_le
  omega

theorem init_inv (D : List Byte) (capacity RTO : ℕ) (isn : Wrap32) :
    Inv D isn (init capacity RTO isn) := by
  refine ⟨ByteStream.new_wf capacity,?_,Nat.zero_le _,?_,rfl,?_,?_,?_,?_,?_,?_⟩
  · simp [init]
  · simp [init]
  · simp [init,TCPSender.new]
  · simp [init,TCPSender.new]
  · simp [init,TCPSender.new,outstanding,ByteStream.new]
  · simp [init,TCPSender.new]
  · simp [init,TCPSender.new,outstanding]
  · simp [init,TCPSender.new,outstanding]

theorem Inv.syn_sent (h : Inv D isn s) (hne : s.sender.outstanding ≠ []) :
    s.sender.hasNotSentSYN = false := by
  by_contra hsyn
  rw [Bool.not_eq_false] at hsyn
  exact hne (h.fresh hsyn).1

theorem Inv.placed_cons (h : Inv D isn s) {ms : List TCPSenderMessage}
    (hperm : ms.Perm (m::s.sender.outstanding)) (hnew : Placed D isn n m)
    (habs : m.absolute = s.sender.nextSeqno) :
    (∀ x ∈ ms, Placed D isn n x) ∧ (ms.map TCPSenderMessage.absolute).Nodup := by
  have hlt := hnew.lt
  constructor
  · intro x hx
    rcases List.mem_cons.mp (hperm.mem_iff.mp hx) with rfl | hx
    · exact hnew
    · exact (h.placed x hx).mono (by omega)
  · rw [(hperm.map _).nodup_iff,List.map_cons,List.nodup_cons]
    refine ⟨?_,h.nodup⟩
    intro hmem
    obtain ⟨x,hx,heq⟩ := List.mem_map.mp hmem
    exact (h.placed x hx).lt.ne (heq.trans habs)

theorem Inv.write (h : Inv D isn s) {data : List Byte} (hw : Writes D s (.write data)) :
    Inv D isn { s with outboundStream := s.outboundStream.push data } := by
  obtain ⟨hpre,hopen⟩ := hw
  have hle := h.pushed_le
  have hlen := hpre.length_le
  rw [List.length_drop] at hlen
  have hnot : s.outboundStream.isFinished ≠ true := by
    rw [Ne,ByteStream.isFinished_iff h.stream,hopen]
    simp
  refine ⟨ByteStream.push_wf h.stream data,ByteStream.push_content h.stream h.content hpre,?_,?_,
    h.isn_eq,?_,?_,h.fresh,h.next,h.placed,h.nodup⟩
  · change s.outboundStream.bytesPushed + min data.length _ ≤ D.length
    omega
  · intro hc
    exact absurd (hopen.symm.trans hc) (by simp)
  · exact fun hf => absurd (h.finished hf) hnot
  · exact fun hf => absurd (h.finSent hf).2 hnot

theorem Inv.close (h : Inv D isn s) (hw : Writes D s .close) :
    Inv D isn { s with outboundStream := s.outboundStream.close } := by
  have hfin : s.outboundStream.isFinished = true → s.outboundStream.close.isFinished = true := by
    rw [ByteStream.isFinished_iff h.stream,ByteStream.isFinished_iff (ByteStream.close_wf h.stream)]
    simp
  exact ⟨ByteStream.close_wf h.stream,h.content,h.pushed_le,fun _ => hw,h.isn_eq,
    fun hf => hfin (h.finished hf),fun hf => ⟨(h.finSent hf).1,hfin (h.finSent hf).2⟩,h.fresh,h.next,
    h.placed,h.nodup⟩

theorem dataMessage_placed {t : TCPSender} {data : List Byte} (hisn : t.isn = isn)
    (hstart : 0 < t.nextSeqno) (hpos : 0 < data.length)
    (hdata : data = slice D (t.nextSeqno - 1) data.length)
    (hin : t.nextSeqno + data.length ≤ D.length + 1) :
    Placed D isn (t.nextSeqno + data.length) (t.dataMessage data) := by
  refine ⟨by rw [← hisn]; rfl,hstart,hdata,hin,?_,?_⟩
  · change t.nextSeqno + (0 + data.length + 0) ≤ _
    omega
  · change t.nextSeqno < _
    omega

theorem emplaceSegment_perm (t : TCPSender) (data : List Byte) :
    (t.emplaceSegment data).outstanding.Perm (t.dataMessage data :: t.outstanding) := by
  simp only [outstanding,TCPSender.emplaceSegment,List.map_append,List.map_cons,List.map_nil,
    List.append_assoc]
  exact List.perm_middle

theorem Inv.emplaceSegment (h : Inv D isn s) (hsyn : s.sender.hasNotSentSYN = false)
    (hne : s.outboundStream.peek ≠ []) {k : ℕ} (hk : 0 < k) :
    Inv D isn ⟨s.outboundStream.pop k,
      s.sender.emplaceSegment (s.outboundStream.peek.take k)⟩ := by
  have hnot : s.outboundStream.isFinished ≠ true := by
    rw [Ne,ByteStream.isFinished_iff h.stream]
    exact fun hf => hne hf.2
  have hFIN : s.sender.hasNotSentFIN = true := by
    by_contra hf
    exact hnot (h.finSent (by simpa using hf)).2
  have hnext := h.next hsyn
  have hlen := h.stream.length_peek
  have hp := h.stream.pushed_eq
  have hle := h.pushed_le
  have hpos := List.length_pos_iff.mpr hne
  generalize hdata : s.outboundStream.peek.take k = data
  have htake : data.length = min k s.outboundStream.bytesBuffered := by
    rw [← hdata,List.length_take,hlen]
  rw [hFIN] at hnext
  simp only [Bool.not_true,Bool.toNat_false,Nat.add_zero] at hnext
  have hnew : Placed D isn (s.sender.nextSeqno + data.length) (s.sender.dataMessage data) := by
    refine dataMessage_placed h.isn_eq (by omega) (by omega) ?_ (by omega)
    rw [htake,hnext,← hdata,h.content,slice_take]
    rfl
  obtain ⟨hplaced,hnodup⟩ := h.placed_cons (emplaceSegment_perm s.sender data) hnew rfl
  refine ⟨ByteStream.pop_wf h.stream k,ByteStream.pop_content h.stream h.content k,hle,h.closed,
    h.isn_eq,fun hf => absurd (h.finished hf) hnot,fun hf => absurd (h.finSent hf).2 hnot,?_,?_,
    hplaced,hnodup⟩
  · intro hf
    exact absurd (hsyn.symm.trans hf) (by simp)
  · intro _
    change s.sender.nextSeqno + data.length = s.outboundStream.bytesPopped +
      min k s.outboundStream.bytesBuffered + 1 + (!s.sender.hasNotSentFIN).toNat
    rw [htake,hnext,hFIN]
    simp only [Bool.not_true,Bool.toNat_false]
    omega

/-- What the loop of `push` leaves: either it did nothing, or there are new segments without
flags behind the old ones, and the last of them ends at the next number. -/
structure Segmented (s t : State) : Prop where
  SYN : t.sender.hasNotSentSYN = s.sender.hasNotSentSYN
  FIN : t.sender.hasNotSentFIN = s.sender.hasNotSentFIN
  unacked : t.sender.unackedMsgs = s.sender.unackedMsgs
  unsent : t = s ∨ s.outboundStream.peek ≠ [] ∧ ∃ new last,
    t.sender.unsentMsgs = s.sender.unsentMsgs ++ new ++ [last] ∧
    (∀ w ∈ new ++ [last], w.msg.FIN = false) ∧
    last.msg.absolute + last.msg.sequenceLength = t.sender.nextSeqno

theorem Segmented.emplaceSegment {t : State} (h : Segmented s t)
    (hne : t.outboundStream.peek ≠ []) (k : ℕ) :
    Segmented s ⟨t.outboundStream.pop k,
      t.sender.emplaceSegment (t.outboundStream.peek.take k)⟩ := by
  refine ⟨h.SYN,h.FIN,h.unacked,Or.inr ?_⟩
  have hlast : t.sender.nextSeqno + (0 + (t.outboundStream.peek.take k).length + 0) =
      t.sender.nextSeqno + (t.outboundStream.peek.take k).length := by omega
  rcases h.unsent with rfl | ⟨hs,new,last,hq,hfin,-⟩
  · refine ⟨hne,[],⟨t.sender.dataMessage (t.outboundStream.peek.take k),false⟩,?_,?_,hlast⟩
    · simp [TCPSender.emplaceSegment]
    · simp [dataMessage]
  · refine ⟨hs,new ++ [last],⟨t.sender.dataMessage (t.outboundStream.peek.take k),false⟩,?_,?_,hlast⟩
    · simp only [TCPSender.emplaceSegment,hq,List.append_assoc]
    · intro w hw
      rcases List.mem_append.mp hw with hw | hw
      · exact hfin w hw
      · rw [List.mem_singleton.mp hw]
        rfl

def segmentState (s : State) : State :=
  let data := s.outboundStream.peek
  let res := segment data.length s.sender s.outboundStream data
  ⟨res.2,res.1⟩

/-- The loop of `push` as an induction over its rounds. -/
theorem Inv.segment_induction (h : Inv D isn s) (hfirst : SYNFirst s .push) {P : State → Prop}
    (hP : P s)
    (hround : ∀ t : State, Inv D isn t → t.sender.hasNotSentSYN = false → ∀ k, P t →
      P ⟨t.outboundStream.pop k,t.sender.emplaceSegment (t.outboundStream.peek.take k)⟩) :
    Inv D isn (segmentState s) ∧ Segmented s (segmentState s) ∧ P (segmentState s) := by
  obtain ⟨rest,hinv,-,hseg,hP'⟩ := TCPSender.segment_induction
    (P := fun t r data => Inv D isn ⟨r,t⟩ ∧ data = r.peek ∧ Segmented s ⟨r,t⟩ ∧ P ⟨r,t⟩)
    (by
      rintro t r data ⟨hinv,rfl,hseg,hPt⟩ hne hgo
      have hsyn : t.hasNotSentSYN = false := by
        by_contra hs
        rw [Bool.not_eq_false] at hs
        have hpeek := hfirst (hseg.SYN.symm.trans hs)
        rcases hseg.unsent with heq | ⟨hs',-⟩
        · rw [← heq] at hpeek
          exact hne hpeek
        · exact hs' hpeek
      exact ⟨hinv.emplaceSegment hsyn hne (segmentSize_pos hgo),
        (ByteStream.pop_peek hinv.stream _).symm,hseg.emplaceSegment hne _,
        hround ⟨r,t⟩ hinv hsyn _ hPt⟩)
    s.outboundStream.peek.length s.sender s.outboundStream s.outboundStream.peek
    ⟨h,rfl,⟨rfl,rfl,rfl,Or.inl rfl⟩,hP⟩
  exact ⟨hinv,hseg,hP'⟩

theorem Inv.segment (h : Inv D isn s) (hfirst : SYNFirst s .push) :
    Inv D isn (segmentState s) ∧ Segmented s (segmentState s) := by
  obtain ⟨hinv,hseg,-⟩ := h.segment_induction hfirst (P := fun _ => True) trivial
    (fun _ _ _ _ _ => trivial)
  exact ⟨hinv,hseg⟩

theorem pushState_spec (s : State) :
    (pushState s).outboundStream = (segmentState s).outboundStream ∧
      FinishedPush (segmentState s).sender (segmentState s).outboundStream (pushState s).sender :=
  ⟨rfl,finishPush_spec _ _⟩

theorem Placed.withFIN (h : Placed D isn n m) (b : Bool) :
    Placed D isn (n + b.toNat) { m with FIN := b } := by
  have hb := h.below
  have hlt := h.lt
  refine ⟨h.seqno,h.start,h.payload,h.inside,?_,?_⟩
  · simp only [TCPSenderMessage.sequenceLength] at hb ⊢
    omega
  · change m.absolute < _
    omega

theorem Inv.finishPush {t : State} (h : Inv D isn t) {s₁ : TCPSender}
    (hfin : FinishedPush t.sender t.outboundStream s₁) : Inv D isn ⟨t.outboundStream,s₁⟩ := by
  have hisn := hfin.isn.trans h.isn_eq
  rcases hfin.unsent with ⟨hnil,hnil',hnext,hFIN⟩ | ⟨init,last,hq,hq',hnext,hFIN⟩
  · have hout : s₁.outstanding = t.sender.outstanding := by
      rw [outstanding,outstanding,hnil,hnil',hfin.unacked]
    refine ⟨h.stream,h.content,h.pushed_le,h.closed,hisn,?_,?_,?_,?_,?_,?_⟩
    · exact fun hf => hfin.finished.symm.trans hf
    · intro hf
      rw [hfin.SYN]
      exact h.finSent (hFIN.symm.trans hf)
    · intro hs
      rw [hout,hnext]
      exact h.fresh (hfin.SYN.symm.trans hs)
    · intro hs
      rw [hnext,hFIN]
      exact h.next (hfin.SYN.symm.trans hs)
    · rw [hout,hnext]
      exact h.placed
    · rw [hout]
      exact h.nodup
  · have hsyn := h.syn_sent (by simp [outstanding,hq])
    generalize hflag : t.sender.finFlag t.outboundStream = flag at hq' hnext hFIN
    have hflagged : flag = true → t.sender.hasNotSentFIN = true ∧
        t.outboundStream.isFinished = true := by
      rintro rfl
      simp only [finFlag,Bool.and_eq_true] at hflag
      exact hflag.1
    obtain ⟨hlast,hmem⟩ := mem_outstanding_withFIN hq hq' hfin.unacked
    refine ⟨h.stream,h.content,h.pushed_le,h.closed,hisn,?_,?_,?_,?_,?_,?_⟩
    · exact fun hf => hfin.finished.symm.trans hf
    · intro hf
      refine ⟨hfin.SYN.trans hsyn,?_⟩
      rw [hFIN,Bool.and_eq_false_iff] at hf
      rcases hf with hf | hf
      · exact (h.finSent hf).2
      · exact (hflagged (by simpa using hf)).2
    · intro hs
      exact absurd (hsyn.symm.trans (hfin.SYN.symm.trans hs)) (by simp)
    · intro _
      have hn := h.next hsyn
      rw [hnext,hFIN,hn]
      cases hf : flag with
      | false => simp
      | true => simp [(hflagged hf).1]
    · intro x hx
      rw [hnext]
      rcases hmem x hx with rfl | hx
      · exact (h.placed last.msg hlast).withFIN flag
      · exact (h.placed x hx).mono (Nat.le_add_right _ _)
    · have hsame : s₁.outstanding.map TCPSenderMessage.absolute =
          t.sender.outstanding.map TCPSenderMessage.absolute := by
        simp [outstanding,hq,hq',hfin.unacked]
      rw [hsame]
      exact h.nodup

theorem Inv.push (h : Inv D isn s) (hfirst : SYNFirst s .push) : Inv D isn (pushState s) :=
  (h.segment hfirst).1.finishPush (pushState_spec s).2

theorem Inv.of_subperm (h : Inv D isn s) {t : TCPSender} (hsame : SameNumbering s.sender t)
    (hsub : t.outstanding.Subperm s.sender.outstanding) :
    Inv D isn { s with sender := t } := by
  refine ⟨h.stream,h.content,h.pushed_le,h.closed,hsame.isn.trans h.isn_eq,?_,?_,?_,?_,?_,?_⟩
  · exact fun hf => h.finished (hsame.finished.symm.trans hf)
  · intro hf
    rw [hsame.SYN]
    exact h.finSent (hsame.FIN.symm.trans hf)
  · intro hs
    obtain ⟨hnil,hpop,hnext⟩ := h.fresh (hsame.SYN.symm.trans hs)
    rw [hnil] at hsub
    exact ⟨List.subperm_nil.mp hsub,hpop,hsame.next.trans hnext⟩
  · intro hs
    rw [hsame.next,hsame.FIN]
    exact h.next (hsame.SYN.symm.trans hs)
  · intro x hx
    rw [hsame.next]
    exact h.placed x (hsub.subset hx)
  · obtain ⟨l,hperm,hsubl⟩ := hsub
    exact (hperm.map _).nodup_iff.mp (h.nodup.sublist (hsubl.map _))

theorem receive_subperm {msg : TCPReceiverMessage} {t t' : TCPSender}
    (hs : t.receive msg = .ok t') : t'.outstanding.Subperm t.outstanding := by
  obtain ⟨-,hunsent,dropped,hsplit,-⟩ := receive_ok hs
  rw [outstanding,outstanding,hunsent,hsplit]
  exact ((List.sublist_append_right dropped _).append_left _).subperm

theorem tick_perm {ms : ℕ} {t t' : TCPSender} (hs : t.tick ms = .ok t') :
    t'.outstanding.Perm t.outstanding := by
  rcases (tick_ok hs).2 with ⟨-,hunsent,hunacked⟩ | ⟨-,m,hunacked,hunsent⟩
  · rw [outstanding,outstanding,hunsent,hunacked]
  · rw [outstanding,outstanding,hunsent,hunacked]
    exact List.perm_middle.symm

theorem sendUnsent_perm {t : TCPSender} {w : TCPSenderMessageWrapper}
    {rest : List TCPSenderMessageWrapper} (hsyn : t.hasNotSentSYN = false)
    (hq : t.unsentMsgs = w::rest) : (t.sendUnsent w rest).outstanding.Perm t.outstanding := by
  simp only [outstanding,sendUnsent,carrySYN,hsyn,Bool.false_eq_true,if_false,hq,List.map_cons,
    List.cons_append]
  split_ifs
  · exact List.perm_middle
  · rw [← List.append_assoc]
    exact List.perm_append_singleton _ _

theorem sendUnsent_same {t : TCPSender} {w : TCPSenderMessageWrapper}
    {rest : List TCPSenderMessageWrapper} (hsyn : t.hasNotSentSYN = false) :
    SameNumbering t (t.sendUnsent w rest) := ⟨rfl,hsyn.symm,rfl,rfl,rfl⟩

/-- The message with a flag alone is placed like the others: SYN at 0, FIN behind the stream. -/
theorem flagMessage_placed {t : TCPSender} (hisn : t.isn = isn)
    (hdue : 0 < t.hasNotSentSYN.toNat + t.canSendFIN.toNat)
    (hstart : if t.hasNotSentSYN = true then t.nextSeqno = 0 else 0 < t.nextSeqno)
    (hin : t.nextSeqno + t.hasNotSentSYN.toNat ≤ D.length + 1) :
    Placed D isn (t.nextSeqno + (t.hasNotSentSYN.toNat + t.canSendFIN.toNat)) t.flagMessage := by
  refine ⟨by rw [← hisn]; rfl,hstart,(slice_zero _ _).symm,hin,?_,?_⟩
  · change t.nextSeqno + (t.hasNotSentSYN.toNat + 0 + t.canSendFIN.toNat) ≤ _
    omega
  · change t.nextSeqno < _
    omega

theorem sendFlagMessage_perm {t : TCPSender} (hq : t.unsentMsgs = []) :
    t.sendFlagMessage.outstanding.Perm (t.flagMessage :: t.outstanding) := by
  simp only [outstanding,TCPSender.sendFlagMessage,hq,List.map_nil,List.nil_append]
  exact List.perm_append_singleton _ _

theorem Inv.sendFlagMessage (h : Inv D isn s) (hq : s.sender.unsentMsgs = [])
    (hdue : s.sender.hasNotSentSYN = true ∨ s.sender.canSendFIN = true) :
    Inv D isn { s with sender := s.sender.sendFlagMessage } := by
  have hfin : s.sender.canSendFIN = true → s.sender.hasNotSentFIN = true ∧
      s.outboundStream.isFinished = true := by
    intro hc
    simp only [canSendFIN,Bool.and_eq_true] at hc
    exact ⟨hc.1,h.finished hc.2⟩
  have hpop := h.popped_le
  have hFIN : s.sender.hasNotSentFIN = true := by
    rcases hdue with hs | hc
    · by_contra hf
      have := (h.finSent (by simpa using hf)).1
      simp [hs] at this
    · exact (hfin hc).1
  have hcount : 0 < s.sender.hasNotSentSYN.toNat + s.sender.canSendFIN.toNat := by
    rcases hdue with hs | hc
    · simp [hs]
    · simp [hc]
  have hstart : (if s.sender.hasNotSentSYN = true then s.sender.nextSeqno = 0
      else 0 < s.sender.nextSeqno) ∧
      s.sender.nextSeqno + s.sender.hasNotSentSYN.toNat = s.outboundStream.bytesPopped + 1 := by
    cases hs : s.sender.hasNotSentSYN with
    | true =>
      obtain ⟨-,hzero,hnext⟩ := h.fresh hs
      simp [hzero,hnext]
    | false =>
      have hnext := h.next hs
      rw [hFIN] at hnext
      simp [hnext]
  have hnew := flagMessage_placed h.isn_eq hcount hstart.1
    (show s.sender.nextSeqno + s.sender.hasNotSentSYN.toNat ≤ D.length + 1 by omega)
  obtain ⟨hplaced,hnodup⟩ := h.placed_cons (sendFlagMessage_perm hq) hnew rfl
  refine ⟨h.stream,h.content,h.pushed_le,h.closed,h.isn_eq,h.finished,?_,?_,?_,hplaced,hnodup⟩
  · intro hf
    change (!s.sender.canSendFIN) = false at hf
    exact ⟨rfl,(hfin (by simpa using hf)).2⟩
  · intro hs
    cases hs
  · intro _
    change s.sender.nextSeqno + (s.sender.hasNotSentSYN.toNat + s.sender.canSendFIN.toNat) =
      s.outboundStream.bytesPopped + 1 + (!(!s.sender.canSendFIN)).toNat
    rw [Bool.not_not,← Nat.add_assoc,hstart.2]

theorem Inv.maybeSend (h : Inv D isn s) : Inv D isn { s with sender := s.sender.maybeSend.1 } := by
  rcases maybeSend_cases s.sender with ⟨heq,-⟩ | ⟨heq,hq,hdue⟩ | ⟨w,rest,hq,heq⟩
  · rw [heq]
    exact h
  · rw [heq]
    exact h.sendFlagMessage hq hdue
  · have hsyn := h.syn_sent (by simp [outstanding,hq])
    rw [heq]
    exact h.of_subperm (sendUnsent_same hsyn) (sendUnsent_perm hsyn hq).subperm

theorem maybeSend_next_le (t : TCPSender) : t.nextSeqno ≤ t.maybeSend.1.nextSeqno := by
  rcases maybeSend_cases t with ⟨heq,-⟩ | ⟨heq,-,-⟩ | ⟨w,rest,-,heq⟩
  · rw [heq]
  · rw [heq]
    exact Nat.le_add_right _ _
  · rw [heq]
    exact le_rfl

theorem Inv.next_le (h : Inv D isn s) : s.sender.nextSeqno ≤ D.length + 2 := by
  have hpop := h.popped_le
  cases hs : s.sender.hasNotSentSYN with
  | true =>
    have := (h.fresh hs).2.2
    omega
  | false =>
    have hnext := h.next hs
    have hbit : (!s.sender.hasNotSentFIN).toNat ≤ 1 := Bool.toNat_le _
    omega

/-- A message that the loop of `receive` drops really lies below the ackno. -/
theorem Placed.covered (h : Placed D isn n m) (hn : n ≤ D.length + 2)
    (hD : 2*D.length + 2^33 ≤ 2^64) {K : ℕ}
    (hcover : u64 (m.seqno.unwrap isn n + m.sequenceLength) ≤ K) :
    m.absolute + m.sequenceLength ≤ K := by
  have hbelow := h.below
  have hlo := Wrap32.le_unwrap_wrap (n := m.absolute) isn (show n + 2^32 ≤ 2^64 by omega) h.lt.le
  have hhi := Wrap32.unwrap_lt m.seqno isn (show n + 2^32 ≤ 2^64 by omega)
  rw [← h.seqno] at hlo
  rw [u64_of_lt (by omega)] at hcover
  omega

theorem step_receive {msg : TCPReceiverMessage} (hs : step s (.receive msg) = .ok (s',out)) :
    ∃ t, s.sender.receive msg = .ok t ∧ s' = { s with sender := t } := by
  obtain ⟨t,ht,hret⟩ := bind_ok.mp hs
  cases hret
  exact ⟨t,ht,rfl⟩

theorem step_tick {ms : ℕ} (hs : step s (.tick ms) = .ok (s',out)) :
    ∃ t, s.sender.tick ms = .ok t ∧ s' = { s with sender := t } := by
  obtain ⟨t,ht,hret⟩ := bind_ok.mp hs
  cases hret
  exact ⟨t,ht,rfl⟩

theorem step_next_le (hs : step s op = .ok (s',out)) : s.sender.nextSeqno ≤ s'.sender.nextSeqno := by
  cases op with
  | write data =>
    cases hs
    exact le_rfl
  | close =>
    cases hs
    exact le_rfl
  | push =>
    cases hs
    exact push_next_le _ _
  | maybeSend =>
    cases hs
    exact maybeSend_next_le _
  | receive msg =>
    obtain ⟨t,ht,rfl⟩ := step_receive hs
    exact (receive_ok ht).1.next.ge
  | tick ms =>
    obtain ⟨t,ht,rfl⟩ := step_tick hs
    exact (tick_ok ht).1.next.ge

theorem Inv.step (h : Inv D isn s) (hw : Writes D s op) (hfirst : SYNFirst s op)
    (hs : step s op = .ok (s',out)) : Inv D isn s' := by
  cases op with
  | write data =>
    cases hs
    exact h.write hw
  | close =>
    cases hs
    exact h.close hw
  | push =>
    cases hs
    exact h.push hfirst
  | maybeSend =>
    cases hs
    exact h.maybeSend
  | receive msg =>
    obtain ⟨t,ht,rfl⟩ := step_receive hs
    exact h.of_subperm (receive_ok ht).1 (receive_subperm ht)
  | tick ms =>
    obtain ⟨t,ht,rfl⟩ := step_tick hs
    exact h.of_subperm (tick_ok ht).1 (tick_perm ht).subperm

theorem step_some (hs : step s op = .ok (s',some m)) : op = .maybeSend := by
  cases op with
  | maybeSend => rfl
  | write data => cases hs
  | close => cases hs
  | push => cases hs
  | receive msg =>
    obtain ⟨t,-,hret⟩ := bind_ok.mp hs
    cases hret
  | tick ms =>
    obtain ⟨t,-,hret⟩ := bind_ok.mp hs
    cases hret

theorem maybeSend_outstanding {t : TCPSender}
    (hsyn : t.outstanding ≠ [] → t.hasNotSentSYN = false) (hout : t.maybeSend.2 = some m) :
    m ∈ t.maybeSend.1.outstanding := by
  rcases maybeSend_cases t with ⟨heq,-⟩ | ⟨heq,hq,-⟩ | ⟨w,rest,hq,heq⟩
  · simp [heq] at hout
  · rw [heq] at hout ⊢
    cases hout
    simp [outstanding,TCPSender.sendFlagMessage]
  · have hsyn := hsyn (by simp [outstanding,hq])
    rw [heq] at hout ⊢
    cases hout
    rw [(sendUnsent_perm hsyn hq).mem_iff]
    simp [outstanding,hq,carrySYN,hsyn]

theorem Inv.returned_outstanding (h : Inv D isn s)
    (hs : SenderRuns.step s .maybeSend = .ok (s',some m)) :
    m ∈ s'.sender.outstanding := by
  simp only [SenderRuns.step,Except.ok.injEq,Prod.mk.injEq] at hs
  obtain ⟨rfl,hout⟩ := hs
  exact maybeSend_outstanding h.syn_sent hout

structure Faithful (D : List Byte) (isn : Wrap32) (m : TCPSenderMessage) : Prop where
  seqno : m.seqno = Wrap32.wrap m.absolute isn
  SYN : m.SYN = true → m.absolute = 0 ∧ m.seqno = isn
  payload : ∀ k < m.payload.length, ∃ i, m.payloadStart + k = i + 1 ∧ m.payload[k]? = D[i]?

theorem Placed.faithful (h : Placed D isn n m) : Faithful D isn m := by
  have hpos := h.payloadStart_pos
  refine ⟨h.seqno,?_,?_⟩
  · intro hsyn
    have hstart := h.start
    rw [if_pos hsyn] at hstart
    refine ⟨hstart,?_⟩
    rw [h.seqno,hstart,Wrap32.wrap_zero]
  · intro k hk
    refine ⟨m.payloadStart + k - 1,by omega,?_⟩
    have hbyte := congrArg (fun xs : List Byte => xs[k]?) h.payload
    simp only [slice_getElem?,if_pos hk] at hbyte
    rw [hbyte]
    congr 1
    omega

/-- A byte that a faithful message puts at number `a` is byte `a-1` of the stream. -/
theorem Faithful.byteAt_eq (h : Faithful D isn m) {a : ℕ} {b : Byte} (hb : m.byteAt a = some b) :
    D[a-1]? = some b := by
  simp only [TCPSenderMessage.byteAt] at hb
  split_ifs at hb with hlt
  obtain ⟨hk,-⟩ := List.getElem?_eq_some_iff.mp hb
  obtain ⟨i,hi,heq⟩ := h.payload _ hk
  rw [← hb,heq]
  congr 1
  omega

/-- As long as no byte is pushed before SYN has been sent, the numbers of all returned messages
lie over the stream, and no two of them disagree on a byte. -/
theorem sequence_space_faithful {C RTO : ℕ} (hr : Run step (init C RTO isn) tr s)
    (hw : ∀ e ∈ tr, Writes D e.before e.op) (hfirst : ∀ e ∈ tr, SYNFirst e.before e.op) :
    (∀ m ∈ returned tr, Faithful D isn m) ∧
      ∀ m₁ ∈ returned tr, ∀ m₂ ∈ returned tr, ∀ a b₁ b₂, m₁.byteAt a = some b₁ →
        m₂.byteAt a = some b₂ → b₁ = b₂ := by
  have hall : ∀ m ∈ returned tr, Faithful D isn m := by
    have hgood := (Run.forall_events (Inv D isn)
      (fun e => Writes D e.before e.op ∧ SYNFirst e.before e.op)
      (fun e => ∀ m, e.out = some m → Faithful D isn m) (init_inv D C RTO isn)
      (by
        intro s s' op out hi hg hs
        have hi' := hi.step hg.1 hg.2 hs
        refine ⟨hi',?_⟩
        rintro m rfl
        obtain rfl := step_some hs
        exact (hi'.placed m (hi.returned_outstanding hs)).faithful)
      hr (fun e he => ⟨hw e he,hfirst e he⟩)).2
    intro m hm
    obtain ⟨e,he,hout⟩ := List.mem_filterMap.mp hm
    exact hgood e he m hout
  refine ⟨hall,?_⟩
  intro m₁ h₁ m₂ h₂ a b₁ b₂ hb₁ hb₂
  have he₁ := (hall m₁ h₁).byteAt_eq hb₁
  have he₂ := (hall m₂ h₂).byteAt_eq hb₂
  exact Option.some.inj (he₁.symm.trans he₂)

theorem sequence_space_faithful_two_segments : ∃ tr s, Run step (init 8 1000 ⟨7⟩) tr s ∧
    (returned tr).length = 3 ∧ ∀ m ∈ returned tr, Faithful [10,11] ⟨7⟩ m := by
  obtain ⟨tr,s,hr,hlen,hw,hfirst⟩ := Run.exists_of_exec step (init 8 1000 ⟨7⟩)
    [.push,.maybeSend,.receive ⟨some ⟨8⟩,5⟩,.write [10],.push,.maybeSend,.write [11],.push,
      .maybeSend]
    (fun tr _ => (returned tr).length = 3 ∧ (∀ e ∈ tr, Writes [10,11] e.before e.op) ∧
      ∀ e ∈ tr, SYNFirst e.before e.op) (by decide +kernel)
  exact ⟨tr,s,hr,hlen,(sequence_space_faithful hr hw hfirst).1⟩

/-- The stream holds two bytes at the first `push`: both go out at number 1. -/
theorem sequence_space_collision : ∃ D tr s, Run step (init 8 1000 ⟨7⟩) tr s ∧
    (∀ e ∈ tr, Writes D e.before e.op) ∧
    ∃ m₁ ∈ returned tr, ∃ m₂ ∈ returned tr, m₁.byteAt 1 = some 10 ∧ m₂.byteAt 1 = some 11 := by
  obtain ⟨tr,s,hr,hw,hbad⟩ := Run.exists_of_exec step (init 8 1000 ⟨7⟩)
    [.write [10,11],.push,.maybeSend,.receive ⟨none,10⟩,.push,.maybeSend]
    (fun tr _ => (∀ e ∈ tr, Writes [10,11] e.before e.op) ∧
      ∃ m₁ ∈ returned tr, ∃ m₂ ∈ returned tr, m₁.byteAt 1 = some 10 ∧ m₂.byteAt 1 = some 11)
    (by decide +kernel)
  exact ⟨_,tr,s,hr,hw,hbad⟩

end SenderRuns
end Minnow
