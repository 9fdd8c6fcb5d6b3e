import Minnow.ReassemblerRuns
import Minnow.SegmentTiling
import Minnow.SenderFIN
import Minnow.TCPReceiver

/-! One sender and one receiver over a network that loses, duplicates and reorders messages.
A message in flight can be delivered any number of times, at any later moment, or never. -/
namespace Minnow
namespace EndToEnd

open Library TCPSender SenderRuns

/-- `segments` and `acks` are all messages ever sent; an ack is kept with the absolute number
that its ackno was wrapped from. -/
structure State where
  outboundStream : ByteStream
  sender : TCPSender
  receiver : TCPReceiver
  reassembler : Reassembler
  inboundStream : ByteStream
  segments : List TCPSenderMessage
  acks : List (ℕ × TCPReceiverMessage)
  deriving DecidableEq, Repr

inductive Op
  | write (data : List Byte)
  | close
  | push
  | maybeSend
  | tick (msSinceLastTick : ℕ)
  | sendAck
  | deliverSegment (i : ℕ)
  | deliverAck (i : ℕ)
  | read (len : ℕ)
  deriving DecidableEq, Repr

/-- What can be seen of a step: the bytes read by the receiving application, and the messages
that the sender drops because of an ackno. -/
structure Output where
  bytes : List Byte
  dropped : List TCPSenderMessage
  deriving DecidableEq, Repr

namespace State

def senderSide (s : State) : SenderRuns.State := ⟨s.outboundStream,s.sender⟩

def assembly (s : State) : ReassemblerRuns.State := ⟨s.reassembler,s.inboundStream⟩

end State

def init (outboundCapacity capacity RTO : ℕ) (isn : Wrap32) : State :=
  ⟨ByteStream.new outboundCapacity,TCPSender.new RTO isn,TCPReceiver.new,Reassembler.new,
    ByteStream.new capacity,[],[]⟩

def step (s : State) : Op → Except Fault (State × Output)
  | .write data => .ok ({ s with outboundStream := s.outboundStream.push data },⟨[],[]⟩)
  | .close => .ok ({ s with outboundStream := s.outboundStream.close },⟨[],[]⟩)
  | .push =>
    .ok ({ s with
      outboundStream := (pushState s.senderSide).outboundStream
      sender := (pushState s.senderSide).sender },⟨[],[]⟩)
  | .maybeSend =>
    .ok ({ s with
      sender := s.sender.maybeSend.1
      segments := s.segments ++ s.sender.maybeSend.2.toList },⟨[],[]⟩)
  | .tick ms => do .ok ({ s with sender := ← s.sender.tick ms },⟨[],[]⟩)
  | .sendAck =>
    .ok ({ s with
      acks := s.acks ++ [(s.receiver.absoluteAckno,s.receiver.send s.inboundStream)] },⟨[],[]⟩)
  | .deliverSegment i =>
    match s.segments[i]? with
    | none => .ok (s,⟨[],[]⟩)
    | some message => do
      let (receiver,reassembler,inboundStream) ←
        s.receiver.receive message s.reassembler s.inboundStream
      .ok ({ s with
        receiver := receiver
        reassembler := reassembler
        inboundStream := inboundStream },⟨[],[]⟩)
  | .deliverAck i =>
    match s.acks[i]? with
    | none => .ok (s,⟨[],[]⟩)
    | some ack => do
      let sender ← s.sender.receive ack.2
      let count := s.sender.unackedMsgs.length - sender.unackedMsgs.length
      .ok ({ s with sender := sender },⟨[],s.sender.unackedMsgs.take count⟩)
  | .read len =>
    .ok ({ s with inboundStream := s.inboundStream.pop len },⟨s.inboundStream.peek.take len,[]⟩)

abbrev Trace := List (Event State Op Output)

def readBytes (tr : Trace) : List Byte := (tr.map fun e => e.out.bytes).flatten

/-- The application writes `D` and closes; SYN is sent before any data is pushed; and nothing
is left unsent when the sender is used again. -/
def Driven (D : List Byte) (s : State) : Op → Prop
  | .write data => Writes D s.senderSide (.write data)
  | .close => Writes D s.senderSide .close
  | .push => s.sender.unsentMsgs = [] ∧ SYNFirst s.senderSide .push
  | .tick _ => s.sender.unsentMsgs = []
  | .deliverAck _ => s.sender.unsentMsgs = []
  | _ => True

/-- Less than `2^31` numbers lie between a delivered number and the one it is compared with. -/
def InReach (s : State) : Op → Prop
  | .deliverSegment i => ∀ m ∈ s.segments[i]?,
    s.reassembler.firstUnassembledGlobalIndex < m.payloadStart + 2^31 ∧
      m.payloadStart < s.reassembler.firstUnassembledGlobalIndex + 2^31
  | .deliverAck i => ∀ ack ∈ s.acks[i]?, s.sender.nextSeqno < ack.1 + 2^31
  | _ => True

/-- The delivery makes the reassembler know the end of `D` while bytes are missing and nothing
that has arrived lies above them: FIN has overtaken lost data. -/
def FINOvertakes (D : List Byte) (s : State) : Op → Prop
  | .deliverSegment i => ∃ m ∈ s.segments[i]?,
    (s.receiver.synchronize m).initialSeqNum.isSome = true ∧
      ReassemblerRuns.ClosesEarly D s.assembly (.insert (m.payloadStart - 1) m.payload m.FIN)
  | _ => False

instance (D : List Byte) (s : State) (op : Op) : Decidable (Driven D s op) :=
  match op with
  | .write _ | .close | .push | .maybeSend | .tick _ | .sendAck | .deliverSegment _ | .deliverAck _ |
    .read _ => by unfold Driven; infer_instance

instance (s : State) (op : Op) : Decidable (InReach s op) :=
  match op with
  | .write _ | .close | .push | .maybeSend | .tick _ | .sendAck | .deliverSegment _ | .deliverAck _ |
    .read _ => by unfold InReach; infer_instance

instance (D : List Byte) (s : State) (op : Op) : Decidable (FINOvertakes D s op) :=
  match op with
  | .write _ | .close | .push | .maybeSend | .tick _ | .sendAck | .deliverSegment _ | .deliverAck _ |
    .read _ => by unfold FINOvertakes; infer_instance

/-- The receiver has really assembled number `a`: SYN, a byte that was pushed, or FIN after
all of them. -/
def Assembled (D : List Byte) (s : State) (a : ℕ) : Prop :=
  s.receiver.initialSeqNum.isSome = true ∧
    (a ≤ s.inboundStream.bytesPushed ∨
      a = D.length + 1 ∧ s.inboundStream.bytesPushed = D.length ∧ s.inboundStream.isClosed = true)

instance (D : List Byte) (s : State) (a : ℕ) : Decidable (Assembled D s a) := by
  unfold Assembled; infer_instance

structure Delivers (D : List Byte) (tr : Trace) (s : State) : Prop where
  isPrefix : readBytes tr ++ s.inboundStream.peek = D.take s.inboundStream.bytesPushed
  dropped : ∀ e ∈ tr, ∀ m ∈ e.out.dropped, ∀ a, m.absolute ≤ a → a < m.absolute + m.sequenceLength →
    Assembled D e.before a
  closed : s.inboundStream.isClosed = true → s.inboundStream.bytesPushed = D.length

/-- The part of the invariant that lives at the receiver. `rtr` is the run of the reassembler
inside the run of the system, and `next` the sender's next number. -/
structure ReceiverInv (D : List Byte) (C : ℕ) (isn : Wrap32) (next : ℕ)
    (rtr : ReassemblerRuns.Trace) (receiver : TCPReceiver) (assembly : ReassemblerRuns.State) :
    Prop where
  inv : ReassemblerRuns.Inv D C rtr assembly
  closedAtEnd : ReassemblerRuns.ClosedAtEnd D rtr assembly
  isn : receiver.initialSeqNum = none ∨ receiver.initialSeqNum = some isn ∧ 0 < next
  first : receiver.firstUnassembledIndex = assembly.reassembler.firstUnassembledGlobalIndex
  finished : receiver.isFinished = true → assembly.output.isClosed = true
  sentFIN : (∃ e ∈ rtr, ReassemblerRuns.IsLast e.op) → D.length + 2 ≤ next

structure Inv (D : List Byte) (C : ℕ) (isn : Wrap32) (tr : Trace) (s : State)
    (rtr : ReassemblerRuns.Trace) : Prop where
  sender : FINInv D isn s.senderSide
  segments : ∀ m ∈ s.segments, Placed D isn s.sender.nextSeqno m ∧ (m.FIN = true → EndsStream D m)
  tiled : Tiled (s.segments.map interval) (ReassemblerRuns.received C rtr) s.senderSide
  receiver : ReceiverInv D C isn s.sender.nextSeqno rtr s.receiver s.assembly
  read : readBytes tr = D.take s.inboundStream.bytesPopped
  acks : ∀ ack ∈ s.acks, ∀ w ∈ ack.2.ackno, w = Wrap32.wrap ack.1 isn ∧
    ack.1 ≤ s.receiver.absoluteAckno ∧ s.receiver.initialSeqNum.isSome = true

variable {D : List Byte} {C : ℕ} {isn : Wrap32} {tr : Trace} {s s' : State} {op : Op}
  {out : Output} {rtr : ReassemblerRuns.Trace} {next next' : ℕ} {receiver : TCPReceiver}
  {assembly : ReassemblerRuns.State}

theorem readBytes_snoc (tr : Trace) (e : Event State Op Output) :
    readBytes (tr ++ [e]) = readBytes tr ++ e.out.bytes := by
  simp [readBytes]

theorem init_inv (D : List Byte) (outboundCapacity C RTO : ℕ) (isn : Wrap32) :
    Inv D C isn [] (init outboundCapacity C RTO isn) [] := by
  refine ⟨init_finInv D outboundCapacity RTO isn,by simp [init],?_,?_,rfl,by simp [init]⟩
  · exact Tiling.empty 0
  · exact ⟨ReassemblerRuns.init_inv D C,by
      simp [ReassemblerRuns.ClosedAtEnd,init,State.assembly],Or.inl rfl,rfl,by
      simp [init,TCPReceiver.new],by simp⟩

theorem ReceiverInv.mono (h : ReceiverInv D C isn next rtr receiver assembly)
    (hn : next ≤ next') : ReceiverInv D C isn next' rtr receiver assembly :=
  { h with
    isn := h.isn.imp id fun hs => ⟨hs.1,hs.2.trans_le hn⟩
    sentFIN := fun hl => (h.sentFIN hl).trans hn }

theorem ReceiverInv.absoluteAckno_le (h : ReceiverInv D C isn next rtr receiver assembly)
    (hsync : receiver.initialSeqNum.isSome = true)
    (hfilled : ∀ j ∈ ReassemblerRuns.received C rtr, j < next - 1) :
    receiver.absoluteAckno ≤ next := by
  have hpos : 0 < next := by
    rcases h.isn with hn | hs
    · simp [hn] at hsync
    · exact hs.2
  have hle := h.inv.tracks.first_le
  rw [TCPReceiver.absoluteAckno,h.first]
  cases hfin : receiver.isFinished with
  | true =>
    have hlast := (h.closedAtEnd.mp (h.finished hfin)).1
    have hsent := h.sentFIN hlast
    simp only [Bool.toNat_true]
    omega
  | false =>
    simp only [Bool.toNat_false]
    by_cases hz : assembly.reassembler.firstUnassembledGlobalIndex = 0
    · omega
    · have := hfilled _ (h.inv.tracks.below (j := assembly.reassembler.firstUnassembledGlobalIndex - 1)
        (by omega))
      omega

theorem ReceiverInv.assembled {s : State}
    (h : ReceiverInv D C isn next rtr s.receiver s.assembly)
    (hsync : s.receiver.initialSeqNum.isSome = true) {a : ℕ} (ha : a < s.receiver.absoluteAckno) :
    Assembled D s a := by
  refine ⟨hsync,?_⟩
  rw [TCPReceiver.absoluteAckno,h.first] at ha
  have hpushed : s.inboundStream.bytesPushed = s.reassembler.firstUnassembledGlobalIndex :=
    h.inv.tracks.pushed_eq
  change a < s.reassembler.firstUnassembledGlobalIndex + 1 + _ at ha
  cases hfin : s.receiver.isFinished with
  | true =>
    have hclosed : s.inboundStream.isClosed = true := h.finished hfin
    have hall : s.inboundStream.bytesPushed = D.length := (h.closedAtEnd.mp hclosed).2
    simp only [hfin,Bool.toNat_true] at ha
    by_cases hle : a ≤ s.inboundStream.bytesPushed
    · exact Or.inl hle
    · exact Or.inr ⟨by omega,hall,hclosed⟩
  | false =>
    simp only [hfin,Bool.toNat_false] at ha
    exact Or.inl (by omega)

def insertOp (m : TCPSenderMessage) : ReassemblerRuns.Op :=
  .insert (m.payloadStart - 1) m.payload m.FIN

theorem feeds_insertOp {m : TCPSenderMessage} (hm : Placed D isn next m) :
    ReassemblerRuns.Feeds D (insertOp m) := by
  have hpos := hm.payloadStart_pos
  have hin := hm.inside
  exact ⟨by omega,hm.payload⟩

/-- Segments that never overlap partially leave no stale bits. -/
theorem not_leavesStaleBits (hC : 0 < C) (hfit : D.length + C < 2^64)
    (hinv : ReassemblerRuns.Inv D C rtr assembly) {T : List Interval} {n : ℕ}
    (htile : Tiling T (ReassemblerRuns.received C rtr) n) {m : TCPSenderMessage}
    (hm : Placed D isn next m) (hmem : interval m ∈ T) :
    ¬ ReassemblerRuns.LeavesStaleBits assembly (insertOp m) := by
  obtain ⟨hlen,hdata⟩ := feeds_insertOp hm
  have hprep := hinv.tracks.prepare hC
  simp only [insertOp,ReassemblerRuns.LeavesStaleBits]
  rw [hdata]
  apply hprep.not_leavesStaleBits hfit hlen
  intro hle j hj hjlt
  exact htile.notMem_of_gap hmem hprep.gap hle hj hjlt

theorem synchronize_none {m : TCPSenderMessage}
    (h : (receiver.synchronize m).initialSeqNum = none) :
    m.SYN = false ∧ receiver.initialSeqNum = none := by
  unfold TCPReceiver.synchronize at h
  split at h
  · cases h
  · rename_i hsyn
    exact ⟨by simpa using hsyn,h⟩

theorem ReceiverInv.synchronize_some (h : ReceiverInv D C isn next rtr receiver assembly)
    {m : TCPSenderMessage} (hm : Placed D isn next m) {w : Wrap32}
    (hw : (receiver.synchronize m).initialSeqNum = some w) : w = isn := by
  unfold TCPReceiver.synchronize at hw
  split at hw
  · rename_i hsyn
    have hstart := hm.start
    rw [if_pos hsyn] at hstart
    have hseqno := hm.seqno
    rw [hstart,Wrap32.wrap_zero] at hseqno
    cases hw
    exact hseqno
  · rcases h.isn with hn | hs
    · simp [hn] at hw
    · rw [hs.1] at hw
      cases hw
      rfl

theorem ReceiverInv.receive (hC : 0 < C) (hfit : D.length + C < 2^64) {s : State}
    (h : ReceiverInv D C isn next rtr s.receiver s.assembly) {T : List Interval} {n : ℕ}
    (htile : Tiling T (ReassemblerRuns.received C rtr) n) {m : TCPSenderMessage}
    (hm : Placed D isn next m) (hmf : m.FIN = true → EndsStream D m) (hmem : interval m ∈ T)
    (hlo : s.reassembler.firstUnassembledGlobalIndex < m.payloadStart + 2^31)
    (hhi : m.payloadStart < s.reassembler.firstUnassembledGlobalIndex + 2^31)
    (hfar : D.length + 2^32 ≤ 2^64)
    (hearly : (s.receiver.synchronize m).initialSeqNum.isSome = true →
      ¬ ReassemblerRuns.ClosesEarly D s.assembly (insertOp m)) :
    ∃ receiver' r' inbound' rtr',
      s.receiver.receive m s.reassembler s.inboundStream = .ok (receiver',r',inbound') ∧
      ReceiverInv D C isn next rtr' receiver' ⟨r',inbound'⟩ ∧
      Tiling T (ReassemblerRuns.received C rtr') n ∧
      inbound'.bytesPopped = s.inboundStream.bytesPopped ∧
      s.receiver.absoluteAckno ≤ receiver'.absoluteAckno ∧
      (s.receiver.initialSeqNum.isSome = true → receiver'.initialSeqNum.isSome = true) := by
  cases hsync : (s.receiver.synchronize m).initialSeqNum with
  | none =>
    -- SYN has not arrived: the segment is ignored
    obtain ⟨hsyn,hnone⟩ := synchronize_none hsync
    exact ⟨s.receiver,s.reassembler,s.inboundStream,rtr,
      TCPReceiver.receive_unsynchronized hnone hsyn,h,htile,rfl,le_rfl,id⟩
  | some w =>
    obtain rfl : w = isn := h.synchronize_some hm hsync
    have hfeed := feeds_insertOp hm
    have hclean := not_leavesStaleBits hC hfit h.inv htile hm hmem
    have hgo := hearly (by simp [hsync])
    obtain ⟨a',hs,hinv,hclosed,hpop,-⟩ := h.inv.insert hC hfit hfeed hclean
    have hindex := TCPReceiver.streamIndex_eq hm.seqno hm.payloadStart_pos
      (show s.reassembler.firstUnassembledGlobalIndex + 2^32 ≤ 2^64 by
        have : s.reassembler.firstUnassembledGlobalIndex ≤ D.length := h.inv.tracks.first_le
        omega) hlo hhi
    have hinsert := ReassemblerRuns.step_insert hs
    obtain ⟨receiver',hrun,hisn,hfirst,hmeet,hfin⟩ :=
      TCPReceiver.receive_synchronized hsync hindex hinsert
    have hend := h.inv.insert_closedAtEnd hC hfit h.closedAtEnd hfeed hclean hgo hs
    refine ⟨receiver',a'.reassembler,a'.output,rtr ++ [⟨s.assembly,insertOp m,[]⟩],hrun,
      ⟨hinv,hend,Or.inr ⟨hisn,hm.lt.pos⟩,hfirst,?_,?_⟩,?_,hpop,?_,fun _ => by simp [hisn]⟩
    · intro hf
      change a'.output.isClosed = true
      rw [hfin,Bool.or_eq_true,Bool.and_eq_true] at hf
      rcases hf with hf | hf
      · rw [hclosed,h.finished hf]
        rfl
      · exact hf.2
    · rintro ⟨e,he,hlast⟩
      rcases List.mem_append.mp he with he | he
      · exact h.sentFIN ⟨e,he,hlast⟩
      · rw [List.mem_singleton.mp he] at hlast
        have hf : m.FIN = true := hlast
        have hends := hmf hf
        have hbelow := hm.below
        simp only [EndsStream,TCPSenderMessage.payloadStart] at hends
        simp only [TCPSenderMessage.sequenceLength,hf,Bool.toNat_true] at hbelow
        omega
    · apply htile.fill hmem (s.inboundStream.bytesPopped + C)
      intro j
      rw [ReassemblerRuns.received_snoc,insertOp,h.inv.arrivals_eq,Finset.mem_union,
        Reassembler.mem_delivered]
      rfl
    · have hle : s.reassembler.firstUnassembledGlobalIndex ≤
          a'.reassembler.firstUnassembledGlobalIndex := by
        apply h.inv.tracks.first_mono hinv.tracks
        rw [ReassemblerRuns.received_snoc]
        exact Finset.subset_union_left
      have hf : s.receiver.isFinished.toNat ≤ receiver'.isFinished.toNat := by
        rw [hfin]
        cases s.receiver.isFinished <;> simp
      have hold : s.receiver.firstUnassembledIndex =
        s.reassembler.firstUnassembledGlobalIndex := h.first
      rw [TCPReceiver.absoluteAckno,TCPReceiver.absoluteAckno,hfirst,hold]
      omega

theorem Inv.of_sender (h : Inv D C isn tr s rtr) (op : Op) (out : Output)
    {stream : ByteStream} {t : TCPSender}
    (hsender : FINInv D isn ⟨stream,t⟩) (hnext : s.sender.nextSeqno ≤ t.nextSeqno)
    (htiled : Tiled (s.segments.map interval) (ReassemblerRuns.received C rtr) ⟨stream,t⟩)
    (hout : out.bytes = []) :
    Inv D C isn (tr ++ [⟨s,op,out⟩]) { s with outboundStream := stream, sender := t } rtr := by
  refine ⟨hsender,?_,htiled,h.receiver.mono hnext,?_,h.acks⟩
  · intro m hm
    exact ⟨(h.segments m hm).1.mono hnext,(h.segments m hm).2⟩
  · rw [readBytes_snoc,hout,List.append_nil]
    exact h.read

theorem Inv.push (h : Inv D C isn tr s rtr) (hdriven : Driven D s .push) (hout : out.bytes = []) :
    Inv D C isn (tr ++ [⟨s,.push,out⟩])
      { s with
        outboundStream := (pushState s.senderSide).outboundStream
        sender := (pushState s.senderSide).sender } rtr := by
  obtain ⟨hnil,hfirst⟩ := hdriven
  have hstray : ¬ StrayFIN s.senderSide .push := by
    simp [StrayFIN,lastUnsent,State.senderSide,hnil]
  exact h.of_sender .push out (h.sender.push hfirst hstray) (push_next_le _ _)
    (h.tiled.push h.sender.numbering hfirst) hout

theorem Inv.maybeSend (h : Inv D C isn tr s rtr) (hout : out.bytes = []) :
    Inv D C isn (tr ++ [⟨s,.maybeSend,out⟩])
      { s with
        sender := s.sender.maybeSend.1
        segments := s.segments ++ s.sender.maybeSend.2.toList } rtr := by
  have hsender := h.sender.maybeSend
  have hnext := maybeSend_next_le s.sender
  have hbase := h.of_sender .maybeSend out hsender hnext
    (h.tiled.maybeSend h.sender.numbering) hout
  cases hm : s.sender.maybeSend.2 with
  | none =>
    simp only [Option.toList_none,List.append_nil]
    exact hbase
  | some m =>
    have hstep : SenderRuns.step s.senderSide .maybeSend =
        .ok ({ s.senderSide with sender := s.sender.maybeSend.1 },some m) := by
      rw [← hm]
      rfl
    have hmem : m ∈ s.sender.maybeSend.1.outstanding :=
      h.sender.numbering.returned_outstanding hstep
    refine ⟨hsender,?_,?_,hbase.receiver,hbase.read,hbase.acks⟩
    · intro x hx
      rcases List.mem_append.mp hx with hx | hx
      · exact hbase.segments x hx
      · obtain rfl := List.mem_singleton.mp hx
        exact ⟨hsender.numbering.placed x hmem,hsender.atEnd x hmem⟩
    · apply Tiling.mono hbase.tiled _ le_rfl
      intro a ha
      simp only [Option.toList_some,List.map_append,List.map_cons,List.map_nil,List.mem_append,
        List.mem_singleton] at ha
      rcases ha with (ha | rfl) | ha
      · exact List.mem_append_left _ ha
      · exact List.mem_append_right _ (List.mem_map_of_mem hmem)
      · exact List.mem_append_right _ ha

theorem Inv.sendAck (h : Inv D C isn tr s rtr) (hout : out.bytes = []) :
    Inv D C isn (tr ++ [⟨s,.sendAck,out⟩])
      { s with acks := s.acks ++ [(s.receiver.absoluteAckno,s.receiver.send s.inboundStream)] }
      rtr := by
  refine ⟨h.sender,h.segments,h.tiled,h.receiver,?_,?_⟩
  · rw [readBytes_snoc,hout,List.append_nil]
    exact h.read
  · intro ack hack w hw
    rcases List.mem_append.mp hack with hack | hack
    · exact h.acks ack hack w hw
    · rw [List.mem_singleton.mp hack] at hw ⊢
      rcases h.receiver.isn with hn | hs
      · simp [TCPReceiver.send,hn] at hw
      · simp only [TCPReceiver.send,hs.1,Option.map_some,Option.mem_def,Option.some.injEq] at hw
        exact ⟨hw.symm,le_rfl,by simp [hs.1]⟩

theorem Inv.read_step (h : Inv D C isn tr s rtr) (len : ℕ)
    (hout : out.bytes = s.inboundStream.peek.take len) :
    Inv D C isn (tr ++ [⟨s,.read len,out⟩])
      { s with inboundStream := s.inboundStream.pop len }
      (rtr ++ [⟨s.assembly,.pop len,s.inboundStream.peek.take len⟩]) := by
  have hinv := h.receiver.inv.pop len
  have hnone : ReassemblerRuns.received C (rtr ++ [⟨s.assembly,.pop len,
      s.inboundStream.peek.take len⟩]) = ReassemblerRuns.received C rtr := by
    rw [ReassemblerRuns.received_snoc]
    exact Finset.union_empty _
  refine ⟨h.sender,h.segments,?_,⟨hinv,ReassemblerRuns.Inv.pop_closedAtEnd h.receiver.closedAtEnd len,
    h.receiver.isn,h.receiver.first,h.receiver.finished,?_⟩,?_,h.acks⟩
  · rw [hnone]
    exact h.tiled
  · rintro ⟨e,he,hlast⟩
    rcases List.mem_append.mp he with he | he
    · exact h.receiver.sentFIN ⟨e,he,hlast⟩
    · rw [List.mem_singleton.mp he] at hlast
      cases hlast
  · have hpopped := hinv.popped
    rw [ReassemblerRuns.poppedBytes_snoc,h.receiver.inv.popped] at hpopped
    rw [readBytes_snoc,h.read,hout]
    exact hpopped

theorem Inv.deliverSegment (hC : 0 < C) (hfit : D.length + C < 2^64)
    (hD : 2*D.length + 2^33 ≤ 2^64) (h : Inv D C isn tr s rtr) {i : ℕ}
    (hreach : InReach s (.deliverSegment i)) (hfin : ¬ FINOvertakes D s (.deliverSegment i))
    (hs : step s (.deliverSegment i) = .ok (s',out)) :
    ∃ rtr', Inv D C isn (tr ++ [⟨s,.deliverSegment i,out⟩]) s' rtr' ∧ out.dropped = [] := by
  simp only [step] at hs
  cases hm : s.segments[i]? with
  | none =>
    rw [hm] at hs
    cases hs
    refine ⟨rtr,⟨h.sender,h.segments,h.tiled,h.receiver,?_,h.acks⟩,rfl⟩
    rw [readBytes_snoc,List.append_nil]
    exact h.read
  | some m =>
    have hmem := List.mem_of_getElem? hm
    obtain ⟨hplaced,hends⟩ := h.segments m hmem
    obtain ⟨hlo,hhi⟩ := hreach m hm
    obtain ⟨receiver',r',inbound',rtr',hrun,hrec,htile,hpop,hack,hsync⟩ :=
      h.receiver.receive hC hfit h.tiled hplaced hends
        (List.mem_append_left _ (List.mem_map_of_mem hmem)) hlo hhi (by omega)
        (fun hsync hearly => hfin ⟨m,hm,hsync,hearly⟩)
    simp only [hm,hrun,bind,Except.bind,Except.ok.injEq,Prod.mk.injEq] at hs
    obtain ⟨rfl,rfl⟩ := hs
    refine ⟨rtr',⟨h.sender,h.segments,htile,hrec,?_,?_⟩,rfl⟩
    · rw [readBytes_snoc,List.append_nil]
      change _ = D.take inbound'.bytesPopped
      rw [hpop]
      exact h.read
    · intro ack ha w hw
      obtain ⟨hwrap,hle,hsome⟩ := h.acks ack ha w hw
      exact ⟨hwrap,hle.trans hack,hsync hsome⟩

theorem Inv.deliverAck (hD : 2*D.length + 2^33 ≤ 2^64) (h : Inv D C isn tr s rtr) {i : ℕ}
    (hreach : InReach s (.deliverAck i)) (hs : step s (.deliverAck i) = .ok (s',out)) :
    Inv D C isn (tr ++ [⟨s,.deliverAck i,out⟩]) s' rtr ∧
      ∀ m ∈ out.dropped, ∀ a, m.absolute ≤ a → a < m.absolute + m.sequenceLength →
        Assembled D s a := by
  simp only [step] at hs
  cases hm : s.acks[i]? with
  | none =>
    rw [hm] at hs
    cases hs
    refine ⟨⟨h.sender,h.segments,h.tiled,h.receiver,?_,h.acks⟩,by simp⟩
    rw [readBytes_snoc,List.append_nil]
    exact h.read
  | some ack =>
    have hmem := List.mem_of_getElem? hm
    have hnear := hreach ack hm
    rw [hm] at hs
    obtain ⟨t,ht,hret⟩ := bind_ok.mp hs
    cases hret
    obtain ⟨hsame,-,dropped,hsplit,hall⟩ := receive_ok ht
    have hbase := h.of_sender (.deliverAck i)
      ⟨[],s.sender.unackedMsgs.take (s.sender.unackedMsgs.length - t.unackedMsgs.length)⟩
      (h.sender.of_subperm hsame (receive_subperm ht)) hsame.next.ge
      (h.tiled.of_subperm hsame.next.ge (receive_subperm ht)) rfl
    refine ⟨hbase,?_⟩
    intro m hmd a hlo hhi
    have hdropped : s.sender.unackedMsgs.take
        (s.sender.unackedMsgs.length - t.unackedMsgs.length) = dropped := by
      rw [hsplit]
      simp
    rw [hdropped] at hmd
    obtain ⟨w,hw,-,hcover⟩ := hall m hmd
    obtain ⟨hwrap,hle,hsync⟩ := h.acks ack hmem w hw
    have hisn : s.sender.isn = isn := h.sender.numbering.isn_eq
    have hnext : s.sender.nextSeqno ≤ D.length + 2 := h.sender.numbering.next_le
    have hknown := h.receiver.absoluteAckno_le hsync h.tiled.filled
    have hout : m ∈ s.sender.outstanding := by
      rw [outstanding,hsplit]
      simp [hmd]
    rw [hisn,hwrap,Wrap32.unwrap_wrap isn (by omega) hnear (by omega)] at hcover
    have hcov := (h.sender.numbering.placed m hout).covered hnext hD hcover
    exact h.receiver.assembled hsync (by omega)

/-- One step: the invariant, and what the step drops. -/
theorem Inv.step (hC : 0 < C) (hfit : D.length + C < 2^64) (hD : 2*D.length + 2^33 ≤ 2^64)
    (h : Inv D C isn tr s rtr) (hdriven : Driven D s op) (hreach : InReach s op)
    (hfin : ¬ FINOvertakes D s op) (hs : EndToEnd.step s op = .ok (s',out)) :
    (∃ rtr', Inv D C isn (tr ++ [⟨s,op,out⟩]) s' rtr') ∧
      ∀ m ∈ out.dropped, ∀ a, m.absolute ≤ a → a < m.absolute + m.sequenceLength →
        Assembled D s a := by
  cases op with
  | write data =>
    cases hs
    exact ⟨⟨rtr,h.of_sender _ _ ⟨h.sender.numbering.write hdriven,h.sender.none,h.sender.atEnd⟩ le_rfl
      h.tiled rfl⟩,by simp⟩
  | close =>
    cases hs
    exact ⟨⟨rtr,h.of_sender _ _ ⟨h.sender.numbering.close hdriven,h.sender.none,h.sender.atEnd⟩ le_rfl
      h.tiled rfl⟩,by simp⟩
  | push =>
    cases hs
    exact ⟨⟨rtr,h.push hdriven rfl⟩,by simp⟩
  | maybeSend =>
    cases hs
    exact ⟨⟨rtr,h.maybeSend rfl⟩,by simp⟩
  | tick ms =>
    obtain ⟨t,ht,hret⟩ := bind_ok.mp hs
    cases hret
    have hsub := (tick_perm ht).subperm
    have hsame := (tick_ok ht).1
    exact ⟨⟨rtr,h.of_sender _ _ (h.sender.of_subperm hsame hsub) hsame.next.ge
      (h.tiled.of_subperm hsame.next.ge hsub) rfl⟩,by simp⟩
  | sendAck =>
    cases hs
    exact ⟨⟨rtr,h.sendAck rfl⟩,by simp⟩
  | deliverSegment i =>
    obtain ⟨rtr',hinv,hnone⟩ := h.deliverSegment hC hfit hD hreach hfin hs
    exact ⟨⟨rtr',hinv⟩,by simp [hnone]⟩
  | deliverAck i =>
    obtain ⟨hinv,hdropped⟩ := h.deliverAck hD hreach hs
    exact ⟨⟨rtr,hinv⟩,hdropped⟩
  | read len =>
    cases hs
    exact ⟨⟨_,h.read_step len rfl⟩,by simp⟩

/-- As long as no FIN overtakes lost data, whatever the network does, the receiver gets a prefix
of `D`, the sender only drops what is assembled, and the end of the stream is the end of `D`. -/
theorem end_to_end_delivery {outboundCapacity RTO : ℕ} (hC : 0 < C) (hfit : D.length + C < 2^64)
    (hD : 2*D.length + 2^33 ≤ 2^64) (hr : Run step (init outboundCapacity C RTO isn) tr s)
    (hdriven : ∀ e ∈ tr, Driven D e.before e.op) (hreach : ∀ e ∈ tr, InReach e.before e.op)
    (hfin : ∀ e ∈ tr, ¬ FINOvertakes D e.before e.op) : Delivers D tr s := by
  obtain ⟨⟨rtr,hinv⟩,hdropped⟩ := Run.history_invariant
    (fun tr s => (∃ rtr, Inv D C isn tr s rtr) ∧ ∀ e ∈ tr, ∀ m ∈ e.out.dropped, ∀ a,
      m.absolute ≤ a → a < m.absolute + m.sequenceLength → Assembled D e.before a)
    (fun e => Driven D e.before e.op ∧ InReach e.before e.op ∧
      ¬ FINOvertakes D e.before e.op)
    ⟨⟨[],init_inv D outboundCapacity C RTO isn⟩,by simp⟩
    (by
      rintro tr s s' op out ⟨⟨rtr,hi⟩,hall⟩ ⟨hd,hr,hf⟩ hs
      obtain ⟨hi',hnew⟩ := hi.step hC hfit hD hd hr hf hs
      refine ⟨hi',?_⟩
      intro e he
      rcases List.mem_append.mp he with he | he
      · exact hall e he
      · rw [List.mem_singleton.mp he]
        exact hnew)
    hr (fun e he => ⟨hdriven e he,hreach e he,hfin e he⟩)
  refine ⟨?_,hdropped,fun hclosed => (hinv.receiver.closedAtEnd.mp hclosed).2⟩
  have hp := hinv.receiver.inv.tracks.stream.pushed_eq
  change s.inboundStream.bytesPushed = _ at hp
  rw [hinv.read,show s.inboundStream.peek = _ from hinv.receiver.inv.tracks.content,hp,List.take_add]
  rfl

/-- Two segments that arrive in the wrong order, one of them twice, and are acknowledged. -/
theorem end_to_end_delivery_reordered : ∃ tr s, Run step (init 8 4 1000 ⟨7⟩) tr s ∧
    s.inboundStream.isClosed = true ∧ s.sender.unackedMsgs = [] ∧ Delivers [10,11] tr s := by
  obtain ⟨tr,s,hr,hclosed,hnil,hdriven,hreach,hfin⟩ := Run.exists_of_exec step (init 8 4 1000 ⟨7⟩)
    [.maybeSend,.deliverSegment 0,.sendAck,.deliverAck 0,.write [10],.push,.maybeSend,
      .write [11],.close,.push,.maybeSend,.deliverSegment 2,.deliverSegment 1,.deliverSegment 2,
      .sendAck,.deliverAck 1,.read 1]
    (fun tr s => s.inboundStream.isClosed = true ∧ s.sender.unackedMsgs = [] ∧
      (∀ e ∈ tr, Driven [10,11] e.before e.op) ∧ (∀ e ∈ tr, InReach e.before e.op) ∧
      ∀ e ∈ tr, ¬ FINOvertakes [10,11] e.before e.op) (by decide +kernel)
  exact ⟨tr,s,hr,hclosed,hnil,end_to_end_delivery (by decide) (by decide) (by decide) hr hdriven
    hreach hfin⟩

/-- FIN overtakes the only byte: the inbound stream closes empty, and the ackno makes the sender
drop the byte. -/
theorem fin_overtakes_data : ∃ D tr s, Run step (init 8 4 1000 ⟨7⟩) tr s ∧
    (∀ e ∈ tr, Driven D e.before e.op) ∧ (∀ e ∈ tr, InReach e.before e.op) ∧
    s.inboundStream.isClosed = true ∧ s.inboundStream.bytesPushed ≠ D.length ∧
    ∃ e ∈ tr, ∃ m ∈ e.out.dropped, ¬ Assembled D e.before m.absolute := by
  obtain ⟨tr,s,hr,hdriven,hreach,hbad⟩ := Run.exists_of_exec step (init 8 4 1000 ⟨7⟩)
    [.maybeSend,.deliverSegment 0,.sendAck,.deliverAck 0,.write [10],.push,.maybeSend,.close,
      .push,.maybeSend,.deliverSegment 2,.sendAck,.deliverAck 1]
    (fun tr s => (∀ e ∈ tr, Driven [10] e.before e.op) ∧ (∀ e ∈ tr, InReach e.before e.op) ∧
      s.inboundStream.isClosed = true ∧ s.inboundStream.bytesPushed ≠ 1 ∧
      ∃ e ∈ tr, ∃ m ∈ e.out.dropped, ¬ Assembled [10] e.before m.absolute) (by decide +kernel)
  exact ⟨[10],tr,s,hr,hdriven,hreach,hbad⟩

end EndToEnd
end Minnow
