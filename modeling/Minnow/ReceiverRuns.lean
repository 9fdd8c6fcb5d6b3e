import Minnow.ReassemblerSafety
import Minnow.TCPReceiver

/-! Runs of a receiver with its reassembler and its inbound stream, on arbitrary segments:
what it acknowledges and the right edge of its window only grow. -/
namespace Minnow
namespace ReceiverRuns

open Library

structure State where
  receiver : TCPReceiver
  reassembler : Reassembler
  inbound : ByteStream
  deriving DecidableEq, Repr

inductive Op
  | receive (message : TCPSenderMessage)
  | pop (len : ℕ)
  | send
  deriving DecidableEq, Repr

def init (capacity : ℕ) : State := ⟨TCPReceiver.new,Reassembler.new,ByteStream.new capacity⟩

def step (s : State) : Op → Except Fault (State × Option TCPReceiverMessage)
  | .receive message =>
    match s.receiver.receive message s.reassembler s.inbound with
    | .error f => .error f
    | .ok (receiver,reassembler,inbound) => .ok (⟨receiver,reassembler,inbound⟩,none)
  | .pop len => .ok ({ s with inbound := s.inbound.pop len },none)
  | .send => .ok (s,some (s.receiver.send s.inbound))

abbrev Trace := List (Event State Op (Option TCPReceiverMessage))

/-- Every SYN carries `isn`, and a payload is no longer than 64 bits can count. -/
def Segment (isn : Wrap32) : Op → Prop
  | .receive message =>
    (message.SYN = true → message.seqno = isn) ∧ message.payload.length < 2^64
  | _ => True

instance (isn : Wrap32) (op : Op) : Decidable (Segment isn op) :=
  match op with
  | .receive _ | .pop _ | .send => by unfold Segment; infer_instance

variable {tr : Trace} {s s' : State} {op : Op} {out : Option TCPReceiverMessage} {isn : Wrap32}

/-- The first number that the window does not cover. -/
def rightEdge (s : State) : ℕ :=
  s.receiver.absoluteAckno + min s.inbound.availableCapacity 65535

structure Inv (isn : Wrap32) (s : State) : Prop where
  sound : s.reassembler.Sound
  stream : s.inbound.WF
  capacity_lt : s.inbound.capacity < 2^64
  isn_eq : s.receiver.initialSeqNum = none ∨ s.receiver.initialSeqNum = some isn
  cached : s.receiver.firstUnassembledIndex = s.reassembler.firstUnassembledGlobalIndex

structure Grows (s s' : State) : Prop where
  synchronized : s.receiver.initialSeqNum ≠ none → s'.receiver.initialSeqNum ≠ none
  ackno : s.receiver.absoluteAckno ≤ s'.receiver.absoluteAckno
  edge : rightEdge s ≤ rightEdge s'

theorem Grows.refl (s : State) : Grows s s := ⟨id,le_rfl,le_rfl⟩

theorem Grows.trans {s'' : State} (h : Grows s s') (h' : Grows s' s'') : Grows s s'' :=
  ⟨fun hs => h'.synchronized (h.synchronized hs),h.ackno.trans h'.ackno,h.edge.trans h'.edge⟩

theorem init_inv {C : ℕ} (hC : C < 2^64) (isn : Wrap32) : Inv isn (init C) :=
  ⟨Reassembler.new_sound,ByteStream.new_wf C,hC,Or.inl rfl,rfl⟩

theorem Inv.available_lt (h : Inv isn s) : s.inbound.availableCapacity < 2^64 := by
  have hav := h.stream.available
  have hcap := h.capacity_lt
  omega

/-- An arbitrary segment: the call succeeds, and what the window loses the ackno gains. -/
theorem Inv.receive (h : Inv isn s) {message : TCPSenderMessage}
    (hseg : Segment isn (.receive message)) :
    ∃ s', step s (.receive message) = .ok (s',none) ∧ Inv isn s' ∧ Grows s s' := by
  obtain ⟨hsyn,hlen⟩ := hseg
  have hisn : (s.receiver.synchronize message).initialSeqNum = none ∧ message.SYN = false ∧
        s.receiver.initialSeqNum = none ∨
      (s.receiver.synchronize message).initialSeqNum = some isn := by
    unfold TCPReceiver.synchronize
    cases hs : message.SYN with
    | true => exact Or.inr (congrArg some (hsyn hs))
    | false =>
      rcases h.isn_eq with hnone | hsome
      · exact Or.inl ⟨hnone,rfl,hnone⟩
      · exact Or.inr hsome
  rcases hisn with ⟨-,hplain,hnone⟩ | hsome
  · refine ⟨s,?_,h,Grows.refl s⟩
    simp only [step,TCPReceiver.receive_unsynchronized hnone hplain]
  · have hindex : ∀ n, u64Sub n 1 < 2^64 := fun n => Nat.mod_lt _ (by decide)
    obtain ⟨r',bytes,hrun,-,hsound,hfirst⟩ :=
      h.sound.insert h.available_lt (hindex _) hlen message.FIN
    obtain ⟨rcv',hrcv,hisn',hcached,-,hfin⟩ := TCPReceiver.receive_synchronized hsome rfl hrun
    have hwf := ByteStream.push_wf h.stream bytes
    have hav := ByteStream.push_available h.stream bytes
    have hacked : s.receiver.absoluteAckno + min bytes.length s.inbound.availableCapacity ≤
        rcv'.absoluteAckno := by
      have hold := h.cached
      have hmono : s.receiver.isFinished.toNat ≤ rcv'.isFinished.toNat := by
        rw [hfin]
        cases s.receiver.isFinished <;> simp
      simp only [TCPReceiver.absoluteAckno]
      omega
    refine ⟨⟨rcv',r',r'.closeOutput (s.inbound.push bytes)⟩,?_,
      ⟨hsound,r'.closeOutput_wf hwf,?_,Or.inr hisn',hcached⟩,?_,?_,?_⟩
    · simp only [step,hrcv]
    · simpa using h.capacity_lt
    · intro _
      simp [hisn']
    · change _ ≤ rcv'.absoluteAckno
      omega
    · simp only [rightEdge,Reassembler.closeOutput_availableCapacity,hav]
      omega

theorem Inv.step_ok (h : Inv isn s) (hseg : Segment isn op) :
    ∃ s' out, step s op = .ok (s',out) ∧ Inv isn s' ∧ Grows s s' := by
  cases op with
  | receive message =>
    obtain ⟨s',hs,hinv,hgrows⟩ := h.receive hseg
    exact ⟨s',none,hs,hinv,hgrows⟩
  | pop len =>
    have hav := ByteStream.pop_available h.stream len
    refine ⟨_,none,rfl,⟨h.sound,ByteStream.pop_wf h.stream len,h.capacity_lt,h.isn_eq,h.cached⟩,
      id,le_rfl,?_⟩
    simp only [rightEdge]
    omega
  | send => exact ⟨s,_,rfl,h,Grows.refl s⟩

theorem Inv.step (h : Inv isn s) (hseg : Segment isn op) (hs : step s op = .ok (s',out)) :
    Inv isn s' ∧ Grows s s' := by
  obtain ⟨s₁,out₁,hs₁,hinv,hgrows⟩ := h.step_ok hseg
  rw [hs₁] at hs
  cases hs
  exact ⟨hinv,hgrows⟩

/-- A message carries the ackno and the window of the state it was made in. -/
structure Carries (isn : Wrap32) (s : State) (m : TCPReceiverMessage) : Prop where
  ackno : m.ackno = none ∧ s.receiver.initialSeqNum = none ∨
    m.ackno = some (Wrap32.wrap s.receiver.absoluteAckno isn) ∧ s.receiver.initialSeqNum = some isn
  window : m.windowSize.toNat = min s.inbound.availableCapacity 65535

theorem Inv.carries (h : Inv isn s) (hs : ReceiverRuns.step s op = .ok (s',out)) :
    ∀ m ∈ out, Carries isn s m := by
  cases op with
  | receive message =>
    simp only [ReceiverRuns.step] at hs
    split at hs
    · cases hs
    · cases hs
      simp
  | pop len =>
    cases hs
    simp
  | send =>
    cases hs
    rintro m ⟨⟩
    refine ⟨?_,UInt16.toNat_ofNat_of_lt' (by change _ < 65536; omega)⟩
    rcases h.isn_eq with hnone | hsome
    · exact Or.inl ⟨by simp [TCPReceiver.send,hnone],hnone⟩
    · exact Or.inr ⟨by simp [TCPReceiver.send,hsome],hsome⟩

/-- On any segments, in any order, every call succeeds; and of two messages made after the SYN the
later one has no smaller ackno and no smaller right edge. -/
theorem never_taken_back {C : ℕ} (hC : C < 2^64) (hr : Run ReceiverRuns.step (init C) tr s)
    (hsegs : ∀ e ∈ tr, Segment isn e.op) :
    (∀ op, Segment isn op → ∃ s' out, ReceiverRuns.step s op = .ok (s',out)) ∧
    tr.Pairwise fun e₁ e₂ => ∀ m₁ ∈ e₁.out, ∀ m₂ ∈ e₂.out, m₁.ackno ≠ none →
      m₁.ackno = some (Wrap32.wrap e₁.before.receiver.absoluteAckno isn) ∧
      m₂.ackno = some (Wrap32.wrap e₂.before.receiver.absoluteAckno isn) ∧
      e₁.before.receiver.absoluteAckno ≤ e₂.before.receiver.absoluteAckno ∧
      e₁.before.receiver.absoluteAckno + m₁.windowSize.toNat ≤
        e₂.before.receiver.absoluteAckno + m₂.windowSize.toNat := by
  obtain ⟨hinv,-,hpairs⟩ := Run.monotone (Inv isn) (fun e => Segment isn e.op) Grows Grows.trans
    (init_inv hC isn) (fun hi hg hs => hi.step hg hs) hr hsegs
  obtain ⟨-,hcarries⟩ := Run.forall_events (Inv isn) (fun e => Segment isn e.op)
    (fun e => ∀ m ∈ e.out, Carries isn e.before m) (init_inv hC isn)
    (fun hi hg hs => ⟨(hi.step hg hs).1,hi.carries hs⟩) hr hsegs
  refine ⟨fun op hop => ?_,hpairs.imp_of_mem ?_⟩
  · obtain ⟨s',out,hs,-⟩ := hinv.step_ok hop
    exact ⟨s',out,hs⟩
  · intro e₁ e₂ he₁ he₂ hgrows m₁ hm₁ m₂ hm₂ hack
    have h₁ := hcarries e₁ he₁ m₁ hm₁
    have h₂ := hcarries e₂ he₂ m₂ hm₂
    obtain ⟨hack₁,hsyn₁⟩ := h₁.ackno.resolve_left fun hnone => hack hnone.1
    have hsyn₂ := hgrows.synchronized (by simp [hsyn₁])
    obtain ⟨hack₂,-⟩ := h₂.ackno.resolve_left fun hnone => hsyn₂ hnone.2
    have hedge := hgrows.edge
    simp only [rightEdge] at hedge
    exact ⟨hack₁,hack₂,hgrows.ackno,by rw [h₁.window,h₂.window]; exact hedge⟩

theorem never_taken_back_finished : ∃ tr s, Run ReceiverRuns.step (init 4) tr s ∧
    tr.map (fun e => e.out.map fun m => m.windowSize.toNat) =
      [none,some 4,none,some 4,none,some 2,none,some 3] ∧
    s.receiver.absoluteAckno = 4 ∧ ∀ op, Segment ⟨7⟩ op → ∃ s' out, step s op = .ok (s',out) := by
  obtain ⟨tr,s,hr,hwindows,hack,hsegs⟩ := Run.exists_of_exec ReceiverRuns.step (init 4)
    [.receive ⟨⟨7⟩,true,[],false,0⟩,.send,.receive ⟨⟨9⟩,false,[11],true,0⟩,.send,
      .receive ⟨⟨8⟩,false,[10],false,0⟩,.send,.pop 1,.send]
    (fun tr s => tr.map (fun e => e.out.map fun m => m.windowSize.toNat) =
        [none,some 4,none,some 4,none,some 2,none,some 3] ∧
      s.receiver.absoluteAckno = 4 ∧ ∀ e ∈ tr, Segment ⟨7⟩ e.op) (by decide +kernel)
  exact ⟨tr,s,hr,hwindows,hack,(never_taken_back (by decide) hr hsegs).1⟩

end ReceiverRuns
end Minnow
