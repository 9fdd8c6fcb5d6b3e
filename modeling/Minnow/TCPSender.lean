import Mathlib.Data.List.TakeWhile
import Minnow.ByteStream
import Minnow.TCPMessages

/-! The TCP sender: segmentation, first transmission, acknowledgment and timeout.
The members' names are those of the class; `nextSeqno` is the 64-bit counter. -/
namespace Minnow

structure Timer where
  isOn : Bool
  initialRTO : ℕ
  RTO : ℕ
  timeout : ℕ
  deriving DecidableEq, Repr

namespace Timer

def new (RTO : ℕ) : Timer := ⟨false,RTO,RTO,RTO⟩

def tick (t : Timer) (msSinceLastTick : ℕ) : Timer :=
  { t with timeout := if t.timeout ≤ msSinceLastTick then 0 else t.timeout - msSinceLastTick }

def hasExpired (t : Timer) : Except Fault Bool :=
  if t.isOn then .ok (t.timeout == 0) else .error .assertion

def doubleRTO (t : Timer) : Except Fault Timer :=
  if t.isOn then .ok { t with RTO := u64 (t.RTO*2) } else .error .assertion

def resetRTO (t : Timer) : Except Fault Timer :=
  if t.isOn then .ok { t with RTO := t.initialRTO } else .error .assertion

def start (t : Timer) : Timer := { t with isOn := true, timeout := t.RTO }

def stop (t : Timer) : Timer := { t with isOn := false }

/-- The code starts the timer only when it is off. -/
def ensureStarted (t : Timer) : Timer := if t.isOn then t else t.start

@[simp] theorem start_isOn (t : Timer) : t.start.isOn = true := rfl
@[simp] theorem stop_isOn (t : Timer) : t.stop.isOn = false := rfl
@[simp] theorem tick_isOn (t : Timer) (ms : ℕ) : (t.tick ms).isOn = t.isOn := rfl

@[simp] theorem ensureStarted_isOn (t : Timer) : t.ensureStarted.isOn = true := by
  unfold ensureStarted
  split_ifs with h
  · exact h
  · rfl

theorem tick_timeout_eq_zero (t : Timer) (ms : ℕ) : (t.tick ms).timeout = 0 ↔ t.timeout ≤ ms := by
  simp only [tick]
  split_ifs <;> omega

end Timer

structure TCPSender where
  isn : Wrap32
  hasNotSentSYN : Bool
  hasNotSentFIN : Bool
  streamIsFinished : Bool
  zeroWindowSizeSpecialCaseFlag : Bool
  unsentMsgs : List TCPSenderMessageWrapper
  unackedMsgs : List TCPSenderMessage
  unsentSeqnos : UInt32
  unackedSeqnos : UInt32
  nextSeqno : ℕ
  windowSize : UInt16
  consecutiveRetransmissionNum : UInt32
  timer : Timer
  deriving DecidableEq, Repr

namespace TCPSender

def new (initialRTO : ℕ) (isn : Wrap32) : TCPSender where
  isn := isn
  hasNotSentSYN := true
  hasNotSentFIN := true
  streamIsFinished := false
  zeroWindowSizeSpecialCaseFlag := false
  unsentMsgs := []
  unackedMsgs := []
  unsentSeqnos := 0
  unackedSeqnos := 0
  nextSeqno := 0
  windowSize := 1
  consecutiveRetransmissionNum := 0
  timer := Timer.new initialRTO

def sequenceNumbersInFlight (s : TCPSender) : UInt32 := s.unsentSeqnos + s.unackedSeqnos

def consecutiveRetransmissions (s : TCPSender) : UInt32 := s.consecutiveRetransmissionNum

/-- The condition under which `maybe_send` and `push` go on. -/
def windowAllows (s : TCPSender) : Bool :=
  s.windowSize == 0 && s.zeroWindowSizeSpecialCaseFlag ||
    decide (s.unackedSeqnos + s.unsentSeqnos < s.windowSize.toUInt32)

def canSendFIN (s : TCPSender) : Bool := s.hasNotSentFIN && s.streamIsFinished

/-- The message without payload that carries SYN or FIN or both. -/
def flagMessage (s : TCPSender) : TCPSenderMessage where
  seqno := Wrap32.wrap s.nextSeqno s.isn
  SYN := s.hasNotSentSYN
  payload := []
  FIN := s.canSendFIN
  absolute := s.nextSeqno

/-- `maybe_send` when nothing is queued but a flag is due. -/
def sendFlagMessage (s : TCPSender) : TCPSender :=
  { s with
    nextSeqno := s.nextSeqno + (s.hasNotSentSYN.toNat + s.canSendFIN.toNat)
    unackedSeqnos := s.unackedSeqnos + UInt32.ofNat (s.hasNotSentSYN.toNat + s.canSendFIN.toNat)
    unackedMsgs := s.unackedMsgs ++ [s.flagMessage]
    hasNotSentSYN := false
    hasNotSentFIN := !s.canSendFIN
    zeroWindowSizeSpecialCaseFlag := s.zeroWindowSizeSpecialCaseFlag && s.windowSize != 0
    timer := s.timer.ensureStarted }

/-- The queued message as it goes out: it takes SYN along if that is unsent. -/
def carrySYN (s : TCPSender) (msg : TCPSenderMessage) : TCPSenderMessage :=
  if s.hasNotSentSYN then { msg with SYN := true } else msg

/-- `maybe_send` when a message is queued. -/
def sendUnsent (s : TCPSender) (wrapper : TCPSenderMessageWrapper)
    (rest : List TCPSenderMessageWrapper) : TCPSender :=
  let msg := s.carrySYN wrapper.msg
  { s with
    hasNotSentSYN := false
    unsentSeqnos := s.unsentSeqnos - UInt32.ofNat msg.sequenceLength
    unackedSeqnos := s.unackedSeqnos + UInt32.ofNat msg.sequenceLength
    unsentMsgs := rest
    unackedMsgs := if wrapper.isRetransmitted then msg::s.unackedMsgs else s.unackedMsgs ++ [msg]
    timer := s.timer.ensureStarted }

def maybeSend (s : TCPSender) : TCPSender × Option TCPSenderMessage :=
  match s.unsentMsgs with
  | [] =>
    if (s.hasNotSentSYN || s.canSendFIN) && s.windowAllows then
      (s.sendFlagMessage,some s.flagMessage)
    else (s,none)
  | wrapper::rest => (s.sendUnsent wrapper rest,some (s.carrySYN wrapper.msg))

/-- How much one segment may carry: one byte into a closed window, what is free in an open
one, and never more than the maximal payload. -/
def segmentSize (s : TCPSender) : ℕ :=
  let room : UInt32 :=
    if s.windowSize = 0 then 1 else s.windowSize.toUInt32 - s.unackedSeqnos - s.unsentSeqnos
  if TCPConfig.maxPayloadSize < room then TCPConfig.maxPayloadSize.toNat else room.toNat

def dataMessage (s : TCPSender) (payload : List Byte) : TCPSenderMessage :=
  ⟨Wrap32.wrap s.nextSeqno s.isn,false,payload,false,s.nextSeqno⟩

/-- One round of the loop in `push`: queue a segment for `payload`. -/
def emplaceSegment (s : TCPSender) (payload : List Byte) : TCPSender :=
  { s with
    unsentMsgs := s.unsentMsgs ++ [⟨s.dataMessage payload,false⟩]
    unsentSeqnos := s.unsentSeqnos + UInt32.ofNat payload.length
    nextSeqno := s.nextSeqno + payload.length
    zeroWindowSizeSpecialCaseFlag := s.zeroWindowSizeSpecialCaseFlag && s.windowSize != 0 }

/-- The loop in `push`. `data` is what is left of the view taken at its start; every round
takes at least one byte of it. -/
def segment : ℕ → TCPSender → ByteStream → List Byte → TCPSender × ByteStream
  | 0, s, outboundStream, _ => (s,outboundStream)
  | fuel+1, s, outboundStream, data =>
    if data ≠ [] ∧ s.windowAllows = true then
      let dataLength := s.segmentSize
      segment fuel (s.emplaceSegment (data.take dataLength)) (outboundStream.pop dataLength)
        (data.drop dataLength)
    else (s,outboundStream)

/-- The end of `push`: the last unsent message gets the flag, whatever it had. -/
def attachFIN (s : TCPSender) (FIN : Bool) : TCPSender :=
  match s.unsentMsgs.getLast? with
  | none => s
  | some last =>
    { s with
      unsentMsgs := s.unsentMsgs.dropLast ++
        [{ last with msg := { last.msg with FIN := FIN } }]
      hasNotSentFIN := s.hasNotSentFIN && !FIN
      unsentSeqnos := s.unsentSeqnos + UInt32.ofNat FIN.toNat
      nextSeqno := s.nextSeqno + FIN.toNat }

def hasRoomForFIN (s : TCPSender) : Bool :=
  decide (s.unackedSeqnos + s.unsentSeqnos + 1 ≤ s.windowSize.toUInt32)

def finFlag (s : TCPSender) (outboundStream : ByteStream) : Bool :=
  s.hasNotSentFIN && outboundStream.isFinished && s.hasRoomForFIN

/-- The end of `push`, after the segmentation. -/
def finishPush (s : TCPSender) (outboundStream : ByteStream) : TCPSender :=
  { s with streamIsFinished := outboundStream.isFinished }.attachFIN (s.finFlag outboundStream)

def push (s : TCPSender) (outboundStream : ByteStream) : TCPSender × ByteStream :=
  let data := outboundStream.peek
  let (s,outboundStream) := segment data.length s outboundStream data
  (s.finishPush outboundStream,outboundStream)

/-- The loop in `receive`: drop the messages that `absoluteAckno` covers, oldest first. -/
def dropAcked (s : TCPSender) (absoluteAckno : ℕ) : List TCPSenderMessage → UInt32 → Bool →
    Except Fault (List TCPSenderMessage × UInt32 × Bool)
  | [], seqnos, receiveAck => .ok ([],seqnos,receiveAck)
  | m::ms, seqnos, receiveAck =>
    if absoluteAckno < u64 (m.seqno.unwrap s.isn s.nextSeqno + m.sequenceLength) then
      .ok (m::ms,seqnos,receiveAck)
    else if s.timer.isOn then
      dropAcked s absoluteAckno ms (seqnos - UInt32.ofNat m.sequenceLength) true
    else .error .assertion

/-- `receive` once the ackno is known to be possible. -/
def receiveAckno (s : TCPSender) (absoluteAckno : ℕ) : Except Fault TCPSender := do
  let (unacked,seqnos,receiveAck) ← s.dropAcked absoluteAckno s.unackedMsgs s.unackedSeqnos false
  let s := { s with unackedMsgs := unacked, unackedSeqnos := seqnos }
  if receiveAck then
    let timer ← s.timer.resetRTO
    .ok { s with
      consecutiveRetransmissionNum := 0
      timer := if unacked.isEmpty then timer.stop else timer.start }
  else .ok s

def noteWindow (s : TCPSender) (windowSize : UInt16) : TCPSender :=
  { s with windowSize := windowSize, zeroWindowSizeSpecialCaseFlag := windowSize == 0 }

def receive (s : TCPSender) (msg : TCPReceiverMessage) : Except Fault TCPSender :=
  let s := s.noteWindow msg.windowSize
  match msg.ackno with
  | none => .ok s
  | some ackno =>
    let absoluteAckno := ackno.unwrap s.isn s.nextSeqno
    if s.nextSeqno < absoluteAckno then .ok s else s.receiveAckno absoluteAckno

def requeue (s : TCPSender) (msg : TCPSenderMessage) (rest : List TCPSenderMessage) : TCPSender :=
  { s with
    unackedSeqnos := s.unackedSeqnos - UInt32.ofNat msg.sequenceLength
    unsentSeqnos := s.unsentSeqnos + UInt32.ofNat msg.sequenceLength
    unackedMsgs := rest
    unsentMsgs := ⟨msg,true⟩::s.unsentMsgs }

/-- What `tick` does when the timer has expired. -/
def retransmit (s : TCPSender) : Except Fault TCPSender :=
  match s.unackedMsgs with
  | [] => .error .outOfRange
  | msg::rest => do
    if s.windowSize == 0 then .ok { s.requeue msg rest with timer := s.timer.start }
    else
      let timer ← s.timer.doubleRTO
      .ok { s.requeue msg rest with
        consecutiveRetransmissionNum := s.consecutiveRetransmissionNum + 1
        timer := timer.start }

def tick (s : TCPSender) (msSinceLastTick : ℕ) : Except Fault TCPSender := do
  if s.timer.isOn then
    let s := { s with timer := s.timer.tick msSinceLastTick }
    if ← s.timer.hasExpired then s.retransmit else .ok s
  else .ok s

/-- The tick finds the timer on and due. -/
def Expires (s : TCPSender) (ms : ℕ) : Prop := s.timer.isOn = true ∧ s.timer.timeout ≤ ms

instance (s : TCPSender) (ms : ℕ) : Decidable (s.Expires ms) := by
  unfold Expires; infer_instance

def outstanding (s : TCPSender) : List TCPSenderMessage :=
  s.unsentMsgs.map TCPSenderMessageWrapper.msg ++ s.unackedMsgs

variable {s s' : TCPSender}

theorem segmentSize_pos (h : s.windowAllows = true) : 0 < s.segmentSize := by
  simp only [windowAllows,Bool.or_eq_true,Bool.and_eq_true,beq_iff_eq,decide_eq_true_eq] at h
  simp only [segmentSize]
  by_cases hw : s.windowSize = 0
  · rw [if_pos hw]
    decide
  · have hroom : s.unackedSeqnos + s.unsentSeqnos < s.windowSize.toUInt32 := by
      rcases h with ⟨hzero,-⟩ | hroom
      · exact absurd hzero hw
      · exact hroom
    have hu := s.unackedSeqnos.toNat_lt
    have hv := s.unsentSeqnos.toNat_lt
    have hz := s.windowSize.toUInt32.toNat_lt
    rw [UInt32.lt_iff_toNat_lt,UInt32.toNat_add] at hroom
    rw [if_neg hw]
    split_ifs
    · decide
    · rw [UInt32.toNat_sub,UInt32.toNat_sub]
      omega

theorem take_segmentSize_ne_nil {data : List Byte} (hne : data ≠ []) (h : s.windowAllows = true) :
    data.take s.segmentSize ≠ [] := by
  have hpos := segmentSize_pos h
  simp only [ne_eq,List.take_eq_nil_iff,not_or]
  exact ⟨by omega,hne⟩

/-- The loop ends by its own condition: more rounds than bytes change nothing. -/
theorem segment_fuel {fuel : ℕ} {data : List Byte} (h : data.length ≤ fuel) (s : TCPSender)
    (r : ByteStream) : segment fuel s r data = segment data.length s r data := by
  induction fuel using Nat.strong_induction_on generalizing s r data with
  | h fuel ih =>
    cases data with
    | nil => cases fuel <;> simp [segment]
    | cons c cs =>
      obtain ⟨n,rfl⟩ : ∃ n, fuel = n+1 := ⟨fuel-1,by simp at h; omega⟩
      simp only [List.length_cons,segment]
      split_ifs with hgo
      · have hpos := segmentSize_pos hgo.2
        have hlen : ((c::cs).drop s.segmentSize).length ≤ cs.length := by
          simp only [List.length_drop,List.length_cons]
          omega
        simp only [List.length_cons] at h
        rw [ih n (by omega) (by omega),ih cs.length (by omega) hlen]
      · rfl

/-- What one round keeps, the loop keeps. -/
theorem segment_induction {P : TCPSender → ByteStream → List Byte → Prop}
    (hround : ∀ s r data, P s r data → data ≠ [] → s.windowAllows = true →
      P (s.emplaceSegment (data.take s.segmentSize)) (r.pop s.segmentSize)
        (data.drop s.segmentSize))
    (fuel : ℕ) (s : TCPSender) (r : ByteStream) (data : List Byte) (h : P s r data) :
    ∃ rest, P (segment fuel s r data).1 (segment fuel s r data).2 rest := by
  induction fuel generalizing s r data with
  | zero => exact ⟨data,h⟩
  | succ fuel ih =>
    simp only [segment]
    split_ifs with hgo
    · exact ih _ _ _ (hround s r data h hgo.1 hgo.2)
    · exact ⟨data,h⟩

@[simp] theorem segment_nil (fuel : ℕ) (s : TCPSender) (r : ByteStream) :
    segment fuel s r [] = (s,r) := by
  cases fuel <;> simp [segment]

theorem segment_stop {data : List Byte} (h : ¬ (data ≠ [] ∧ s.windowAllows = true)) (fuel : ℕ)
    (r : ByteStream) : segment fuel s r data = (s,r) := by
  cases fuel with
  | zero => rfl
  | succ fuel => rw [segment,if_neg h]

theorem segment_rounds {P : TCPSender → ByteStream → List Byte → Prop}
    (hround : ∀ s r data, P s r data → data ≠ [] → s.windowAllows = true →
      P (s.emplaceSegment (data.take s.segmentSize)) (r.pop s.segmentSize)
        (data.drop s.segmentSize))
    {data : List Byte} (hgo : data ≠ [] ∧ s.windowAllows = true) (r : ByteStream)
    (h : P (s.emplaceSegment (data.take s.segmentSize)) (r.pop s.segmentSize)
      (data.drop s.segmentSize)) :
    ∃ rest, P (segment data.length s r data).1 (segment data.length s r data).2 rest := by
  obtain ⟨c,cs,rfl⟩ := List.exists_cons_of_ne_nil hgo.1
  rw [List.length_cons,segment,if_pos hgo]
  exact segment_induction hround _ _ _ _ h

theorem mem_outstanding_withFIN {t t' : TCPSender} {init : List TCPSenderMessageWrapper}
    {last : TCPSenderMessageWrapper} {flag : Bool} (hq : t.unsentMsgs = init ++ [last])
    (hq' : t'.unsentMsgs = init ++ [{ last with msg := { last.msg with FIN := flag } }])
    (hunacked : t'.unackedMsgs = t.unackedMsgs) :
    last.msg ∈ t.outstanding ∧
      ∀ m ∈ t'.outstanding, m = { last.msg with FIN := flag } ∨ m ∈ t.outstanding := by
  refine ⟨by simp [outstanding,hq],?_⟩
  intro m hm
  simp only [outstanding,hq',hq,hunacked,List.map_append,List.map_cons,List.map_nil,
    List.mem_append,List.mem_singleton] at hm ⊢
  tauto

/-- The last unsent message, if there is one, gets the flag. -/
structure FinishedPush (t : TCPSender) (r : ByteStream) (s' : TCPSender) : Prop where
  isn : s'.isn = t.isn
  SYN : s'.hasNotSentSYN = t.hasNotSentSYN
  finished : s'.streamIsFinished = r.isFinished
  unacked : s'.unackedMsgs = t.unackedMsgs
  timer : s'.timer = t.timer
  unsent : t.unsentMsgs = [] ∧ s'.unsentMsgs = [] ∧ s'.nextSeqno = t.nextSeqno ∧
      s'.hasNotSentFIN = t.hasNotSentFIN ∨
    ∃ init last, t.unsentMsgs = init ++ [last] ∧
      s'.unsentMsgs = init ++ [{ last with msg := { last.msg with FIN := t.finFlag r } }] ∧
      s'.nextSeqno = t.nextSeqno + (t.finFlag r).toNat ∧
      s'.hasNotSentFIN = (t.hasNotSentFIN && !t.finFlag r)

theorem finishPush_cases (t : TCPSender) (r : ByteStream) :
    t.unsentMsgs = [] ∧ t.finishPush r = { t with streamIsFinished := r.isFinished } ∨
    ∃ init last, t.unsentMsgs = init ++ [last] ∧
      t.finishPush r = { t with
        streamIsFinished := r.isFinished
        unsentMsgs := init ++ [{ last with msg := { last.msg with FIN := t.finFlag r } }]
        hasNotSentFIN := t.hasNotSentFIN && !t.finFlag r
        unsentSeqnos := t.unsentSeqnos + UInt32.ofNat (t.finFlag r).toNat
        nextSeqno := t.nextSeqno + (t.finFlag r).toNat } := by
  simp only [finishPush,attachFIN]
  rcases List.eq_nil_or_concat t.unsentMsgs with hnil | ⟨init,last,hconcat⟩
  · simp only [hnil,List.getLast?_nil]
    exact Or.inl ⟨trivial,trivial⟩
  · rw [List.concat_eq_append] at hconcat
    simp only [hconcat,List.getLast?_concat,List.dropLast_concat]
    exact Or.inr ⟨init,last,rfl,rfl⟩

theorem finishPush_spec (t : TCPSender) (r : ByteStream) : FinishedPush t r (t.finishPush r) := by
  rcases finishPush_cases t r with ⟨hnil,heq⟩ | ⟨init,last,hq,heq⟩
  · rw [heq]
    exact ⟨rfl,rfl,rfl,rfl,rfl,Or.inl ⟨hnil,hnil,rfl,rfl⟩⟩
  · rw [heq]
    exact ⟨rfl,rfl,rfl,rfl,rfl,Or.inr ⟨init,last,hq,rfl,rfl,rfl⟩⟩

theorem mem_outstanding_finishPush {t : TCPSender} {init : List TCPSenderMessageWrapper}
    {last : TCPSenderMessageWrapper} (hq : t.unsentMsgs = init ++ [last]) (r : ByteStream) :
    last.msg ∈ t.outstanding ∧ ∀ m ∈ (t.finishPush r).outstanding,
      m = { last.msg with FIN := t.finFlag r } ∨ m ∈ t.outstanding := by
  rcases finishPush_cases t r with ⟨hnil,-⟩ | ⟨init',last',hq',heq⟩
  · simp [hnil] at hq
  · obtain ⟨rfl,hlast⟩ := List.append_inj' (hq.symm.trans hq') rfl
    obtain rfl := (List.cons.inj hlast).1
    rw [heq]
    exact mem_outstanding_withFIN hq rfl rfl

theorem push_next_le (s : TCPSender) (r : ByteStream) : s.nextSeqno ≤ (s.push r).1.nextSeqno := by
  obtain ⟨-,hle⟩ := segment_induction (P := fun t _ _ => s.nextSeqno ≤ t.nextSeqno)
    (fun t _ data hle _ _ => hle.trans (Nat.le_add_right _ _)) r.peek.length s r r.peek le_rfl
  simp only [push]
  rcases finishPush_cases (segment r.peek.length s r r.peek).1
    (segment r.peek.length s r r.peek).2 with ⟨-,heq⟩ | ⟨init,last,-,heq⟩
  · rw [heq]
    exact hle
  · rw [heq]
    exact hle.trans (Nat.le_add_right _ _)

theorem maybeSend_cases (s : TCPSender) :
    s.maybeSend = (s,none) ∧ s.unsentMsgs = [] ∨
    s.maybeSend = (s.sendFlagMessage,some s.flagMessage) ∧ s.unsentMsgs = [] ∧
      (s.hasNotSentSYN = true ∨ s.canSendFIN = true) ∨
    ∃ wrapper rest, s.unsentMsgs = wrapper::rest ∧
      s.maybeSend = (s.sendUnsent wrapper rest,some (s.carrySYN wrapper.msg)) := by
  cases hq : s.unsentMsgs with
  | nil =>
    by_cases hgo : ((s.hasNotSentSYN || s.canSendFIN) && s.windowAllows) = true
    · refine Or.inr (Or.inl ⟨by simp only [maybeSend,hq,if_pos hgo],rfl,?_⟩)
      rw [Bool.and_eq_true,Bool.or_eq_true] at hgo
      exact hgo.1
    · exact Or.inl ⟨by simp only [maybeSend,hq,if_neg hgo],rfl⟩
  | cons wrapper rest => exact Or.inr (Or.inr ⟨wrapper,rest,rfl,by simp only [maybeSend,hq]⟩)

def acknowledges (s : TCPSender) (absoluteAckno : ℕ) (m : TCPSenderMessage) : Bool :=
  decide (u64 (m.seqno.unwrap s.isn s.nextSeqno + m.sequenceLength) ≤ absoluteAckno)

/-- The absolute ackno that `receive` takes from a message, unless it is impossible. -/
def acceptedAckno (s : TCPSender) (msg : TCPReceiverMessage) : Option ℕ :=
  (msg.ackno.map fun ackno => ackno.unwrap s.isn s.nextSeqno).filter (· ≤ s.nextSeqno)

/-- The loop of `receive` drops what is acknowledged up to the first message that is not. -/
theorem dropAcked_ok {K : ℕ} {ms rest : List TCPSenderMessage} {n n' : UInt32} {b b' : Bool}
    (h : s.dropAcked K ms n b = .ok (rest,n',b')) :
    rest = ms.dropWhile (s.acknowledges K) ∧
      n = n' + UInt32.ofNat (seqnos (ms.takeWhile (s.acknowledges K))) ∧
      b' = (b || !(ms.takeWhile (s.acknowledges K)).isEmpty) := by
  induction ms generalizing n b with
  | nil =>
    simp only [dropAcked,Except.ok.injEq,Prod.mk.injEq] at h
    obtain ⟨rfl,rfl,rfl⟩ := h
    simp
  | cons m ms ih =>
    simp only [dropAcked] at h
    split_ifs at h with hstop hon
    · simp only [Except.ok.injEq,Prod.mk.injEq] at h
      obtain ⟨rfl,rfl,rfl⟩ := h
      simp [acknowledges,hstop]
    · obtain ⟨hrest,hn,hb⟩ := ih h
      have hgo : s.acknowledges K m = true := by simpa [acknowledges] using hstop
      rw [List.dropWhile_cons_of_pos hgo,List.takeWhile_cons_of_pos hgo]
      refine ⟨hrest,?_,by simp [hb]⟩
      rw [seqnos_cons,UInt32.ofNat_add]
      grind

theorem dropAcked_total (hon : s.timer.isOn = true) (K : ℕ) (ms : List TCPSenderMessage)
    (n : UInt32) (b : Bool) : ∃ rest n' b', s.dropAcked K ms n b = .ok (rest,n',b') := by
  induction ms generalizing n b with
  | nil => exact ⟨[],n,b,rfl⟩
  | cons m ms ih =>
    simp only [dropAcked,hon,if_true]
    split_ifs
    · exact ⟨_,_,_,rfl⟩
    · exact ih _ _

theorem receiveAckno_cases {K : ℕ} (h : s.receiveAckno K = .ok s') :
    ∃ seqnos' retransmissions timer,
      s.unackedSeqnos = seqnos' + UInt32.ofNat (seqnos (s.unackedMsgs.takeWhile (s.acknowledges K))) ∧
      s' = { s with
        unackedMsgs := s.unackedMsgs.dropWhile (s.acknowledges K)
        unackedSeqnos := seqnos'
        consecutiveRetransmissionNum := retransmissions
        timer := timer } := by
  simp only [receiveAckno,bind,Except.bind] at h
  cases hdrop : s.dropAcked K s.unackedMsgs s.unackedSeqnos false with
  | error e => simp [hdrop] at h
  | ok res =>
    obtain ⟨rest,n',b'⟩ := res
    obtain ⟨rfl,hn,-⟩ := dropAcked_ok hdrop
    simp only [hdrop] at h
    cases b' with
    | false =>
      cases h
      exact ⟨n',s.consecutiveRetransmissionNum,s.timer,hn,rfl⟩
    | true =>
      cases hreset : s.timer.resetRTO with
      | error e => simp [hreset] at h
      | ok timer =>
        simp only [hreset] at h
        cases h
        exact ⟨n',0,_,hn,rfl⟩

/-- Everything that `receive` does: it notes the window, and an accepted ackno drops messages. -/
theorem receive_cases {msg : TCPReceiverMessage} (h : s.receive msg = .ok s') :
    s.acceptedAckno msg = none ∧ s' = s.noteWindow msg.windowSize ∨
    ∃ K seqnos' retransmissions timer, s.acceptedAckno msg = some K ∧
      s.unackedSeqnos = seqnos' + UInt32.ofNat (seqnos (s.unackedMsgs.takeWhile (s.acknowledges K))) ∧
      s' = { s.noteWindow msg.windowSize with
        unackedMsgs := s.unackedMsgs.dropWhile (s.acknowledges K)
        unackedSeqnos := seqnos'
        consecutiveRetransmissionNum := retransmissions
        timer := timer } := by
  simp only [receive] at h
  cases hack : msg.ackno with
  | none =>
    simp only [hack] at h
    cases h
    exact Or.inl ⟨by simp [acceptedAckno,hack],rfl⟩
  | some ackno =>
    simp only [hack] at h
    split_ifs at h with himpossible
    · change s.nextSeqno < ackno.unwrap s.isn s.nextSeqno at himpossible
      cases h
      exact Or.inl ⟨by simp [acceptedAckno,hack,Option.filter,himpossible],rfl⟩
    · change ¬ s.nextSeqno < ackno.unwrap s.isn s.nextSeqno at himpossible
      obtain ⟨n',retransmissions,timer,hn,rfl⟩ := receiveAckno_cases h
      refine Or.inr ⟨ackno.unwrap s.isn s.nextSeqno,n',retransmissions,timer,?_,hn,rfl⟩
      simp [acceptedAckno,hack,Option.filter,Nat.le_of_not_lt himpossible]

structure SameNumbering (s s' : TCPSender) : Prop where
  isn : s'.isn = s.isn
  SYN : s'.hasNotSentSYN = s.hasNotSentSYN
  FIN : s'.hasNotSentFIN = s.hasNotSentFIN
  finished : s'.streamIsFinished = s.streamIsFinished
  next : s'.nextSeqno = s.nextSeqno

theorem receive_ok {msg : TCPReceiverMessage} (h : s.receive msg = .ok s') :
    SameNumbering s s' ∧ s'.unsentMsgs = s.unsentMsgs ∧
      ∃ dropped, s.unackedMsgs = dropped ++ s'.unackedMsgs ∧
        ∀ m ∈ dropped, ∃ ackno, msg.ackno = some ackno ∧
          ackno.unwrap s.isn s.nextSeqno ≤ s.nextSeqno ∧
          u64 (m.seqno.unwrap s.isn s.nextSeqno + m.sequenceLength) ≤
            ackno.unwrap s.isn s.nextSeqno := by
  rcases receive_cases h with ⟨-,rfl⟩ | ⟨K,n',retransmissions,timer,hack,-,rfl⟩
  · exact ⟨⟨rfl,rfl,rfl,rfl,rfl⟩,rfl,[],rfl,by simp⟩
  · refine ⟨⟨rfl,rfl,rfl,rfl,rfl⟩,rfl,s.unackedMsgs.takeWhile (s.acknowledges K),
      List.takeWhile_append_dropWhile.symm,fun m hm => ?_⟩
    have hcovers := List.mem_takeWhile_imp hm
    simp only [acknowledges,decide_eq_true_eq] at hcovers
    obtain ⟨hmap,hle⟩ := Option.filter_eq_some_iff.mp hack
    obtain ⟨ackno,hsome,rfl⟩ := Option.map_eq_some_iff.mp hmap
    exact ⟨ackno,hsome,by simpa using hle,hcovers⟩

/-- Everything that `tick` does: time passes, or the oldest outstanding message moves. -/
theorem tick_cases {ms : ℕ} (h : s.tick ms = .ok s') :
    (¬ s.Expires ms ∧ ∃ timer, s' = { s with timer := timer }) ∨
      s.Expires ms ∧ ∃ m rest retransmissions timer, s.unackedMsgs = m::rest ∧
        s' = { s.requeue m rest with
          consecutiveRetransmissionNum := retransmissions
          timer := timer } := by
  simp only [tick] at h
  split_ifs at h with hon
  · simp only [Timer.hasExpired,Timer.tick_isOn,hon,if_true,bind,Except.bind] at h
    split_ifs at h with hexp
    · rw [beq_iff_eq,Timer.tick_timeout_eq_zero] at hexp
      simp only [retransmit] at h
      split at h
      · cases h
      · rename_i m rest hun
        simp only [Timer.doubleRTO,Timer.tick_isOn,hon,if_true,bind,Except.bind] at h
        split_ifs at h
        · cases h
          exact Or.inr ⟨⟨hon,hexp⟩,m,rest,s.consecutiveRetransmissionNum,_,hun,rfl⟩
        · cases h
          exact Or.inr ⟨⟨hon,hexp⟩,m,rest,s.consecutiveRetransmissionNum + 1,_,hun,rfl⟩
    · rw [beq_iff_eq,Timer.tick_timeout_eq_zero] at hexp
      cases h
      exact Or.inl ⟨fun he => hexp he.2,_,rfl⟩
  · cases h
    exact Or.inl ⟨fun he => hon he.1,s.timer,rfl⟩

theorem tick_ok {ms : ℕ} (h : s.tick ms = .ok s') :
    SameNumbering s s' ∧
      (¬ s.Expires ms ∧ s'.unsentMsgs = s.unsentMsgs ∧ s'.unackedMsgs = s.unackedMsgs ∨
        s.Expires ms ∧ ∃ m, s.unackedMsgs = m::s'.unackedMsgs ∧
          s'.unsentMsgs = ⟨m,true⟩::s.unsentMsgs) := by
  rcases tick_cases h with ⟨hno,timer,rfl⟩ | ⟨hexp,m,rest,retransmissions,timer,hun,rfl⟩
  · exact ⟨⟨rfl,rfl,rfl,rfl,rfl⟩,Or.inl ⟨hno,rfl,rfl⟩⟩
  · exact ⟨⟨rfl,rfl,rfl,rfl,rfl⟩,Or.inr ⟨hexp,m,hun,rfl⟩⟩

end TCPSender
end Minnow
