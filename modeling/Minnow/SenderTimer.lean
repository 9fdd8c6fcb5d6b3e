import Minnow.Library.Run
import Minnow.TCPSender

/-! The retransmission timer against the queue of outstanding messages, over runs of a
sender whose caller is free in everything. -/
namespace Minnow
namespace SenderTimer

open Library TCPSender

inductive Op
  | push (outboundStream : ByteStream)
  | maybeSend
  | receive (msg : TCPReceiverMessage)
  | tick (msSinceLastTick : ℕ)
  deriving DecidableEq, Repr

def step (s : TCPSender) : Op → Except Fault (TCPSender × Option TCPSenderMessage)
  | .push outboundStream => .ok ((s.push outboundStream).1,none)
  | .maybeSend => .ok s.maybeSend
  | .receive msg => do .ok (← s.receive msg,none)
  | .tick ms => do .ok (← s.tick ms,none)

abbrev Trace := List (Event TCPSender Op (Option TCPSenderMessage))

/-- An expiry that takes the only outstanding message leaves the timer on without one, until
`maybe_send` is called. -/
def orphanedAfter (orphaned : Bool) (e : Event TCPSender Op (Option TCPSenderMessage)) : Bool :=
  match e.op with
  | .push _ => orphaned
  | .maybeSend => false
  | .receive _ => orphaned
  | .tick ms => orphaned || (decide (e.before.Expires ms) && e.before.unackedMsgs.length == 1)

def orphaned (tr : Trace) : Bool := tr.foldl orphanedAfter false

@[simp] theorem orphaned_snoc (tr : Trace) (e : Event TCPSender Op (Option TCPSenderMessage)) :
    orphaned (tr ++ [e]) = orphanedAfter (orphaned tr) e := by
  simp [orphaned]

/-- No assertion on the timer can fail, an expiring tick finds an outstanding message, and so
`tick` does not touch the front of an empty deque. -/
structure TimerSafe (s : TCPSender) : Prop where
  asserts : ∀ op, step s op ≠ .error .assertion
  outstanding : ∀ ms, s.Expires ms → s.unackedMsgs ≠ []
  front : ∀ ms, s.tick ms ≠ .error .outOfRange

/-- The timer runs for the outstanding messages, or for an orphan that waits unsent. -/
structure Inv (orphan : Bool) (s : TCPSender) : Prop where
  on : s.unackedMsgs ≠ [] → s.timer.isOn = true
  orphan_iff : orphan = true ↔ s.timer.isOn = true ∧ s.unackedMsgs = []
  unsent : orphan = true → s.unsentMsgs ≠ []

variable {s s' : TCPSender} {tr : Trace} {b : Bool}

theorem new_inv (RTO : ℕ) (isn : Wrap32) : Inv false (TCPSender.new RTO isn) :=
  ⟨by simp [TCPSender.new],by simp [TCPSender.new,Timer.new],by simp⟩

theorem push_queues (s : TCPSender) (r : ByteStream) :
    (s.push r).1.timer = s.timer ∧ (s.push r).1.unackedMsgs = s.unackedMsgs ∧
      (s.unsentMsgs ≠ [] → (s.push r).1.unsentMsgs ≠ []) := by
  obtain ⟨rest,htimer,hunacked,hunsent⟩ := segment_induction
    (P := fun t _ _ => t.timer = s.timer ∧ t.unackedMsgs = s.unackedMsgs ∧
      (s.unsentMsgs ≠ [] → t.unsentMsgs ≠ []))
    (by
      rintro t _ data ⟨h₁,h₂,-⟩ - -
      exact ⟨h₁,h₂,by simp [emplaceSegment]⟩)
    r.peek.length s r r.peek ⟨rfl,rfl,id⟩
  have hfin := finishPush_spec (segment r.peek.length s r r.peek).1
    (segment r.peek.length s r r.peek).2
  refine ⟨hfin.timer.trans htimer,hfin.unacked.trans hunacked,fun h => ?_⟩
  rcases hfin.unsent with ⟨hnil,-⟩ | ⟨init,last,-,heq,-⟩
  · exact absurd hnil (hunsent h)
  · change (finishPush _ _).unsentMsgs ≠ []
    rw [heq]
    simp

theorem receiveAckno_defined (h : s.unackedMsgs ≠ [] → s.timer.isOn = true) (K : ℕ) :
    ∃ s', s.receiveAckno K = .ok s' := by
  by_cases hnil : s.unackedMsgs = []
  · simp [receiveAckno,hnil,dropAcked,bind,Except.bind]
  · have hon := h hnil
    obtain ⟨rest,n,b,hdrop⟩ := dropAcked_total hon K s.unackedMsgs s.unackedSeqnos false
    cases b with
    | false => simp [receiveAckno,hdrop,bind,Except.bind]
    | true => simp [receiveAckno,hdrop,Timer.resetRTO,hon,bind,Except.bind]

theorem receive_defined (h : s.unackedMsgs ≠ [] → s.timer.isOn = true) (msg : TCPReceiverMessage) :
    ∃ s', s.receive msg = .ok s' := by
  simp only [receive]
  cases msg.ackno with
  | none => exact ⟨_,rfl⟩
  | some ackno =>
    simp only
    split_ifs
    · exact ⟨_,rfl⟩
    · exact receiveAckno_defined (s := s.noteWindow msg.windowSize) h _

theorem receiveAckno_clock {K : ℕ} (h : s.receiveAckno K = .ok s') :
    s'.unackedMsgs = s.unackedMsgs ∧ s'.timer = s.timer ∧
        s'.consecutiveRetransmissionNum = s.consecutiveRetransmissionNum ∨
      s'.unackedMsgs.length < s.unackedMsgs.length ∧ s'.consecutiveRetransmissionNum = 0 ∧
        s'.timer = if s'.unackedMsgs = [] then { s.timer with RTO := s.timer.initialRTO }.stop
          else { s.timer with RTO := s.timer.initialRTO }.start := by
  simp only [receiveAckno,bind,Except.bind] at h
  cases hdrop : s.dropAcked K s.unackedMsgs s.unackedSeqnos false with
  | error f => simp [hdrop] at h
  | ok res =>
    obtain ⟨rest,n,b⟩ := res
    obtain ⟨hrest,-,hb⟩ := dropAcked_ok hdrop
    have hsplit := List.takeWhile_append_dropWhile (p := s.acknowledges K) (l := s.unackedMsgs)
    rw [← hrest] at hsplit
    simp only [hdrop] at h
    cases b with
    | false =>
      have hempty : s.unackedMsgs.takeWhile (s.acknowledges K) = [] := by simpa using hb.symm
      rw [hempty] at hsplit
      cases h
      exact Or.inl ⟨hsplit,rfl,rfl⟩
    | true =>
      have hsome : s.unackedMsgs.takeWhile (s.acknowledges K) ≠ [] := by simpa using hb.symm
      have hlen := congrArg List.length hsplit
      rw [List.length_append] at hlen
      have hpos := List.length_pos_iff.mpr hsome
      cases hreset : s.timer.resetRTO with
      | error f => simp [hreset] at h
      | ok timer =>
        have htimer : timer = { s.timer with RTO := s.timer.initialRTO } := by
          unfold Timer.resetRTO at hreset
          split_ifs at hreset
          exact (Except.ok.inj hreset).symm
        simp only [hreset] at h
        cases h
        refine Or.inr ⟨by simp only; omega,rfl,?_⟩
        simp only [htimer,List.isEmpty_iff]

/-- A `receive` that removes nothing leaves the timer alone; any other resets it, and stops it or
starts it again. -/
theorem receive_clock {msg : TCPReceiverMessage} (h : s.receive msg = .ok s') :
    s'.unackedMsgs = s.unackedMsgs ∧ s'.timer = s.timer ∧
        s'.consecutiveRetransmissionNum = s.consecutiveRetransmissionNum ∨
      s'.unackedMsgs.length < s.unackedMsgs.length ∧ s'.consecutiveRetransmissionNum = 0 ∧
        s'.timer = if s'.unackedMsgs = [] then { s.timer with RTO := s.timer.initialRTO }.stop
          else { s.timer with RTO := s.timer.initialRTO }.start := by
  simp only [receive] at h
  cases hack : msg.ackno with
  | none =>
    simp only [hack] at h
    cases h
    exact Or.inl ⟨rfl,rfl,rfl⟩
  | some ackno =>
    simp only [hack] at h
    split_ifs at h with himpossible
    · cases h
      exact Or.inl ⟨rfl,rfl,rfl⟩
    · exact receiveAckno_clock (s := s.noteWindow msg.windowSize) h

theorem receive_timer (h : s.unackedMsgs ≠ [] → s.timer.isOn = true) (msg : TCPReceiverMessage) :
    ∃ s', s.receive msg = .ok s' ∧ s'.unsentMsgs = s.unsentMsgs ∧
      (s'.unackedMsgs = s.unackedMsgs ∧ s'.timer = s.timer ∨
        s.unackedMsgs ≠ [] ∧ (s'.timer.isOn = true ↔ s'.unackedMsgs ≠ [])) := by
  obtain ⟨s',hs⟩ := receive_defined h msg
  refine ⟨s',hs,(receive_ok hs).2.1,?_⟩
  rcases receive_clock hs with ⟨hun,htimer,-⟩ | ⟨hless,-,htimer⟩
  · exact Or.inl ⟨hun,htimer⟩
  · refine Or.inr ⟨List.ne_nil_of_length_pos (by omega),?_⟩
    rw [htimer]
    split_ifs with hnil
    · simp [hnil]
    · simp [hnil]

theorem tick_waits {ms : ℕ} (h : ¬ s.Expires ms) :
    ∃ s', s.tick ms = .ok s' ∧ s'.timer.isOn = s.timer.isOn := by
  by_cases hon : s.timer.isOn = true
  · have hzero : ((s.timer.tick ms).timeout == 0) = false := by
      rw [beq_eq_false_iff_ne]
      exact fun hz => h ⟨hon,(Timer.tick_timeout_eq_zero _ _).mp hz⟩
    exact ⟨{ s with timer := s.timer.tick ms },by simp [tick,hon,Timer.hasExpired,hzero,bind,Except.bind],
      rfl⟩
  · exact ⟨s,by simp [tick,hon],rfl⟩

theorem tick_expires {ms : ℕ} (h : s.Expires ms) :
    s.tick ms = retransmit { s with timer := s.timer.tick ms } := by
  have hzero : ((s.timer.tick ms).timeout == 0) = true := by
    rw [beq_iff_eq]
    exact (Timer.tick_timeout_eq_zero _ _).mpr h.2
  simp [tick,h.1,Timer.hasExpired,hzero,bind,Except.bind]

theorem retransmit_timer (hon : s.timer.isOn = true) (hne : s.unackedMsgs ≠ []) :
    ∃ s', s.retransmit = .ok s' ∧ s'.timer.isOn = true := by
  obtain ⟨m,rest,hun⟩ := List.exists_cons_of_ne_nil hne
  by_cases hw : (s.windowSize == 0) = true
  · exact ⟨{ s.requeue m rest with timer := s.timer.start },by simp only [retransmit,hun,if_pos hw],rfl⟩
  · refine ⟨{ s.requeue m rest with
      consecutiveRetransmissionNum := s.consecutiveRetransmissionNum + 1
      timer := { s.timer with RTO := u64 (s.timer.RTO*2) }.start },?_,rfl⟩
    simp only [retransmit,hun,if_neg hw,Timer.doubleRTO,hon,if_true,bind,Except.bind]

/-- A tick faults exactly at the front of an empty queue. -/
theorem tick_timer (s : TCPSender) (ms : ℕ) :
    (∃ s', s.tick ms = .ok s' ∧ s'.timer.isOn = s.timer.isOn) ∨
      s.tick ms = .error .outOfRange ∧ s.Expires ms ∧ s.unackedMsgs = [] := by
  by_cases hexp : s.Expires ms
  · by_cases hun : s.unackedMsgs = []
    · refine Or.inr ⟨?_,hexp,hun⟩
      rw [tick_expires hexp]
      simp [retransmit,hun]
    · obtain ⟨s',hs,hon⟩ := retransmit_timer (s := { s with timer := s.timer.tick ms }) hexp.1 hun
      exact Or.inl ⟨s',(tick_expires hexp).trans hs,hon.trans hexp.1.symm⟩
  · exact Or.inl (tick_waits hexp)

theorem Inv.push (h : Inv b s) (r : ByteStream) : Inv b (s.push r).1 := by
  obtain ⟨htimer,hunacked,hunsent⟩ := push_queues s r
  refine ⟨?_,?_,fun ho => hunsent (h.unsent ho)⟩
  · rw [htimer,hunacked]
    exact h.on
  · rw [htimer,hunacked]
    exact h.orphan_iff

/-- Afterwards there is no orphan: it was sent, or the timer was off. -/
theorem Inv.maybeSend (h : Inv b s) : Inv false s.maybeSend.1 := by
  rcases maybeSend_cases s with ⟨heq,hnil⟩ | ⟨heq,-,-⟩ | ⟨w,rest,-,heq⟩
  · rw [heq]
    refine ⟨h.on,?_,by simp⟩
    simp only [Bool.false_eq_true,false_iff]
    exact fun hno => h.unsent (h.orphan_iff.mpr hno) hnil
  · rw [heq]
    exact ⟨by simp [sendFlagMessage],by simp [sendFlagMessage],by simp⟩
  · rw [heq]
    refine ⟨by simp [sendUnsent],?_,by simp⟩
    simp only [sendUnsent]
    split_ifs <;> simp

theorem Inv.receive (h : Inv b s) {msg : TCPReceiverMessage} (hs : s.receive msg = .ok s') :
    Inv b s' := by
  obtain ⟨t,ht,hunsent,htimer⟩ := receive_timer h.on msg
  obtain rfl : s' = t := Except.ok.inj (hs.symm.trans ht)
  rcases htimer with ⟨hun,htimer⟩ | ⟨hne,hiff⟩
  · refine ⟨?_,?_,?_⟩
    · rw [hun,htimer]
      exact h.on
    · rw [hun,htimer]
      exact h.orphan_iff
    · rw [hunsent]
      exact h.unsent
  · have hb : b = false := by
      rw [← Bool.not_eq_true,h.orphan_iff]
      exact fun hno => hne hno.2
    rw [hb]
    exact ⟨hiff.mpr,by simp [hiff],by simp⟩

theorem Inv.tick (h : Inv b s) {ms : ℕ} (hs : s.tick ms = .ok s') :
    Inv (orphanedAfter b ⟨s,.tick ms,none⟩) s' := by
  have hon : s'.timer.isOn = s.timer.isOn := by
    rcases tick_timer s ms with ⟨t,ht,hon⟩ | ⟨herr,-,-⟩
    · obtain rfl : s' = t := Except.ok.inj (hs.symm.trans ht)
      exact hon
    · rw [hs] at herr
      cases herr
  rcases (tick_ok hs).2 with ⟨hno,hunsent,hunacked⟩ | ⟨hexp,m,hunacked,hunsent⟩
  · simp only [orphanedAfter,hno,decide_false,Bool.false_and,Bool.or_false]
    refine ⟨?_,?_,?_⟩
    · rw [hon,hunacked]
      exact h.on
    · rw [hon,hunacked]
      exact h.orphan_iff
    · rw [hunsent]
      exact h.unsent
  · have hb : b = false := by
      rw [← Bool.not_eq_true,h.orphan_iff,hunacked]
      simp
    refine ⟨fun _ => hon.trans hexp.1,?_,?_⟩
    · rw [hon]
      simp [orphanedAfter,hb,hexp,hexp.1,hunacked]
    · rw [hunsent]
      simp

theorem Inv.step (h : Inv b s) {op : Op} {m : Option TCPSenderMessage}
    (hs : SenderTimer.step s op = .ok (s',m)) : Inv (orphanedAfter b ⟨s,op,m⟩) s' := by
  cases op with
  | push r =>
    obtain ⟨rfl,-⟩ := Prod.mk.inj (Except.ok.inj hs)
    exact h.push r
  | maybeSend =>
    have heq : s.maybeSend.1 = s' := congrArg Prod.fst (Except.ok.inj hs)
    rw [← heq]
    exact h.maybeSend
  | receive msg =>
    obtain ⟨t,ht,hret⟩ := bind_ok.mp hs
    obtain ⟨rfl,-⟩ := Prod.mk.inj (Except.ok.inj hret)
    exact h.receive ht
  | tick ms =>
    obtain ⟨t,ht,hret⟩ := bind_ok.mp hs
    obtain ⟨rfl,-⟩ := Prod.mk.inj (Except.ok.inj hret)
    exact h.tick ht

theorem run_inv {RTO : ℕ} {isn : Wrap32} (hr : Run step (TCPSender.new RTO isn) tr s) :
    Inv (orphaned tr) s :=
  Run.history_invariant (fun tr s => Inv (orphaned tr) s) (fun _ => True)
    (new_inv RTO isn)
    (fun hi _ hs => by
      rw [orphaned_snoc]
      exact hi.step hs) hr (fun _ _ => trivial)

/-- After any run the timer is safe exactly when no expiry has taken the only outstanding
message without a `maybe_send` since. -/
theorem timer_safe_iff {RTO : ℕ} {isn : Wrap32} (hr : Run step (TCPSender.new RTO isn) tr s) :
    TimerSafe s ↔ orphaned tr = false := by
  have hinv := run_inv hr
  constructor
  · intro hsafe
    rw [← Bool.not_eq_true,hinv.orphan_iff]
    rintro ⟨hon,hnil⟩
    exact hsafe.outstanding s.timer.timeout ⟨hon,le_rfl⟩ hnil
  · intro hfree
    have hout : ∀ ms, s.Expires ms → s.unackedMsgs ≠ [] := by
      intro ms hexp hnil
      have ho := hinv.orphan_iff.mpr ⟨hexp.1,hnil⟩
      simp [hfree] at ho
    refine ⟨?_,hout,?_⟩
    · intro op
      cases op with
      | push r => simp [step]
      | maybeSend => simp [step]
      | receive msg =>
        obtain ⟨s',hs,-⟩ := receive_timer hinv.on msg
        simp [step,hs,bind,Except.bind]
      | tick ms =>
        rcases tick_timer s ms with ⟨s',hs,-⟩ | ⟨herr,-,-⟩
        · simp [step,hs,bind,Except.bind]
        · simp [step,herr,bind,Except.bind]
    · intro ms
      rcases tick_timer s ms with ⟨s',hs,-⟩ | ⟨-,hexp,hnil⟩
      · simp [hs]
      · exact absurd hnil (hout ms hexp)

theorem timer_safe_iff_resent : ∃ tr s, Run step (TCPSender.new 1000 ⟨0⟩) tr s ∧ tr.length = 3 ∧
    s.Expires 2000 ∧ TimerSafe s := by
  obtain ⟨tr,s,hr,hlen,hexp,hfree⟩ := Run.exists_of_exec step (TCPSender.new 1000 ⟨0⟩)
    [.maybeSend,.tick 1000,.maybeSend]
    (fun tr s => tr.length = 3 ∧ s.Expires 2000 ∧ orphaned tr = false) (by decide +kernel)
  exact ⟨tr,s,hr,hlen,hexp,(timer_safe_iff hr).mpr hfree⟩

/-- Two expiries in a row with nothing sent between them. -/
theorem timer_unsafe : ∃ tr s, Run step (TCPSender.new 1000 ⟨0⟩) tr s ∧
    s.tick 2000 = .error .outOfRange ∧ ¬ TimerSafe s := by
  obtain ⟨tr,s,hr,hfront⟩ := Run.exists_of_exec step (TCPSender.new 1000 ⟨0⟩)
    [.maybeSend,.tick 1000] (fun _ s => s.tick 2000 = .error .outOfRange)
    (by decide +kernel)
  exact ⟨tr,s,hr,hfront,fun h => h.front 2000 hfront⟩

end SenderTimer
end Minnow
