import Minnow.Library.Expiry
import Minnow.SenderTimer

/-! Retransmission timing: how long the timer runs, and what the runs before it did to its time. -/
namespace Minnow
namespace SenderTimer

open Library TCPSender

abbrev Step := Event TCPSender Op (Option TCPSenderMessage)

def after (e : Step) : TCPSender :=
  match step e.before e.op with
  | .error _ => e.before
  | .ok (s,_) => s

def Removes (e : Step) : Prop :=
  match e.op with
  | .receive _ => (after e).unackedMsgs.length < e.before.unackedMsgs.length
  | _ => False

def Expiry (e : Step) : Prop :=
  match e.op with
  | .tick ms => e.before.Expires ms
  | _ => False

def Starts (e : Step) : Prop :=
  match e.op with
  | .push _ => False
  | .maybeSend => e.before.timer.isOn = false ∧ e.out ≠ none
  | .receive _ => Removes e ∧ (after e).unackedMsgs ≠ []
  | .tick _ => Expiry e

def ticked (e : Step) : ℕ :=
  match e.op with
  | .tick ms => if e.before.timer.isOn then ms else 0
  | _ => 0

/-- The last `Timer::start` was with the timeout `RTO`, and `age` milliseconds were ticked since. -/
def StartedAgo (RTO age : ℕ) (tr : Trace) : Prop :=
  Since ticked (fun e => Starts e ∧ (after e).timer.RTO = RTO) Starts age tr

/-- The step puts a message in front of the unsent ones, to be sent again. -/
def Requeues (e : Step) : Prop := ∃ m, (after e).unsentMsgs = ⟨m,true⟩::e.before.unsentMsgs

variable {s s' : TCPSender} {tr : Trace} {RTO : ℕ} {isn : Wrap32} {e : Step} {op : Op}
  {out : Option TCPSenderMessage}

theorem after_eq (h : step s op = .ok (s',out)) : after ⟨s,op,out⟩ = s' := by
  simp only [after,h]

theorem push_clock (s : TCPSender) (r : ByteStream) :
    (s.push r).1.timer = s.timer ∧
      (s.push r).1.consecutiveRetransmissionNum = s.consecutiveRetransmissionNum := by
  obtain ⟨-,hcount⟩ := segment_induction
    (P := fun t _ _ => t.consecutiveRetransmissionNum = s.consecutiveRetransmissionNum)
    (fun _ _ _ h _ _ => h) r.peek.length s r r.peek rfl
  refine ⟨(push_queues s r).1,?_⟩
  simp only [push]
  rcases finishPush_cases (segment r.peek.length s r r.peek).1
    (segment r.peek.length s r r.peek).2 with ⟨-,heq⟩ | ⟨init,last,-,heq⟩
  · rw [heq]
    exact hcount
  · rw [heq]
    exact hcount

theorem maybeSend_clock (s : TCPSender) :
    s.maybeSend.1.consecutiveRetransmissionNum = s.consecutiveRetransmissionNum ∧
      (s.maybeSend.2 = none ∧ s.maybeSend.1.timer = s.timer ∨
        s.maybeSend.2 ≠ none ∧ s.maybeSend.1.timer = s.timer.ensureStarted) := by
  rcases maybeSend_cases s with ⟨heq,-⟩ | ⟨heq,-,-⟩ | ⟨w,rest,-,heq⟩
  · rw [heq]
    exact ⟨rfl,Or.inl ⟨rfl,rfl⟩⟩
  · rw [heq]
    exact ⟨rfl,Or.inr ⟨by simp,rfl⟩⟩
  · rw [heq]
    exact ⟨rfl,Or.inr ⟨by simp,rfl⟩⟩

/-- A tick is not noticed, or makes the time shorter, or takes the oldest message back and starts
the timer again, for twice as long unless the window is closed. -/
theorem tick_clock {ms : ℕ} (h : s.tick ms = .ok s') :
    s.timer.isOn = false ∧ s' = s ∨
    s.timer.isOn = true ∧ ms < s.timer.timeout ∧ s' = { s with timer := s.timer.tick ms } ∨
    s.Expires ms ∧ (∃ m, s'.unsentMsgs = ⟨m,true⟩::s.unsentMsgs) ∧
      (s.windowSize = 0 ∧ s'.consecutiveRetransmissionNum = s.consecutiveRetransmissionNum ∧
          s'.timer = s.timer.start ∨
        s.windowSize ≠ 0 ∧
          s'.consecutiveRetransmissionNum = s.consecutiveRetransmissionNum + 1 ∧
          s'.timer = { s.timer with RTO := u64 (s.timer.RTO*2) }.start) := by
  by_cases hon : s.timer.isOn = true
  · by_cases hdue : s.timer.timeout ≤ ms
    · right
      right
      rw [tick_expires ⟨hon,hdue⟩] at h
      simp only [retransmit] at h
      split at h
      · cases h
      · simp only [Timer.doubleRTO,Timer.tick_isOn,hon,if_true,bind,Except.bind] at h
        split_ifs at h with hw
        · cases h
          exact ⟨⟨hon,hdue⟩,⟨_,rfl⟩,Or.inl ⟨by simpa using hw,rfl,rfl⟩⟩
        · cases h
          exact ⟨⟨hon,hdue⟩,⟨_,rfl⟩,Or.inr ⟨by simpa using hw,rfl,rfl⟩⟩
    · have hzero : ((s.timer.tick ms).timeout == 0) = false := by
        rw [beq_eq_false_iff_ne,ne_eq,Timer.tick_timeout_eq_zero]
        exact hdue
      simp [tick,hon,Timer.hasExpired,hzero,bind,Except.bind] at h
      exact Or.inr (Or.inl ⟨hon,Nat.lt_of_not_le hdue,h.symm⟩)
  · simp only [tick,if_neg hon] at h
    exact Or.inl ⟨by simpa using hon,(Except.ok.inj h).symm⟩

def Within (RTO : ℕ) (s : TCPSender) : Prop :=
  RTO * 2^s.consecutiveRetransmissions.toNat < 2^64

instance (RTO : ℕ) (s : TCPSender) : Decidable (Within RTO s) := by unfold Within; infer_instance

theorem startedAgo_start {R age : ℕ} (h : Starts e) :
    StartedAgo R age (tr ++ [e]) ↔ (after e).timer.RTO = R ∧ age = 0 := by
  rw [StartedAgo,since_snoc]
  simp [h]

theorem startedAgo_wait {R age : ℕ} (h : ¬ Starts e) :
    StartedAgo R age (tr ++ [e]) ↔ ∃ age', StartedAgo R age' tr ∧ age = age' + ticked e := by
  rw [StartedAgo,since_snoc]
  simp [h,StartedAgo]

/-- The timeout has been doubled once for each retransmission, and the timer still has to run for
what is left of it since the last start. -/
structure Timing (RTO : ℕ) (tr : Trace) (s : TCPSender) : Prop where
  within : Within RTO s
  initial : s.timer.initialRTO = RTO
  backoff : s.timer.RTO = RTO * 2^s.consecutiveRetransmissions.toNat
  started : s.timer.isOn = true → ∃ R age, StartedAgo R age tr
  waits : ∀ R age, StartedAgo R age tr →
    age < R ∧ (s.timer.isOn = true → age + s.timer.timeout = R)

theorem Timing.pos (h : Timing RTO tr s) (hon : s.timer.isOn = true) : 0 < s.timer.timeout := by
  obtain ⟨R,age,hago⟩ := h.started hon
  obtain ⟨hlt,hleft⟩ := h.waits R age hago
  have := hleft hon
  omega

theorem Timing.start (hpos : 0 < RTO) (hstart : Starts e) (hafter : after e = s')
    (hwithin : Within RTO s') (hinit : s'.timer.initialRTO = RTO)
    (hback : s'.timer.RTO = RTO * 2^s'.consecutiveRetransmissions.toNat)
    (hfull : s'.timer.timeout = s'.timer.RTO) : Timing RTO (tr ++ [e]) s' := by
  refine ⟨hwithin,hinit,hback,fun _ => ⟨_,_,(startedAgo_start hstart).mpr ⟨rfl,rfl⟩⟩,?_⟩
  intro R age hago
  obtain ⟨rfl,rfl⟩ := (startedAgo_start hstart).mp hago
  rw [hafter]
  refine ⟨?_,fun _ => by omega⟩
  rw [hback]
  exact Nat.mul_pos hpos (Nat.two_pow_pos _)

theorem Timing.wait (h : Timing RTO tr s) (hnot : ¬ Starts e) (hwithin : Within RTO s')
    (hinit : s'.timer.initialRTO = RTO)
    (hback : s'.timer.RTO = RTO * 2^s'.consecutiveRetransmissions.toNat)
    (hon : s'.timer.isOn = true → s.timer.isOn = true ∧ 0 < s'.timer.timeout ∧
      s'.timer.timeout + ticked e = s.timer.timeout)
    (hoff : s'.timer.isOn = false → ticked e = 0) : Timing RTO (tr ++ [e]) s' := by
  refine ⟨hwithin,hinit,hback,?_,?_⟩
  · intro hon'
    obtain ⟨R,age,hago⟩ := h.started (hon hon').1
    exact ⟨R,age + ticked e,(startedAgo_wait hnot).mpr ⟨age,hago,rfl⟩⟩
  · intro R age hago
    obtain ⟨age',hago',rfl⟩ := (startedAgo_wait hnot).mp hago
    obtain ⟨hlt,hleft⟩ := h.waits R age' hago'
    cases hon' : s'.timer.isOn with
    | false =>
      rw [hoff hon']
      exact ⟨by omega,by simp⟩
    | true =>
      obtain ⟨hon₁,hpos,htime⟩ := hon hon'
      have := hleft hon₁
      exact ⟨by omega,fun _ => by omega⟩

theorem Timing.same (h : Timing RTO tr s) (hnot : ¬ Starts e) (hzero : ticked e = 0)
    (htimer : s'.timer = s.timer)
    (hcount : s'.consecutiveRetransmissionNum = s.consecutiveRetransmissionNum) :
    Timing RTO (tr ++ [e]) s' := by
  refine h.wait hnot ?_ ?_ ?_ ?_ (fun _ => hzero)
  · simp only [Within,consecutiveRetransmissions,hcount]
    exact h.within
  · rw [htimer]
    exact h.initial
  · simp only [consecutiveRetransmissions,hcount,htimer]
    exact h.backoff
  · rw [htimer,hzero]
    exact fun hon => ⟨hon,h.pos hon,rfl⟩

/-- The counter is far from its end while the timeout is below `2^64`. -/
theorem Within.count_lt (h : Within RTO s) (hpos : 0 < RTO) :
    s.consecutiveRetransmissions.toNat < 64 := by
  refine (Nat.pow_lt_pow_iff_right (by omega : 1 < 2)).mp (Nat.lt_of_le_of_lt ?_ h)
  exact Nat.le_mul_of_pos_left _ hpos

theorem Within.count_succ (h : Within RTO s) (hpos : 0 < RTO) :
    (s.consecutiveRetransmissionNum + 1).toNat = s.consecutiveRetransmissions.toNat + 1 := by
  have hlt := h.count_lt hpos
  simp only [consecutiveRetransmissions] at hlt ⊢
  have hone : (1 : UInt32).toNat = 1 := rfl
  rw [UInt32.toNat_add,hone]
  omega

theorem new_timing (hRTO : RTO < 2^64) (isn : Wrap32) : Timing RTO [] (TCPSender.new RTO isn) := by
  refine ⟨?_,rfl,?_,by simp [TCPSender.new,Timer.new],?_⟩
  · simpa [Within,TCPSender.new,consecutiveRetransmissions] using hRTO
  · simp [TCPSender.new,Timer.new,consecutiveRetransmissions]
  · intro R age hago
    exact absurd hago not_since_nil

theorem Timing.tick (h : Timing RTO tr s) (hpos : 0 < RTO) {ms : ℕ}
    (hs : s.tick ms = .ok s') (hafter : after ⟨s,.tick ms,out⟩ = s') (hwithin : Within RTO s') :
    Timing RTO (tr ++ [⟨s,.tick ms,out⟩]) s' := by
  rcases tick_clock hs with ⟨hoff,rfl⟩ | ⟨hon,hearly,rfl⟩ | ⟨hexp,-,hdone⟩
  · have hnot : ¬ Starts ⟨s',.tick ms,out⟩ := fun he => by simp [Starts,Expiry,Expires,hoff] at he
    exact h.same hnot (by simp [ticked,hoff]) rfl rfl
  · have hnot : ¬ Starts ⟨s,.tick ms,out⟩ := fun he => Nat.not_le.mpr hearly he.2
    have hticked : ticked ⟨s,.tick ms,out⟩ = ms := if_pos hon
    refine h.wait hnot hwithin h.initial h.backoff ?_ ?_
    · intro _
      rw [hticked]
      simp only [Timer.tick,if_neg (Nat.not_le.mpr hearly)]
      exact ⟨hon,by omega,by omega⟩
    · intro hoff
      rw [Timer.tick_isOn,hon] at hoff
      cases hoff
  · have hstart : Starts ⟨s,.tick ms,out⟩ := hexp
    rcases hdone with ⟨-,hcount,htimer⟩ | ⟨-,hcount,htimer⟩
    · refine .start hpos hstart hafter hwithin ?_ ?_ ?_
      · rw [htimer]
        exact h.initial
      · simp only [htimer,consecutiveRetransmissions,hcount]
        exact h.backoff
      · rw [htimer]
        rfl
    · have hnext := h.within.count_succ hpos
      simp only [Within,consecutiveRetransmissions,hcount,hnext] at hwithin
      refine .start hpos hstart hafter ?_ ?_ ?_ ?_
      · simpa only [Within,consecutiveRetransmissions,hcount,hnext] using hwithin
      · rw [htimer]
        exact h.initial
      · simp only [htimer,consecutiveRetransmissions,hcount,hnext,Timer.start]
        rw [h.backoff,Nat.mul_assoc,← Nat.pow_succ]
        exact Nat.mod_eq_of_lt hwithin
      · rw [htimer]
        rfl

theorem Timing.receive (h : Timing RTO tr s) (hpos : 0 < RTO) {msg : TCPReceiverMessage}
    (hs : s.receive msg = .ok s') (hafter : after ⟨s,.receive msg,out⟩ = s')
    (hwithin : Within RTO s') : Timing RTO (tr ++ [⟨s,.receive msg,out⟩]) s' := by
  rcases receive_clock hs with ⟨hun,htimer,hcount⟩ | ⟨hless,hcount,htimer⟩
  · have hnot : ¬ Starts ⟨s,.receive msg,out⟩ := by
      rintro ⟨hremoves,-⟩
      simp [Removes,hafter,hun] at hremoves
    exact h.same hnot rfl htimer hcount
  · have hback : RTO = RTO * 2^s'.consecutiveRetransmissions.toNat := by
      simp [consecutiveRetransmissions,hcount]
    by_cases hnil : s'.unackedMsgs = []
    · have hnot : ¬ Starts ⟨s,.receive msg,out⟩ := by
        rintro ⟨-,hsome⟩
        rw [hafter] at hsome
        exact hsome hnil
      rw [if_pos hnil] at htimer
      refine h.wait hnot hwithin ?_ ?_ ?_ (fun _ => rfl)
      · rw [htimer]
        exact h.initial
      · rw [← hback,htimer]
        exact h.initial
      · rw [htimer]
        simp
    · have hstart : Starts ⟨s,.receive msg,out⟩ := by
        simp only [Starts,Removes,hafter]
        exact ⟨hless,hnil⟩
      rw [if_neg hnil] at htimer
      refine .start hpos hstart hafter hwithin ?_ ?_ ?_
      · rw [htimer]
        exact h.initial
      · rw [← hback,htimer]
        exact h.initial
      · rw [htimer]
        rfl

theorem Timing.maybeSend (h : Timing RTO tr s) (hpos : 0 < RTO)
    (hs : s.maybeSend = (s',out)) (hafter : after ⟨s,.maybeSend,out⟩ = s')
    (hwithin : Within RTO s') : Timing RTO (tr ++ [⟨s,.maybeSend,out⟩]) s' := by
  have hclock := maybeSend_clock s
  rw [hs] at hclock
  simp only at hclock
  obtain ⟨hcount,⟨rfl,htimer⟩ | ⟨hsent,htimer⟩⟩ := hclock
  · exact h.same (fun hstart => hstart.2 rfl) rfl htimer hcount
  · simp only [Timer.ensureStarted] at htimer
    split_ifs at htimer with hon
    · have hnot : ¬ Starts ⟨s,.maybeSend,out⟩ := by
        rintro ⟨hoff,-⟩
        simp [hon] at hoff
      exact h.same hnot rfl htimer hcount
    · have hstart : Starts ⟨s,.maybeSend,out⟩ := ⟨by simpa using hon,hsent⟩
      refine .start hpos hstart hafter hwithin ?_ ?_ ?_
      · rw [htimer]
        exact h.initial
      · simp only [htimer,consecutiveRetransmissions,hcount]
        exact h.backoff
      · rw [htimer]
        rfl

theorem Timing.step (h : Timing RTO tr s) (hpos : 0 < RTO) (hs : SenderTimer.step s op = .ok (s',out))
    (hwithin : Within RTO s') : Timing RTO (tr ++ [⟨s,op,out⟩]) s' := by
  have hafter := after_eq hs
  cases op with
  | push r =>
    obtain ⟨rfl,-⟩ := Prod.mk.inj (Except.ok.inj hs)
    obtain ⟨htimer,hcount⟩ := push_clock s r
    exact h.same id rfl htimer hcount
  | maybeSend => exact h.maybeSend hpos (Except.ok.inj hs) hafter hwithin
  | receive msg =>
    obtain ⟨t,ht,hret⟩ := bind_ok.mp hs
    obtain ⟨rfl,-⟩ := Prod.mk.inj (Except.ok.inj hret)
    exact h.receive hpos ht hafter hwithin
  | tick ms =>
    obtain ⟨t,ht,hret⟩ := bind_ok.mp hs
    obtain ⟨rfl,-⟩ := Prod.mk.inj (Except.ok.inj hret)
    exact h.tick hpos ht hafter hwithin

/-- The step after the run `tr`, with the initial timeout `RTO`. -/
structure Timed (RTO : ℕ) (tr : Trace) (e : Step) : Prop where
  backoff : (after e).timer.RTO = RTO * 2^(after e).consecutiveRetransmissions.toNat
  grows : (after e).consecutiveRetransmissions.toNat =
      e.before.consecutiveRetransmissions.toNat + 1 ↔ Expiry e ∧ e.before.windowSize ≠ 0
  resets : Removes e → (after e).consecutiveRetransmissions = 0
  keeps : ¬ (Expiry e ∧ e.before.windowSize ≠ 0) → ¬ Removes e →
    (after e).consecutiveRetransmissions = e.before.consecutiveRetransmissions
  requeues : ∀ ms, e.op = .tick ms →
    (Requeues e ↔ ∃ R age, StartedAgo R age tr ∧ R ≤ age + ticked e)
  sending : (e.op = .maybeSend ∨ ∃ r, e.op = .push r) → e.before.timer.isOn = true →
    (after e).timer = e.before.timer

structure Counted (e : Step) : Prop where
  grows : Expiry e ∧ e.before.windowSize ≠ 0 →
    (after e).consecutiveRetransmissions = e.before.consecutiveRetransmissions + 1
  resets : Removes e → (after e).consecutiveRetransmissions = 0
  keeps : ¬ (Expiry e ∧ e.before.windowSize ≠ 0) → ¬ Removes e →
    (after e).consecutiveRetransmissions = e.before.consecutiveRetransmissions

theorem step_counted (hs : step s op = .ok (s',out)) : Counted ⟨s,op,out⟩ := by
  have hafter := after_eq hs
  cases op with
  | push r =>
    obtain ⟨rfl,-⟩ := Prod.mk.inj (Except.ok.inj hs)
    refine ⟨fun h => h.1.elim,False.elim,fun _ _ => ?_⟩
    rw [hafter]
    exact (push_clock s r).2
  | maybeSend =>
    obtain rfl := congrArg Prod.fst (Except.ok.inj hs)
    refine ⟨fun h => h.1.elim,False.elim,fun _ _ => ?_⟩
    rw [hafter]
    exact (maybeSend_clock s).1
  | receive msg =>
    obtain ⟨t,ht,hret⟩ := bind_ok.mp hs
    obtain ⟨rfl,-⟩ := Prod.mk.inj (Except.ok.inj hret)
    refine ⟨fun h => h.1.elim,?_,?_⟩
    · intro hremoves
      rcases receive_clock ht with ⟨hun,-,-⟩ | ⟨-,hcount,-⟩
      · simp [Removes,hafter,hun] at hremoves
      · rw [hafter]
        exact hcount
    · intro _ hnot
      rcases receive_clock ht with ⟨-,-,hcount⟩ | ⟨hless,-,-⟩
      · rw [hafter]
        exact hcount
      · refine absurd ?_ hnot
        simp only [Removes,hafter]
        exact hless
  | tick ms =>
    obtain ⟨t,ht,hret⟩ := bind_ok.mp hs
    obtain ⟨rfl,-⟩ := Prod.mk.inj (Except.ok.inj hret)
    rcases tick_clock ht with ⟨hoff,rfl⟩ | ⟨-,hearly,rfl⟩ | ⟨hexp,-,⟨hw,hcount,-⟩ | ⟨hw,hcount,-⟩⟩
    · refine ⟨fun h => absurd h.1 ?_,False.elim,fun _ _ => by rw [hafter]⟩
      simp [Expiry,Expires,hoff]
    · refine ⟨fun h => absurd h.1 ?_,False.elim,fun _ _ => by rw [hafter]; rfl⟩
      exact fun hexp => Nat.not_le.mpr hearly hexp.2
    · refine ⟨fun h => absurd hw h.2,False.elim,fun _ _ => ?_⟩
      rw [hafter]
      exact hcount
    · refine ⟨fun _ => ?_,False.elim,fun hnot => absurd ⟨hexp,hw⟩ hnot⟩
      rw [hafter]
      exact hcount

theorem requeues_iff {ms : ℕ} (hs : step s (.tick ms) = .ok (s',out)) :
    Requeues ⟨s,.tick ms,out⟩ ↔ s.Expires ms := by
  have hafter := after_eq hs
  obtain ⟨t,ht,hret⟩ := bind_ok.mp hs
  obtain ⟨rfl,-⟩ := Prod.mk.inj (Except.ok.inj hret)
  have hsame : ∀ m : TCPSenderMessage, s.unsentMsgs ≠ ⟨m,true⟩::s.unsentMsgs := by simp
  simp only [Requeues,hafter]
  rcases tick_clock ht with ⟨hoff,rfl⟩ | ⟨-,hearly,rfl⟩ | ⟨hexp,hqueued,-⟩
  · simp [Expires,hoff]
  · have hnot : ¬ s.Expires ms := fun hexp => Nat.not_le.mpr hearly hexp.2
    simp [hnot]
  · simp [hexp,hqueued]

/-- The timer is due exactly when what was ticked since its last start reaches its timeout then. -/
theorem Timing.expires_iff (h : Timing RTO tr s) (ms : ℕ) :
    s.Expires ms ↔ ∃ R age, StartedAgo R age tr ∧ R ≤ age + ticked ⟨s,.tick ms,out⟩ := by
  constructor
  · rintro ⟨hon,hdue⟩
    obtain ⟨R,age,hago⟩ := h.started hon
    have hleft := (h.waits R age hago).2 hon
    refine ⟨R,age,hago,?_⟩
    simp only [ticked,if_pos hon]
    omega
  · rintro ⟨R,age,hago,hreach⟩
    obtain ⟨hlt,hleft⟩ := h.waits R age hago
    simp only [ticked] at hreach
    split_ifs at hreach with hon
    · have := hleft hon
      exact ⟨hon,by omega⟩
    · omega

theorem Timing.timed (h : Timing RTO tr s) (hpos : 0 < RTO)
    (hs : SenderTimer.step s op = .ok (s',out)) (hwithin : Within RTO s') : Timed RTO tr ⟨s,op,out⟩ := by
  have hafter := after_eq hs
  have hcounted := step_counted hs
  constructor
  · rw [hafter]
    exact (h.step hpos hs hwithin).backoff
  · constructor
    · intro hsucc
      by_contra hnot
      by_cases hremoves : Removes ⟨s,op,out⟩
      · rw [hcounted.resets hremoves] at hsucc
        simp at hsucc
      · rw [hcounted.keeps hnot hremoves] at hsucc
        omega
    · intro hexp
      rw [hcounted.grows hexp]
      exact h.within.count_succ hpos
  · exact hcounted.resets
  · exact hcounted.keeps
  · rintro ms rfl
    rw [requeues_iff hs]
    exact h.expires_iff ms
  · intro hsend hon
    rw [hafter]
    rcases hsend with rfl | ⟨r,rfl⟩
    · obtain rfl := congrArg Prod.fst (Except.ok.inj hs)
      rcases (maybeSend_clock s).2 with ⟨-,htimer⟩ | ⟨-,htimer⟩
      · exact htimer
      · exact htimer.trans (if_pos hon)
    · obtain ⟨rfl,-⟩ := Prod.mk.inj (Except.ok.inj hs)
      exact (push_clock s r).1

theorem run_timing (hpos : 0 < RTO) (hRTO : RTO < 2^64)
    (hr : Run step (TCPSender.new RTO isn) tr s) (hwithin : ∀ e ∈ tr, Within RTO (after e)) :
    Timing RTO tr s :=
  Run.history_invariant (Timing RTO) (fun e => Within RTO (after e)) (new_timing hRTO isn)
    (fun h hw hs => h.step hpos hs (after_eq hs ▸ hw)) hr hwithin

/-- Every run of the sender with a timeout of at least one millisecond. -/
theorem retransmission_timing (hpos : 0 < RTO) (hRTO : RTO < 2^64)
    (hr : Run step (TCPSender.new RTO isn) tr s) (hwithin : ∀ e ∈ tr, Within RTO (after e)) :
    s.timer.RTO = RTO * 2^s.consecutiveRetransmissions.toNat ∧
      ∀ tr₁ e tr₂, tr = tr₁ ++ e::tr₂ → Timed RTO tr₁ e := by
  refine ⟨(run_timing hpos hRTO hr hwithin).backoff,?_⟩
  rintro tr₁ e tr₂ rfl
  have htiming := run_timing hpos hRTO hr.to_event
    fun e' he' => hwithin e' (List.mem_append_left _ he')
  obtain ⟨s',hs⟩ := hr.succeeds e (by simp)
  have hw := hwithin e (by simp)
  rw [after_eq hs] at hw
  exact htiming.timed hpos hs hw

theorem retransmission_timing_twice : ∃ tr s, Run step (TCPSender.new 1000 ⟨0⟩) tr s ∧
    s.consecutiveRetransmissions = 2 ∧
    s.timer.RTO = 1000 * 2^s.consecutiveRetransmissions.toNat ∧
    ∀ tr₁ e tr₂, tr = tr₁ ++ e::tr₂ → Timed 1000 tr₁ e := by
  obtain ⟨tr,s,hr,hcount,hwithin⟩ := Run.exists_of_exec step (TCPSender.new 1000 ⟨0⟩)
    [.maybeSend,.tick 400,.tick 600,.maybeSend,.tick 2000]
    (fun tr s => s.consecutiveRetransmissions = 2 ∧ ∀ e ∈ tr, Within 1000 (after e))
    (by decide +kernel)
  exact ⟨tr,s,hr,hcount,retransmission_timing (by decide) (by decide) hr hwithin⟩

def syn : TCPSenderMessage := ⟨⟨0⟩,true,[],false,0⟩

/-- SYN is outstanding, and due at once. -/
def synDue (k : UInt32) : TCPSender :=
  { TCPSender.new 0 ⟨0⟩ with
    hasNotSentSYN := false
    unackedMsgs := [syn]
    unackedSeqnos := 1
    nextSeqno := 1
    consecutiveRetransmissionNum := k
    timer := ⟨true,0,0,0⟩ }

def synQueued (k : UInt32) : TCPSender :=
  { synDue k with
    unackedMsgs := []
    unackedSeqnos := 0
    unsentMsgs := [⟨syn,true⟩]
    unsentSeqnos := 1 }

theorem syn_sent : step (TCPSender.new 0 ⟨0⟩) .maybeSend = .ok (synDue 0,some syn) := by
  decide +kernel

theorem synDue_tick (k : UInt32) : step (synDue k) (.tick 0) = .ok (synQueued (k+1),none) := by
  have hlen : UInt32.ofNat syn.sequenceLength = 1 := by decide
  simp [step,tick,synDue,synQueued,Timer.hasExpired,Timer.tick,retransmit,requeue,
    Timer.doubleRTO,Timer.start,bind,Except.bind,u64,TCPSender.new,hlen]

theorem synQueued_send (k : UInt32) : ∃ m, step (synQueued k) .maybeSend = .ok (synDue k,m) := by
  have hlen : UInt32.ofNat syn.sequenceLength = 1 := by decide
  simp [step,maybeSend,synDue,synQueued,sendUnsent,carrySYN,TCPSender.new,
    Timer.ensureStarted,hlen]

/-- Any number of expiries, each followed by the retransmission. -/
theorem synDue_run (n : ℕ) :
    ∃ tr, Run step (TCPSender.new 0 ⟨0⟩) tr (synDue (UInt32.ofNat n)) := by
  induction n with
  | zero => exact ⟨_,Run.nil.snoc syn_sent⟩
  | succ n ih =>
    obtain ⟨tr,hr⟩ := ih
    obtain ⟨m,hsend⟩ := synQueued_send (UInt32.ofNat n + 1)
    rw [UInt32.ofNat_add]
    exact ⟨_,(hr.snoc (synDue_tick (UInt32.ofNat n))).snoc hsend⟩

def synAcked : TCPSender :=
  { synDue 0 with
    unackedMsgs := []
    unackedSeqnos := 0
    timer := ⟨false,0,0,0⟩ }

/-- With a timeout of zero `2^32` expiries take the counter back to zero; and the timer is due
right after its start, but nothing is sent again when it has been stopped since. -/
theorem zero_timeout :
    (∃ tr s s', Run step (TCPSender.new 0 ⟨0⟩) tr s ∧ (∀ e ∈ tr, Within 0 (after e)) ∧
      s.Expires 0 ∧ s.windowSize ≠ 0 ∧ step s (.tick 0) = .ok (s',none) ∧
      s.consecutiveRetransmissions.toNat = 2^32 - 1 ∧ s'.consecutiveRetransmissions = 0) ∧
    ∃ tr e s, Run step (TCPSender.new 0 ⟨0⟩) (tr ++ [e]) s ∧ e.op = .tick 0 ∧ ¬ Requeues e ∧
      ∃ R age, StartedAgo R age tr ∧ R ≤ age + ticked e := by
  constructor
  · obtain ⟨tr,hr⟩ := synDue_run (2^32 - 1)
    refine ⟨tr,_,_,hr,fun e _ => ?_,⟨rfl,le_rfl⟩,by decide +kernel,synDue_tick _,?_,?_⟩
    · simp [Within]
    · decide +kernel
    · decide +kernel
  · have hack : step (synDue 0) (.receive ⟨some ⟨1⟩,1⟩) = .ok (synAcked,none) := by decide +kernel
    have htick : step synAcked (.tick 0) = .ok (synAcked,none) := by decide +kernel
    have hstart : Starts ⟨TCPSender.new 0 ⟨0⟩,.maybeSend,some syn⟩ := ⟨rfl,by simp⟩
    have hstop : ¬ Starts ⟨synDue 0,.receive ⟨some ⟨1⟩,1⟩,none⟩ := by
      rintro ⟨-,hsome⟩
      rw [after_eq hack] at hsome
      exact hsome rfl
    have hfirst : StartedAgo 0 0 ([] ++ [⟨TCPSender.new 0 ⟨0⟩,.maybeSend,some syn⟩]) := by
      refine (startedAgo_start hstart).mpr ⟨?_,rfl⟩
      rw [after_eq syn_sent]
      rfl
    have hago : StartedAgo 0 0 ([⟨TCPSender.new 0 ⟨0⟩,.maybeSend,some syn⟩] ++
        [⟨synDue 0,.receive ⟨some ⟨1⟩,1⟩,none⟩]) := (startedAgo_wait hstop).mpr ⟨0,hfirst,rfl⟩
    refine ⟨_,_,_,((Run.nil.snoc syn_sent).snoc hack).snoc htick,rfl,?_,0,0,hago,Nat.zero_le _⟩
    rw [requeues_iff htick]
    simp [Expires,synAcked]

end SenderTimer
end Minnow
