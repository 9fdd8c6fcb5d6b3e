import Minnow.SenderTimer

/-! Acknowledgments that a sender is to ignore: those of numbers that it has not used, and those
that come after a larger one. The window fields are written before the ackno is looked at. -/
namespace Minnow
namespace SenderTimer

open Library TCPSender

def acceptedAt (s : TCPSender) : Op → Option ℕ
  | .receive msg => s.acceptedAckno msg
  | _ => none

def accepted (tr : Trace) : ℕ :=
  tr.foldl (fun A e => max A ((acceptedAt e.before e.op).getD 0)) 0

/-- The message has an ackno that is impossible or outdated. -/
def Ignored (tr : Trace) (s : TCPSender) (msg : TCPReceiverMessage) : Prop :=
  ∃ ackno ∈ msg.ackno, s.nextSeqno < ackno.unwrap s.isn s.nextSeqno ∨
    ackno.unwrap s.isn s.nextSeqno < accepted tr

/-- The message repeats the window, and does not cover the oldest message in flight; a window of
zero has not been probed yet. -/
structure Harmless (s : TCPSender) (msg : TCPReceiverMessage) : Prop where
  window : msg.windowSize = s.windowSize
  probe : s.zeroWindowSizeSpecialCaseFlag = (s.windowSize == 0)
  uncovered : ∀ K ∈ s.acceptedAckno msg, ∀ m ∈ s.unackedMsgs.head?, s.acknowledges K m = false

variable {s s' : TCPSender} {tr : Trace}

theorem noteWindow_eq_iff (s : TCPSender) (windowSize : UInt16) :
    s.noteWindow windowSize = s ↔
      windowSize = s.windowSize ∧ s.zeroWindowSizeSpecialCaseFlag = (s.windowSize == 0) := by
  constructor
  · intro h
    have hw : windowSize = s.windowSize := congrArg TCPSender.windowSize h
    have hflag := congrArg TCPSender.zeroWindowSizeSpecialCaseFlag h
    rw [hw] at hflag
    exact ⟨hw,hflag.symm⟩
  · rintro ⟨rfl,hflag⟩
    rw [noteWindow,← hflag]

theorem receiveAckno_uncovered {K : ℕ}
    (h : ∀ m ∈ s.unackedMsgs.head?, s.acknowledges K m = false) : s.receiveAckno K = .ok s := by
  have hdrop : s.dropAcked K s.unackedMsgs s.unackedSeqnos false =
      .ok (s.unackedMsgs,s.unackedSeqnos,false) := by
    cases hun : s.unackedMsgs with
    | nil => rfl
    | cons m ms =>
      have hstop := h m (by simp [hun])
      simp only [acknowledges,decide_eq_false_iff_not,Nat.not_le] at hstop
      rw [dropAcked,if_pos hstop]
  simp only [receiveAckno,hdrop,bind,Except.bind,Bool.false_eq_true,if_false]

theorem receive_same_iff (s : TCPSender) (msg : TCPReceiverMessage) :
    s.receive msg = .ok s ↔ Harmless s msg := by
  constructor
  · intro h
    rcases receive_cases h with ⟨hnone,heq⟩ | ⟨K,n,k,timer,hK,-,heq⟩
    · obtain ⟨hw,hflag⟩ := (noteWindow_eq_iff s _).mp heq.symm
      exact ⟨hw,hflag,by simp [hnone]⟩
    · have hwindow : s.windowSize = msg.windowSize := congrArg TCPSender.windowSize heq
      have hflag : s.zeroWindowSizeSpecialCaseFlag = (msg.windowSize == 0) :=
        congrArg TCPSender.zeroWindowSizeSpecialCaseFlag heq
      have hqueue : s.unackedMsgs = s.unackedMsgs.dropWhile (s.acknowledges K) :=
        congrArg TCPSender.unackedMsgs heq
      refine ⟨hwindow.symm,by rw [hflag,hwindow],?_⟩
      intro K' hK' m hm
      obtain rfl : K = K' := Option.some.inj (hK.symm.trans hK')
      have hhead := List.head?_dropWhile_not (s.acknowledges K) s.unackedMsgs
      rw [← hqueue,Option.mem_def.mp hm] at hhead
      exact hhead
  · intro h
    have hsame := (noteWindow_eq_iff s _).mpr ⟨h.window,h.probe⟩
    simp only [receive,hsame]
    cases hack : msg.ackno with
    | none => rfl
    | some ackno =>
      simp only
      split_ifs with himpossible
      · rfl
      · apply receiveAckno_uncovered
        refine h.uncovered _ ?_
        simp [acceptedAckno,hack,Option.filter,Nat.le_of_not_lt himpossible]

/-- After any run a message whose ackno is to be ignored leads back to the same state exactly when
it is harmless. -/
theorem ignored_harmless_iff {RTO : ℕ} {isn : Wrap32} (hr : Run step (TCPSender.new RTO isn) tr s) :
    ∀ msg, Ignored tr s msg →
      (Run step (TCPSender.new RTO isn) (tr ++ [⟨s,.receive msg,none⟩]) s ↔ Harmless s msg) := by
  intro msg _
  rw [← receive_same_iff]
  constructor
  · intro hrun
    obtain ⟨t,ht,hret⟩ := bind_ok.mp hrun.last
    obtain ⟨rfl,-⟩ := Prod.mk.inj (Except.ok.inj hret)
    exact ht
  · intro hsame
    refine hr.snoc ?_
    simp only [step,hsame,bind,Except.bind]

/-- The first ack of two, with the window of the second one. -/
theorem ignored_harmless_iff_repeated : ∃ tr s, Run step (TCPSender.new 1000 ⟨0⟩) tr s ∧
    Ignored tr s ⟨some ⟨1⟩,5⟩ ∧
    Run step (TCPSender.new 1000 ⟨0⟩) (tr ++ [⟨s,.receive ⟨some ⟨1⟩,5⟩,none⟩]) s := by
  obtain ⟨tr,s,hr,hold,hsame⟩ := Run.exists_of_exec step (TCPSender.new 1000 ⟨0⟩)
    [.maybeSend,.receive ⟨some ⟨1⟩,5⟩,.push ((ByteStream.new 2).push [10,11]),.maybeSend,
      .receive ⟨some ⟨3⟩,5⟩,.push ((ByteStream.new 1).push [12]),.maybeSend]
    (fun tr s => (⟨1⟩ : Wrap32).unwrap s.isn s.nextSeqno < accepted tr ∧
      s.receive ⟨some ⟨1⟩,5⟩ = .ok s) (by decide +kernel)
  have hmsg : Ignored tr s ⟨some ⟨1⟩,5⟩ := ⟨⟨1⟩,rfl,Or.inr hold⟩
  exact ⟨tr,s,hr,hmsg,(ignored_harmless_iff hr _ hmsg).mpr ((receive_same_iff s _).mp hsame)⟩

/-- An ackno of numbers not used yet opens the window, and so does an old one that comes after the
window has been closed. -/
theorem ignored_not_harmless :
    (∃ tr s, Run step (TCPSender.new 1000 ⟨0⟩) tr s ∧ Ignored tr s ⟨some ⟨100⟩,1000⟩ ∧
      ¬ Run step (TCPSender.new 1000 ⟨0⟩) (tr ++ [⟨s,.receive ⟨some ⟨100⟩,1000⟩,none⟩]) s) ∧
    ∃ tr s, Run step (TCPSender.new 1000 ⟨0⟩) tr s ∧ Ignored tr s ⟨some ⟨1⟩,1000⟩ ∧
      s.windowSize = 0 ∧
      ¬ Run step (TCPSender.new 1000 ⟨0⟩) (tr ++ [⟨s,.receive ⟨some ⟨1⟩,1000⟩,none⟩]) s := by
  constructor
  · obtain ⟨tr,s,hr,hbeyond,hchanged⟩ := Run.exists_of_exec step (TCPSender.new 1000 ⟨0⟩)
      [.maybeSend]
      (fun _ s => s.nextSeqno < (⟨100⟩ : Wrap32).unwrap s.isn s.nextSeqno ∧
        step s (.receive ⟨some ⟨100⟩,1000⟩) ≠ .ok (s,none)) (by decide +kernel)
    exact ⟨tr,s,hr,⟨⟨100⟩,rfl,Or.inl hbeyond⟩,fun hrun => hchanged hrun.last⟩
  · obtain ⟨tr,s,hr,hold,hclosed,hchanged⟩ := Run.exists_of_exec step (TCPSender.new 1000 ⟨0⟩)
      [.maybeSend,.receive ⟨some ⟨1⟩,5⟩,.push ((ByteStream.new 2).push [10,11]),.maybeSend,
        .receive ⟨some ⟨3⟩,0⟩]
      (fun tr s => (⟨1⟩ : Wrap32).unwrap s.isn s.nextSeqno < accepted tr ∧ s.windowSize = 0 ∧
        step s (.receive ⟨some ⟨1⟩,1000⟩) ≠ .ok (s,none)) (by decide +kernel)
    exact ⟨tr,s,hr,⟨⟨1⟩,rfl,Or.inr hold⟩,hclosed,fun hrun => hchanged hrun.last⟩

end SenderTimer
end Minnow
