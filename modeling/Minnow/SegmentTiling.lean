import Minnow.Library.Tiling
import Minnow.SenderRuns

/-! The payloads of a sender's messages are intervals of the stream that never overlap
partially: a retransmission repeats one of them, and a new segment starts where all end. -/
namespace Minnow
namespace SenderRuns

open Library TCPSender

def interval (m : TCPSenderMessage) : Interval := ⟨m.payloadStart - 1,m.payload.length⟩

/-- The payloads of the outstanding messages, with further intervals `T`, and the next index. -/
def Tiled (T : List Interval) (S : Finset ℕ) (s : State) : Prop :=
  Tiling (T ++ s.sender.outstanding.map interval) S (s.sender.nextSeqno - 1)

variable {D : List Byte} {isn : Wrap32} {s : State} {T : List Interval} {S : Finset ℕ}

theorem Tiled.of_subperm (h : Tiled T S s) {t : TCPSender} (hnext : s.sender.nextSeqno ≤ t.nextSeqno)
    (hsub : t.outstanding.Subperm s.sender.outstanding) :
    Tiled T S { s with sender := t } := by
  apply Tiling.mono h
  · intro a ha
    rcases List.mem_append.mp ha with ha | ha
    · exact List.mem_append_left _ ha
    · obtain ⟨m,hm,rfl⟩ := List.mem_map.mp ha
      exact List.mem_append_right _ (List.mem_map_of_mem (hsub.subset hm))
  · exact Nat.sub_le_sub_right hnext 1

theorem Tiled.emplaceSegment (h : Tiled T S s) (hpos : 0 < s.sender.nextSeqno) (k : ℕ) :
    Tiled T S ⟨s.outboundStream.pop k,
      s.sender.emplaceSegment (s.outboundStream.peek.take k)⟩ := by
  generalize s.outboundStream.peek.take k = data
  have hstart : s.sender.nextSeqno - 1 ≤ (interval (s.sender.dataMessage data)).start := le_rfl
  apply (Tiling.cons h hstart).mono
  · intro a ha
    simp only [outstanding,TCPSender.emplaceSegment,List.map_append,List.map_cons,List.map_nil,
      List.mem_append,List.mem_cons,List.not_mem_nil,or_false] at ha ⊢
    tauto
  · change max (s.sender.nextSeqno - 1) (s.sender.nextSeqno - 1 + data.length) ≤
      s.sender.nextSeqno + data.length - 1
    omega

theorem Tiled.push (h : Tiled T S s) (hinv : Inv D isn s) (hfirst : SYNFirst s .push) :
    Tiled T S (pushState s) := by
  obtain ⟨-,-,hseg⟩ := hinv.segment_induction hfirst (P := Tiled T S) h (by
    intro t ht hsyn k htile
    have hnext := ht.next hsyn
    exact htile.emplaceSegment (by omega) k)
  have hfin := (pushState_spec s).2
  -- FIN does not belong to the payload
  have hsame : (pushState s).sender.outstanding.map interval =
        (segmentState s).sender.outstanding.map interval ∧
      (segmentState s).sender.nextSeqno ≤ (pushState s).sender.nextSeqno := by
    rcases hfin.unsent with ⟨hnil,hnil',hnext,-⟩ | ⟨ws,last,hq,hq',hnext,-⟩
    · refine ⟨?_,hnext.ge⟩
      rw [outstanding,outstanding,hnil,hnil',hfin.unacked]
    · refine ⟨?_,by omega⟩
      simp [outstanding,hq,hq',hfin.unacked,interval,TCPSenderMessage.payloadStart]
  rw [Tiled,hsame.1]
  exact Tiling.mono hseg (fun a ha => ha) (Nat.sub_le_sub_right hsame.2 1)

theorem Tiled.maybeSend (h : Tiled T S s) (hinv : Inv D isn s) :
    Tiled T S { s with sender := s.sender.maybeSend.1 } := by
  rcases maybeSend_cases s.sender with ⟨heq,-⟩ | ⟨heq,hq,hdue⟩ | ⟨w,rest,hq,heq⟩
  · rw [heq]
    exact h
  · have hstart : s.sender.nextSeqno - 1 ≤ (interval s.sender.flagMessage).start := by
      change s.sender.nextSeqno - 1 ≤ s.sender.nextSeqno + s.sender.hasNotSentSYN.toNat - 1
      omega
    rw [heq]
    apply (Tiling.cons h hstart).mono
    · have hperm := ((sendFlagMessage_perm hq).map interval).append_left T
      exact (hperm.trans List.perm_middle).subset
    · change max (s.sender.nextSeqno - 1)
        (s.sender.nextSeqno + s.sender.hasNotSentSYN.toNat - 1 + 0) ≤
        s.sender.nextSeqno + (s.sender.hasNotSentSYN.toNat + s.sender.canSendFIN.toNat) - 1
      omega
  · have hsyn := hinv.syn_sent (by simp [outstanding,hq])
    rw [heq]
    exact h.of_subperm (sendUnsent_same hsyn).next.ge (sendUnsent_perm hsyn hq).subperm

end SenderRuns
end Minnow
