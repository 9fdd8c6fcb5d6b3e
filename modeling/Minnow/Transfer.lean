import Minnow.NothingLost

/-! A transfer can always be completed: from wherever it stands, and even if everything in flight is
lost, the calls of the two sides and a network that delivers what is sent from now on bring all bytes
to the reader, and the sender to the point where nothing is left to acknowledge. -/
namespace Minnow
namespace EndToEnd

open Library TCPSender SenderRuns

/-- What is in flight in `s` is not delivered. -/
def Later (s : State) : Op → Prop
  | .deliverSegment i => s.segments.length ≤ i
  | .deliverAck i => s.acks.length ≤ i
  | _ => True

instance (s : State) (op : Op) : Decidable (Later s op) :=
  match op with
  | .write _ | .close | .push | .maybeSend | .tick _ | .sendAck | .deliverSegment _ | .deliverAck _ |
    .read _ => by unfold Later; infer_instance

/-- A step of the same kind as those of the run, after everything in flight in `s₀` is lost. -/
structure Orderly (D : List Byte) (s₀ s : State) (op : Op) : Prop where
  driven : Driven D s op
  reach : InReach s op
  inOrder : ¬ FINOvertakes D s op
  later : Later s₀ op

/-- The end is not known while bytes are missing. -/
def Calm (D : List Byte) (s : State) : Prop :=
  s.reassembler.reachEnd = true → s.inboundStream.bytesPushed = D.length

instance (D : List Byte) (s : State) : Decidable (Calm D s) := by unfold Calm; infer_instance

/-- A transfer that was in `s₀` and has gone on in good order. -/
structure Underway (D : List Byte) (C : ℕ) (isn : Wrap32) (s₀ s : State) : Prop where
  positive : 0 < C
  fits : D.length + C < 2^64
  small : 2*D.length + 2^33 ≤ 2^64
  inv : ∃ tr rtr, Inv D C isn tr s rtr
  whole : Whole C isn s
  near : Near s.senderSide
  calm : Calm D s
  room : 0 < s.outboundStream.capacity
  segments : s₀.segments.length ≤ s.segments.length
  acks : s₀.acks.length ≤ s.acks.length

variable {D : List Byte} {C : ℕ} {isn : Wrap32} {s₀ s s' : State} {op : Op} {out : Output}
  {m : TCPSenderMessage}

theorem push_capacity (t : TCPSender) (r : ByteStream) : (t.push r).2.capacity = r.capacity := by
  obtain ⟨rest,hcap⟩ := segment_induction (P := fun _ r' _ => r'.capacity = r.capacity)
    (fun _ _ _ h _ _ => h) r.peek.length t r r.peek rfl
  exact hcap

/-- A step keeps the size of the outbound stream, and nothing that was sent is forgotten. -/
theorem step_keeps (hs : step s op = .ok (s',out)) :
    s'.outboundStream.capacity = s.outboundStream.capacity ∧
      s.segments.length ≤ s'.segments.length ∧ s.acks.length ≤ s'.acks.length := by
  cases op with
  | write data =>
    cases hs
    exact ⟨rfl,le_rfl,le_rfl⟩
  | close =>
    cases hs
    exact ⟨rfl,le_rfl,le_rfl⟩
  | push =>
    cases hs
    exact ⟨push_capacity _ _,le_rfl,le_rfl⟩
  | maybeSend =>
    cases hs
    exact ⟨rfl,by simp,le_rfl⟩
  | tick ms =>
    obtain ⟨t,-,hret⟩ := bind_ok.mp hs
    cases hret
    exact ⟨rfl,le_rfl,le_rfl⟩
  | sendAck =>
    cases hs
    exact ⟨rfl,le_rfl,by simp⟩
  | deliverSegment i =>
    simp only [step] at hs
    split at hs
    · cases hs
      exact ⟨rfl,le_rfl,le_rfl⟩
    · obtain ⟨res,-,hret⟩ := bind_ok.mp hs
      cases hret
      exact ⟨rfl,le_rfl,le_rfl⟩
  | deliverAck i =>
    simp only [step] at hs
    split at hs
    · cases hs
      exact ⟨rfl,le_rfl,le_rfl⟩
    · obtain ⟨t,-,hret⟩ := bind_ok.mp hs
      cases hret
      exact ⟨rfl,le_rfl,le_rfl⟩
  | read len =>
    cases hs
    exact ⟨rfl,le_rfl,le_rfl⟩

theorem Underway.step (h : Underway D C isn s₀ s) (hop : Orderly D s₀ s op)
    (hs : EndToEnd.step s op = .ok (s',out)) (hnear : Near s'.senderSide) (hcalm : Calm D s') :
    Underway D C isn s₀ s' := by
  obtain ⟨tr,rtr,hinv⟩ := h.inv
  obtain ⟨hcap,hsegments,hacks⟩ := step_keeps hs
  obtain ⟨⟨rtr',hinv'⟩,-⟩ :=
    hinv.step h.positive h.fits h.small hop.driven hop.reach hop.inOrder hs
  exact ⟨h.positive,h.fits,h.small,⟨_,rtr',hinv'⟩,
    h.whole.step h.positive h.fits h.small hinv hop.driven hop.reach hop.inOrder hs,hnear,hcalm,
    hcap ▸ h.room,h.segments.trans hsegments,h.acks.trans hacks⟩

theorem near_of_subset {t : SenderRuns.State} {stream : ByteStream} {x : TCPSender} (h : Near t)
    (hsub : x.outstanding ⊆ t.sender.outstanding) (hnext : x.nextSeqno = t.sender.nextSeqno) :
    Near ⟨stream,x⟩ :=
  fun m hm => hnext ▸ h m (hsub hm)

theorem Underway.next_le (h : Underway D C isn s₀ s) : s.sender.nextSeqno ≤ D.length + 2 := by
  obtain ⟨tr,rtr,hinv⟩ := h.inv
  exact hinv.sender.numbering.next_le

theorem Underway.known_le_next (h : Underway D C isn s₀ s) : known s ≤ s.sender.nextSeqno := by
  obtain ⟨tr,rtr,hinv⟩ := h.inv
  unfold known
  split_ifs with hsync
  · exact hinv.receiver.absoluteAckno_le hsync hinv.tiled.filled
  · exact Nat.zero_le _

theorem Underway.next_lt (h : Underway D C isn s₀ s) :
    s.sender.nextSeqno < s.receiver.absoluteAckno + 2^31 := by
  have hknown : known s ≤ s.receiver.absoluteAckno := by
    unfold known
    split_ifs
    · exact le_rfl
    · exact Nat.zero_le _
  by_cases hle : s.sender.nextSeqno ≤ known s
  · omega
  · obtain ⟨m,hm,hcov⟩ := h.whole.kept (known s) le_rfl (Nat.lt_of_not_le hle)
    have hnear : s.sender.nextSeqno < m.absolute + 2^31 := h.near m hm
    have hlo := hcov.1
    omega

theorem Underway.readAll (h : Underway D C isn s₀ s) :
    ∃ s', Reaches EndToEnd.step (Orderly D s₀) s s' ∧ Underway D C isn s₀ s' ∧
      s'.inboundStream.peek = [] ∧ s'.sender = s.sender ∧ s'.outboundStream = s.outboundStream ∧
      s'.segments = s.segments ∧ known s' = known s := by
  obtain ⟨tr,rtr,hinv⟩ := h.inv
  have hstream : s.inboundStream.WF := hinv.receiver.inv.tracks.stream
  have hop : Orderly D s₀ s (.read s.inboundStream.bytesBuffered) := ⟨trivial,trivial,id,trivial⟩
  refine ⟨{ s with inboundStream := s.inboundStream.pop s.inboundStream.bytesBuffered },
    .single rfl hop,h.step hop rfl h.near h.calm,?_,rfl,rfl,rfl,rfl⟩
  change (s.inboundStream.pop _).peek = []
  rw [ByteStream.pop_peek hstream,← hstream.length_peek,List.drop_length]

theorem Underway.flush (h : Underway D C isn s₀ s) :
    ∃ s', Reaches EndToEnd.step (Orderly D s₀) s s' ∧ Underway D C isn s₀ s' ∧
      s'.sender.unsentMsgs = [] ∧ s'.sender.nextSeqno = s.sender.nextSeqno := by
  generalize hn : s.sender.unsentMsgs.length = n
  induction n generalizing s with
  | zero => exact ⟨s,.refl _ _ s,h,List.length_eq_zero_iff.mp hn,rfl⟩
  | succ n ih =>
    obtain ⟨w,rest,hsplit⟩ := List.exists_cons_of_length_eq_add_one hn
    have hsyn := h.whole.queues.syn_sent (by simp [State.senderSide,outstanding,hsplit])
    have hsend : s.sender.maybeSend =
        (s.sender.sendUnsent w rest,some (s.sender.carrySYN w.msg)) := by
      simp only [maybeSend,hsplit]
    have hop : Orderly D s₀ s .maybeSend := ⟨trivial,trivial,id,trivial⟩
    have hstep : EndToEnd.step s .maybeSend = .ok ({ s with
        sender := s.sender.sendUnsent w rest
        segments := s.segments ++ [s.sender.carrySYN w.msg] },⟨[],[]⟩) := by
      simp only [EndToEnd.step,hsend,Option.toList_some]
    have hnext := h.step hop hstep
      (near_of_subset h.near (sendUnsent_perm hsyn hsplit).subset rfl) h.calm
    rw [hsplit,List.length_cons] at hn
    obtain ⟨s',hreach,hunder,hnil,hsame⟩ := ih hnext (Nat.succ.inj hn)
    exact ⟨s',.trans (.single hstep hop) hreach,hunder,hnil,hsame⟩

theorem Underway.acceptedAckno (h : Underway D C isn s₀ s)
    (hsync : s.receiver.initialSeqNum.isSome = true) :
    s.sender.acceptedAckno (s.receiver.send s.inboundStream) = some (known s) := by
  obtain ⟨tr,rtr,hinv⟩ := h.inv
  have hisn : s.sender.isn = isn := hinv.sender.numbering.isn_eq
  have hnext := h.next_le
  have hlt := h.next_lt
  have hsmall := h.small
  have hle := h.known_le_next
  rw [known_le hsync] at hle ⊢
  have hreceiver : s.receiver.initialSeqNum = some isn := by
    rcases hinv.receiver.isn with hn | hs
    · simp [hn] at hsync
    · exact hs.1
  simp only [TCPSender.acceptedAckno,TCPReceiver.send,hreceiver,Option.map_some,hisn]
  rw [Wrap32.unwrap_wrap isn (by omega) hlt (by omega),Option.filter_some,if_pos (by simpa using hle)]

/-- The sender drops its oldest message once that is assembled. -/
theorem Underway.drops (h : Underway D C isn s₀ s) {t : TCPSender}
    (ht : s.sender.receive (s.receiver.send s.inboundStream) = .ok t)
    {rest : List TCPSenderMessage} (hun : s.sender.unackedMsgs = m::rest)
    (hknown : m.absolute + m.sequenceLength ≤ known s) : t.unackedMsgs.length ≤ rest.length := by
  have hmem : m ∈ s.sender.outstanding := by simp [outstanding,hun]
  have hnumbered : Numbered isn s.sender.nextSeqno m := h.whole.queues.numbered m hmem
  have hnear : s.sender.nextSeqno < m.absolute + 2^31 := h.near m hmem
  have hisn : s.sender.isn = isn := h.whole.queues.isn_eq
  have hsmall := h.small
  have hnext := h.next_le
  have hsync : s.receiver.initialSeqNum.isSome = true := by
    by_contra hno
    rw [known,if_neg hno] at hknown
    have hpos := hnumbered.pos
    omega
  have hgo : s.sender.acknowledges (known s) m = true :=
    (Numbered.acknowledges_iff (hisn ▸ hnumbered) (by omega) hnear _).mpr hknown
  rcases receive_cases ht with ⟨hnone,-⟩ | ⟨K,n,retransmissions,timer,hK,-,rfl⟩
  · rw [h.acceptedAckno hsync] at hnone
    cases hnone
  · obtain rfl : known s = K := Option.some.inj ((h.acceptedAckno hsync).symm.trans hK)
    change (s.sender.unackedMsgs.dropWhile (s.sender.acknowledges (known s))).length ≤ _
    rw [hun,List.dropWhile_cons_of_pos hgo]
    exact (List.dropWhile_suffix _).length_le

/-- The receiver acknowledges once more: the sender drops its oldest message if that is assembled,
and opens its window as far as the receiver has room. -/
theorem Underway.refresh (h : Underway D C isn s₀ s) (hnil : s.sender.unsentMsgs = []) :
    ∃ s', Reaches EndToEnd.step (Orderly D s₀) s s' ∧ Underway D C isn s₀ s' ∧
      s'.sender.unsentMsgs = [] ∧ SameNumbering s.sender s'.sender ∧
      s'.outboundStream = s.outboundStream ∧ s'.inboundStream = s.inboundStream ∧
      s'.sender.windowSize = UInt16.ofNat (min s.inboundStream.availableCapacity 65535) ∧
      s'.sender.unackedMsgs.length ≤ s.sender.unackedMsgs.length ∧
      ∀ m rest, s.sender.unackedMsgs = m::rest → m.absolute + m.sequenceLength ≤ known s →
        s'.sender.unackedMsgs.length ≤ rest.length := by
  obtain ⟨b,htimer⟩ := h.whole.timer
  obtain ⟨t,ht⟩ := SenderTimer.receive_defined htimer.on (s.receiver.send s.inboundStream)
  obtain ⟨hsame,hunsent,dropped,hsplit,-⟩ := receive_ok ht
  have hop : Orderly D s₀ s .sendAck := ⟨trivial,trivial,id,trivial⟩
  let s₁ : State := { s with
    acks := s.acks ++ [(s.receiver.absoluteAckno,s.receiver.send s.inboundStream)] }
  have h₁ : Underway D C isn s₀ s₁ := h.step hop rfl h.near h.calm
  have hlast : s₁.acks[s.acks.length]? =
      some (s.receiver.absoluteAckno,s.receiver.send s.inboundStream) := by
    simp [s₁]
  have hop₁ : Orderly D s₀ s₁ (.deliverAck s.acks.length) := by
    refine ⟨hnil,?_,id,h.acks⟩
    intro ack hack
    rw [hlast] at hack
    cases hack
    exact h.next_lt
  have hstep : EndToEnd.step s₁ (.deliverAck s.acks.length) = .ok ({ s₁ with sender := t },
      ⟨[],s.sender.unackedMsgs.take (s.sender.unackedMsgs.length - t.unackedMsgs.length)⟩) := by
    simp only [EndToEnd.step,hlast,show s₁.sender = s.sender from rfl,ht,bind,Except.bind]
  have h₂ := h₁.step hop₁ hstep
    (near_of_subset h.near (receive_subperm ht).subset hsame.next) h.calm
  refine ⟨_,.trans (.single rfl hop) (.single hstep hop₁),h₂,hunsent.trans hnil,hsame,rfl,rfl,?_,?_,?_⟩
  · rcases receive_cases ht with ⟨-,rfl⟩ | ⟨K,n,retransmissions,timer,-,-,rfl⟩
    · rfl
    · rfl
  · rw [hsplit,List.length_append]
    exact Nat.le_add_left _ _
  · exact fun m rest hun hknown => h.drops ht hun hknown

/-- The segment starts no later than where the receiver is, and fits. -/
structure Due (C : ℕ) (s : State) (m : TCPSenderMessage) : Prop where
  start : m.payloadStart ≤ s.reassembler.firstUnassembledGlobalIndex + 1
  length : m.payload.length ≤ C
  drained : s.inboundStream.peek = []

section Receiver

variable {rtr : ReassemblerRuns.Trace} {next : ℕ}

theorem Due.inside (hdue : Due C s m)
    (h : ReceiverInv D C isn next rtr s.receiver s.assembly) :
    m.payloadStart - 1 + m.payload.length ≤ s.inboundStream.bytesPopped + C := by
  have hstream : s.inboundStream.WF := h.inv.tracks.stream
  have hpushed : s.inboundStream.bytesPushed = s.reassembler.firstUnassembledGlobalIndex :=
    h.inv.tracks.pushed_eq
  have hlen := hstream.length_peek
  have hp := hstream.pushed_eq
  have hstart := hdue.start
  have hlength := hdue.length
  rw [hdue.drained,List.length_nil] at hlen
  omega

theorem Due.not_closesEarly (hdue : Due C s m)
    (h : ReceiverInv D C isn next rtr s.receiver s.assembly) (hcalm : Calm D s)
    (hends : m.FIN = true → EndsStream D m) :
    ¬ ReassemblerRuns.ClosesEarly D s.assembly (insertOp m) := by
  rintro ⟨hknown,⟨j,hj,hnot⟩,-⟩
  have hpushed : s.inboundStream.bytesPushed = s.reassembler.firstUnassembledGlobalIndex :=
    h.inv.tracks.pushed_eq
  have hcap : s.inboundStream.capacity = C := h.inv.tracks.capacity_eq
  have hinside := hdue.inside h
  have hstart := hdue.start
  apply hnot
  by_cases hlt : j < s.reassembler.firstUnassembledGlobalIndex
  · exact Or.inl hlt
  · rcases hknown with hend | hFIN
    · have hall := hcalm hend
      omega
    · have hall := hends hFIN
      rw [EndsStream] at hall
      refine Or.inr ⟨?_,Or.inr ⟨by omega,by omega⟩⟩
      change j < s.inboundStream.bytesPopped + s.inboundStream.capacity
      omega

theorem first_le {a₀ a : ReassemblerRuns.State}
    {e : Event ReassemblerRuns.State ReassemblerRuns.Op (List Byte)}
    (h : ReassemblerRuns.Inv D C rtr a₀) (h' : ReassemblerRuns.Inv D C (rtr ++ [e]) a) :
    a₀.reassembler.firstUnassembledGlobalIndex ≤ a.reassembler.firstUnassembledGlobalIndex := by
  apply h.tracks.first_mono h'.tracks
  rw [ReassemblerRuns.received_snoc]
  exact Finset.subset_union_left

theorem Due.past (hdue : Due C s m) (h : ReceiverInv D C isn next rtr s.receiver s.assembly)
    {a : ReassemblerRuns.State}
    (hinv : ReassemblerRuns.Inv D C (rtr ++ [⟨s.assembly,insertOp m,[]⟩]) a) :
    m.payloadStart - 1 + m.payload.length ≤ a.reassembler.firstUnassembledGlobalIndex := by
  have hinside := hdue.inside h
  have hstart := hdue.start
  have hmono : s.reassembler.firstUnassembledGlobalIndex ≤
      a.reassembler.firstUnassembledGlobalIndex := first_le h.inv hinv
  by_contra hlt
  apply hinv.tracks.gap
  rw [ReassemblerRuns.received_snoc,insertOp,h.inv.arrivals_eq,Finset.mem_union,
    Reassembler.mem_delivered]
  refine Or.inr ⟨by omega,by omega,?_⟩
  change _ < s.inboundStream.bytesPopped + C
  omega

theorem Due.complete (hdue : Due C s m)
    (h : ReceiverInv D C isn next rtr s.receiver s.assembly) {a : ReassemblerRuns.State}
    (hinv : ReassemblerRuns.Inv D C (rtr ++ [⟨s.assembly,insertOp m,[]⟩]) a)
    (hends : m.FIN = true → EndsStream D m) (hcalm : Calm D s)
    (hknown : s.reassembler.reachEnd = true ∨ m.FIN = true) :
    a.output.bytesPushed = D.length := by
  have hle := hinv.tracks.first_le
  have hpushed := hinv.tracks.pushed_eq
  rcases hknown with hreach | hFIN
  · have hall := hcalm hreach
    have hold : s.inboundStream.bytesPushed = s.reassembler.firstUnassembledGlobalIndex :=
      h.inv.tracks.pushed_eq
    have hmono : s.reassembler.firstUnassembledGlobalIndex ≤
        a.reassembler.firstUnassembledGlobalIndex := first_le h.inv hinv
    omega
  · have hpast := hdue.past h hinv
    have hall := hends hFIN
    rw [EndsStream] at hall
    omega

theorem Due.receive (hdue : Due C s m) (hC : 0 < C) (hfit : D.length + C < 2^64)
    (hfar : D.length + 2^32 ≤ 2^64) (h : ReceiverInv D C isn next rtr s.receiver s.assembly)
    {T : List Interval} {n : ℕ} (htile : Tiling T (ReassemblerRuns.received C rtr) n)
    (hmem : interval m ∈ T) (hm : Placed D isn next m) (hends : m.FIN = true → EndsStream D m)
    (hcalm : Calm D s) (hlo : s.reassembler.firstUnassembledGlobalIndex < m.payloadStart + 2^31)
    (hsync : (s.receiver.synchronize m).initialSeqNum = some isn) :
    ∃ receiver' r' inbound',
      s.receiver.receive m s.reassembler s.inboundStream = .ok (receiver',r',inbound') ∧
      receiver'.initialSeqNum = some isn ∧
      m.absolute + m.sequenceLength ≤ receiver'.absoluteAckno ∧
      (r'.reachEnd = true → inbound'.bytesPushed = D.length) := by
  have hfeed := feeds_insertOp hm
  have hclean := not_leavesStaleBits hC hfit h.inv htile hm hmem
  have hearly := hdue.not_closesEarly h hcalm hends
  have hstart := hdue.start
  have hfirst : s.reassembler.firstUnassembledGlobalIndex ≤ D.length := h.inv.tracks.first_le
  obtain ⟨a',hs,hinv,-,-⟩ := h.inv.insert hC hfit hfeed hclean
  have hend := h.inv.insert_closedAtEnd hC hfit h.closedAtEnd hfeed hclean hearly hs
  have hinsert := ReassemblerRuns.step_insert hs
  have hlimit : s.reassembler.firstUnassembledGlobalIndex + 2^32 ≤ 2^64 := by omega
  have hnear : m.payloadStart < s.reassembler.firstUnassembledGlobalIndex + 2^31 := by omega
  obtain ⟨receiver',hrun,hisn,hindex,-,hfin⟩ := TCPReceiver.receive_synchronized hsync
    (TCPReceiver.streamIndex_eq hm.seqno hm.payloadStart_pos hlimit hlo hnear) hinsert
  have hpast := hdue.past h hinv
  have hpos := hm.payloadStart_pos
  have hdone := hdue.complete h hinv hends hcalm
  refine ⟨receiver',a'.reassembler,a'.output,hrun,hisn,?_,?_⟩
  · have hflag : m.FIN.toNat ≤ receiver'.isFinished.toNat := by
      cases hFIN : m.FIN with
      | false => exact Nat.zero_le _
      | true =>
        have hshut : a'.output.isClosed = true :=
          hend.mpr ⟨⟨_,List.mem_append_right _ (List.mem_singleton_self _),hFIN⟩,
            hdone (Or.inr hFIN)⟩
        rw [hfin,hFIN,hshut]
        simp
    rw [TCPReceiver.absoluteAckno,hindex,TCPSenderMessage.sequenceLength]
    simp only [TCPSenderMessage.payloadStart] at hpast hpos
    omega
  · intro hreach
    apply hdone
    rw [hinv.reachEnd] at hreach
    obtain ⟨e,he,hlast⟩ := hreach
    rcases List.mem_append.mp he with he | he
    · exact Or.inl (h.inv.reachEnd.mpr ⟨e,he,hlast⟩)
    · rw [List.mem_singleton.mp he] at hlast
      exact Or.inr hlast

end Receiver

theorem Underway.due (h : Underway D C isn s₀ s) (hempty : s.inboundStream.peek = [])
    (hmem : m ∈ s.sender.outstanding) (hle : m.absolute ≤ known s) :
    Due C s m ∧ s.reassembler.firstUnassembledGlobalIndex < m.payloadStart + 2^31 ∧
      (s.receiver.synchronize m).initialSeqNum = some isn := by
  obtain ⟨tr,rtr,hinv⟩ := h.inv
  have hplaced : Placed D isn s.sender.nextSeqno m := hinv.sender.numbering.placed m hmem
  have hnear : s.sender.nextSeqno < m.absolute + 2^31 := h.near m hmem
  have hpushed : s.inboundStream.bytesPushed = s.reassembler.firstUnassembledGlobalIndex :=
    hinv.receiver.inv.tracks.pushed_eq
  have hinside := hplaced.inside
  refine ⟨⟨?_,h.whole.modest.payloads m hmem,hempty⟩,?_,?_⟩
  · rw [known] at hle
    split_ifs at hle with hsync
    · have hindex : s.receiver.firstUnassembledIndex = s.reassembler.firstUnassembledGlobalIndex :=
        hinv.receiver.first
      rw [TCPReceiver.absoluteAckno,hindex] at hle
      have hstart := hplaced.start
      simp only [TCPSenderMessage.payloadStart] at hinside ⊢
      split_ifs at hstart with hsyn
      · simp only [hsyn,Bool.toNat_true]
        omega
      · cases hfin : s.receiver.isFinished with
        | false =>
          simp only [hfin,Bool.toNat_false,Bool.eq_false_of_not_eq_true hsyn] at hle ⊢
          omega
        | true =>
          -- then all of `D` is assembled
          have hall : s.inboundStream.bytesPushed = D.length :=
            (hinv.receiver.closedAtEnd.mp (hinv.receiver.finished hfin)).2
          omega
    · have hbool := m.SYN.toNat_le
      simp only [TCPSenderMessage.payloadStart]
      omega
  · have hlt : s.reassembler.firstUnassembledGlobalIndex < s.sender.nextSeqno ∨
        s.reassembler.firstUnassembledGlobalIndex = 0 := by
      by_contra hno
      obtain ⟨hge,hzero⟩ := not_or.mp hno
      have hbelow := hinv.tiled.filled _ (hinv.receiver.inv.tracks.below
        (j := s.reassembler.firstUnassembledGlobalIndex - 1)
        (Nat.sub_one_lt (by exact hzero)))
      change _ < s.sender.nextSeqno - 1 at hbelow
      omega
    simp only [TCPSenderMessage.payloadStart]
    omega
  · cases hsync : (s.receiver.synchronize m).initialSeqNum with
    | none =>
      obtain ⟨hsyn,hnone⟩ := synchronize_none hsync
      have hstart := hplaced.start
      rw [known,hnone] at hle
      simp [hsyn] at hstart hle
      omega
    | some w => rw [hinv.receiver.synchronize_some hplaced hsync]

theorem Underway.deliver (h : Underway D C isn s₀ s) (hempty : s.inboundStream.peek = [])
    {init : List TCPSenderMessage} (hsent : s.segments = init ++ [m])
    (hlater : s₀.segments.length ≤ init.length) (hmem : m ∈ s.sender.outstanding)
    (hle : m.absolute ≤ known s) :
    ∃ s', Reaches EndToEnd.step (Orderly D s₀) s s' ∧ Underway D C isn s₀ s' ∧
      s'.sender = s.sender ∧ m.absolute + m.sequenceLength ≤ known s' := by
  obtain ⟨tr,rtr,hinv⟩ := h.inv
  obtain ⟨hdue,hlo,hsync⟩ := h.due hempty hmem hle
  have hsmall := h.small
  have hlast : s.segments[init.length]? = some m := by simp [hsent]
  have hin : m ∈ s.segments := List.mem_of_getElem? hlast
  obtain ⟨hplaced,hends⟩ := hinv.segments m hin
  obtain ⟨receiver',r',inbound',hrun,hisn,hack,hcalm⟩ := hdue.receive h.positive h.fits (by omega)
    hinv.receiver hinv.tiled (List.mem_append_left _ (List.mem_map_of_mem hin)) hplaced hends
    h.calm hlo hsync
  have hop : Orderly D s₀ s (.deliverSegment init.length) := by
    refine ⟨trivial,?_,?_,hlater⟩
    · intro x hx
      rw [hlast] at hx
      cases hx
      have hstart := hdue.start
      exact ⟨hlo,by omega⟩
    · rintro ⟨x,hx,-,hearly⟩
      rw [hlast] at hx
      cases hx
      exact hdue.not_closesEarly hinv.receiver h.calm hends hearly
  have hstep : EndToEnd.step s (.deliverSegment init.length) = .ok ({ s with
      receiver := receiver'
      reassembler := r'
      inboundStream := inbound' },⟨[],[]⟩) := by
    simp only [EndToEnd.step,hlast,hrun,bind,Except.bind]
  refine ⟨_,.single hstep hop,h.step hop hstep h.near hcalm,rfl,?_⟩
  rw [known,if_pos (by simp [hisn])]
  exact hack

/-- While nothing waits unsent, the oldest message is the first one that waits for its
acknowledgment, and the receiver has all before it. -/
theorem Underway.oldest_known (h : Underway D C isn s₀ s) (hnil : s.sender.unsentMsgs = [])
    {rest : List TCPSenderMessage} (hun : s.sender.unackedMsgs = m::rest) : m.absolute ≤ known s := by
  by_contra hlt
  have hm : m ∈ s.sender.outstanding := by simp [outstanding,hun]
  have hbelow := (h.whole.queues.numbered m hm).below
  have hpos := (h.whole.queues.numbered m hm).pos
  obtain ⟨x,hx,hcov⟩ := h.whole.kept (known s) le_rfl (by
    change _ ≤ s.sender.nextSeqno at hbelow
    omega)
  obtain ⟨ms,hord,hpair⟩ := h.whole.queues.ordered
  have hpair' := hpair.sublist hord.unacked_sublist
  change (s.sender.unackedMsgs).Pairwise Before at hpair'
  rw [hun,List.pairwise_cons] at hpair'
  rw [outstanding,hnil,hun] at hx
  have hlo := hcov.1
  rcases List.mem_cons.mp hx with rfl | hx
  · exact hlt hlo
  · have hbefore := hpair'.1 x hx
    simp only [Before,TCPSenderMessage.payloadStart] at hbefore
    omega

theorem Underway.retransmit (h : Underway D C isn s₀ s) (hnil : s.sender.unsentMsgs = [])
    {rest : List TCPSenderMessage} (hun : s.sender.unackedMsgs = m::rest) :
    ∃ s' init, Reaches EndToEnd.step (Orderly D s₀) s s' ∧ Underway D C isn s₀ s' ∧
      s'.segments = init ++ [m] ∧ s₀.segments.length ≤ init.length ∧ s'.sender.unsentMsgs = [] ∧
      s'.sender.unackedMsgs = m::rest ∧ s'.sender.nextSeqno = s.sender.nextSeqno := by
  obtain ⟨b,htimer⟩ := h.whole.timer
  have hne : s.sender.unackedMsgs ≠ [] := by simp [hun]
  have hexp : s.sender.Expires s.sender.timer.timeout := ⟨htimer.on hne,le_rfl⟩
  obtain ⟨t,ht⟩ : ∃ t, s.sender.tick s.sender.timer.timeout = .ok t := by
    rcases SenderTimer.tick_timer s.sender s.sender.timer.timeout with ⟨t,ht,-⟩ | ⟨-,-,hno⟩
    · exact ⟨t,ht⟩
    · exact absurd hno hne
  have hsame := (tick_ok ht).1
  obtain ⟨hunsent,hunacked⟩ : t.unsentMsgs = [⟨m,true⟩] ∧ t.unackedMsgs = rest := by
    rcases (tick_ok ht).2 with ⟨hno,-⟩ | ⟨-,x,hx,hunsent⟩
    · exact absurd hexp hno
    · rw [hun] at hx
      obtain ⟨rfl,hrest⟩ := List.cons.inj hx
      exact ⟨by rw [hunsent,hnil],hrest.symm⟩
  have hop : Orderly D s₀ s (.tick s.sender.timer.timeout) := ⟨hnil,trivial,id,trivial⟩
  have hstep : EndToEnd.step s (.tick s.sender.timer.timeout) =
      .ok ({ s with sender := t },⟨[],[]⟩) := by
    simp only [EndToEnd.step,ht,bind,Except.bind]
  have h₁ := h.step hop hstep (near_of_subset h.near (tick_perm ht).subset hsame.next) h.calm
  have hsyn : t.hasNotSentSYN = false :=
    hsame.SYN.trans (h.whole.queues.syn_sent (by simp [State.senderSide,outstanding,hun]))
  have hsend : t.maybeSend = (t.sendUnsent ⟨m,true⟩ [],some m) := by
    simp only [maybeSend,hunsent,carrySYN,hsyn,Bool.false_eq_true,if_false]
  have hop₁ : Orderly D s₀ { s with sender := t } .maybeSend := ⟨trivial,trivial,id,trivial⟩
  have hstep₁ : EndToEnd.step { s with sender := t } .maybeSend = .ok ({ s with
      sender := t.sendUnsent ⟨m,true⟩ []
      segments := s.segments ++ [m] },⟨[],[]⟩) := by
    simp only [EndToEnd.step,hsend,Option.toList_some]
  have h₂ := h₁.step hop₁ hstep₁
    (near_of_subset h₁.near (sendUnsent_perm hsyn hunsent).subset rfl) h.calm
  refine ⟨_,s.segments,.trans (.single hstep hop) (.single hstep₁ hop₁),h₂,rfl,h.segments,rfl,?_,
    hsame.next⟩
  simp only [sendUnsent,carrySYN,hsyn,hunacked,Bool.false_eq_true,if_false,if_true]

/-- One round: the oldest message goes out again, arrives, and is acknowledged. -/
theorem Underway.resend (h : Underway D C isn s₀ s) (hnil : s.sender.unsentMsgs = [])
    {rest : List TCPSenderMessage} (hun : s.sender.unackedMsgs = m::rest) :
    ∃ s', Reaches EndToEnd.step (Orderly D s₀) s s' ∧ Underway D C isn s₀ s' ∧
      s'.sender.unsentMsgs = [] ∧ s'.sender.unackedMsgs.length ≤ rest.length ∧
      s'.sender.nextSeqno = s.sender.nextSeqno := by
  obtain ⟨s₁,init,hreach₁,h₁,hsent,hlater,hnil₁,hun₁,hnext₁⟩ := h.retransmit hnil hun
  obtain ⟨s₂,hreach₂,h₂,hempty,hsender₂,-,hsegments,-⟩ := h₁.readAll
  have hmem : m ∈ s₂.sender.outstanding := by
    rw [hsender₂,outstanding,hun₁]
    exact List.mem_append_right _ List.mem_cons_self
  obtain ⟨s₃,hreach₃,h₃,hsender₃,hknown⟩ := h₂.deliver hempty (hsegments.trans hsent) hlater hmem
    (h₂.oldest_known (hsender₂ ▸ hnil₁) (hsender₂ ▸ hun₁))
  obtain ⟨s₄,hreach₄,h₄,hnil₄,hsame,-,-,-,-,hdrop⟩ :=
    h₃.refresh (hsender₃ ▸ hsender₂ ▸ hnil₁)
  refine ⟨s₄,hreach₁.trans (hreach₂.trans (hreach₃.trans hreach₄)),h₄,hnil₄,
    hdrop m rest (hsender₃ ▸ hsender₂ ▸ hun₁) hknown,?_⟩
  rw [hsame.next,hsender₃,hsender₂,hnext₁]

theorem Underway.settle (h : Underway D C isn s₀ s) :
    ∃ s', Reaches EndToEnd.step (Orderly D s₀) s s' ∧ Underway D C isn s₀ s' ∧
      s'.sender.outstanding = [] ∧ s'.sender.nextSeqno = s.sender.nextSeqno := by
  obtain ⟨s₁,hreach₁,h₁,hnil₁,hnext₁⟩ := h.flush
  generalize hn : s₁.sender.unackedMsgs.length = n
  induction n using Nat.strong_induction_on generalizing s₁ with
  | h n ih =>
    cases hun : s₁.sender.unackedMsgs with
    | nil => exact ⟨s₁,hreach₁,h₁,by simp [outstanding,hnil₁,hun],hnext₁⟩
    | cons m rest =>
      obtain ⟨s₂,hreach₂,h₂,hnil₂,hless,hnext₂⟩ := h₁.resend hnil₁ hun
      rw [hun,List.length_cons] at hn
      exact ih _ (by omega) s₂ (hreach₁.trans hreach₂) h₂ hnil₂ (hnext₂.trans hnext₁) rfl

/-- Nothing is out, and the window is open. -/
structure Ready (t : TCPSender) : Prop where
  idle : t.outstanding = []
  window : t.windowSize ≠ 0

theorem Ready.queues {t : TCPSender} (h : Ready t) : t.unsentMsgs = [] ∧ t.unackedMsgs = [] := by
  simpa [outstanding] using h.idle

theorem Underway.ready (h : Underway D C isn s₀ s) :
    ∃ s', Reaches EndToEnd.step (Orderly D s₀) s s' ∧ Underway D C isn s₀ s' ∧
      Ready s'.sender ∧ s'.sender.nextSeqno = s.sender.nextSeqno := by
  obtain ⟨s₁,hreach₁,h₁,hidle,hnext₁⟩ := h.settle
  obtain ⟨s₂,hreach₂,h₂,hempty,hsender,-⟩ := h₁.readAll
  have hidle₂ : s₂.sender.unsentMsgs = [] ∧ s₂.sender.unackedMsgs = [] := by
    rw [hsender]
    simpa [outstanding] using hidle
  obtain ⟨s₃,hreach₃,h₃,hnil,hsame,-,-,hwindow,hless,-⟩ := h₂.refresh hidle₂.1
  refine ⟨s₃,hreach₁.trans (hreach₂.trans hreach₃),h₃,⟨?_,?_⟩,?_⟩
  · rw [hidle₂.2] at hless
    simp [outstanding,hnil,List.length_eq_zero_iff.mp (Nat.le_zero.mp hless)]
  · obtain ⟨tr,rtr,hinv⟩ := h₂.inv
    have hstream : s₂.inboundStream.WF := hinv.receiver.inv.tracks.stream
    have hcap : s₂.inboundStream.capacity = C := hinv.receiver.inv.tracks.capacity_eq
    have hpos := h.positive
    have hfree : s₂.inboundStream.availableCapacity = C := by
      rw [hstream.available,hcap,← hstream.length_peek,hempty]
      rfl
    rw [hwindow,hfree]
    intro hzero
    have hnat := congrArg UInt16.toNat hzero
    rw [UInt16.toNat_ofNat'] at hnat
    simp only [UInt16.toNat_zero] at hnat
    omega
  · rw [hsame.next,hsender,hnext₁]

theorem Underway.allows (h : Underway D C isn s₀ s) (hready : Ready s.sender) :
    s.sender.windowAllows = true := by
  have hcounted := h.whole.queues.counted
  have hflight : s.sender.sequenceNumbersInFlight = 0 := by
    have hnil := hready.queues
    have hunsent : s.sender.unsentSeqnos = _ := hcounted.unsent
    have hunacked : s.sender.unackedSeqnos = _ := hcounted.unacked
    rw [sequenceNumbersInFlight,hunsent,hunacked]
    simp [State.senderSide,hnil.1,hnil.2]
  rw [windowAllows_iff]
  refine Or.inr ?_
  rw [hflight]
  exact Nat.pos_of_ne_zero fun hzero => hready.window (UInt16.toNat_inj.mp hzero)

theorem Underway.sendFlag (h : Underway D C isn s₀ s) (hready : Ready s.sender)
    (hdue : s.sender.hasNotSentSYN = true ∨ s.sender.canSendFIN = true) :
    ∃ s', Reaches EndToEnd.step (Orderly D s₀) s s' ∧ Underway D C isn s₀ s' ∧
      s.sender.nextSeqno < s'.sender.nextSeqno := by
  obtain ⟨hnil,-⟩ := hready.queues
  have hsend : s.sender.maybeSend = (s.sender.sendFlagMessage,some s.sender.flagMessage) := by
    have hgo : (s.sender.hasNotSentSYN || s.sender.canSendFIN) = true := by
      simpa only [Bool.or_eq_true] using hdue
    simp only [maybeSend,hnil,hgo,h.allows hready,Bool.and_self,if_true]
  have hgrow : 0 < s.sender.hasNotSentSYN.toNat + s.sender.canSendFIN.toNat := by
    rcases hdue with hdue | hdue <;> simp [hdue]
  have hop : Orderly D s₀ s .maybeSend := ⟨trivial,trivial,id,trivial⟩
  have hstep : EndToEnd.step s .maybeSend = .ok ({ s with
      sender := s.sender.sendFlagMessage
      segments := s.segments ++ [s.sender.flagMessage] },⟨[],[]⟩) := by
    simp only [EndToEnd.step,hsend,Option.toList_some]
  refine ⟨_,.single hstep hop,h.step hop hstep ?_ h.calm,Nat.lt_add_of_pos_right hgrow⟩
  intro m hm
  have hmem := (sendFlagMessage_perm hnil).subset hm
  rw [hready.idle,List.mem_singleton] at hmem
  rw [hmem]
  change s.sender.nextSeqno + _ < s.sender.nextSeqno + 2^31
  have hsyn := s.sender.hasNotSentSYN.toNat_le
  have hfin := s.sender.canSendFIN.toNat_le
  omega

/-- All that is outstanding has been numbered from `n` on, out of a room of `k`. -/
structure Grown (n k : ℕ) (t : TCPSender) : Prop where
  le : n ≤ t.nextSeqno
  sum : t.nextSeqno + t.room = n + k
  above : ∀ m ∈ t.outstanding, n ≤ m.absolute

theorem Grown.emplaceSegment {n k : ℕ} {t : TCPSender} {data : List Byte} (h : Grown n k t)
    (hne : data ≠ []) (hgo : t.windowAllows = true) :
    Grown n k (t.emplaceSegment (data.take t.segmentSize)) ∧
      n < (t.emplaceSegment (data.take t.segmentSize)).nextSeqno := by
  have htake := take_segmentSize_ne_nil hne hgo
  have hroom := room_emplaceSegment hgo htake (List.length_take_le _ _)
  have hpos := List.length_pos_iff.mpr htake
  have hle := h.le
  have hsum := h.sum
  have hnext : (t.emplaceSegment (data.take t.segmentSize)).nextSeqno =
      t.nextSeqno + (data.take t.segmentSize).length := rfl
  refine ⟨⟨by omega,by omega,?_⟩,by omega⟩
  intro m hm
  rcases List.mem_cons.mp ((emplaceSegment_perm t _).subset hm) with rfl | hm
  · exact hle
  · exact h.above m hm

theorem Grown.finishPush {n k : ℕ} {t : TCPSender} (h : Grown n k t) (r : ByteStream) :
    t.nextSeqno ≤ (t.finishPush r).nextSeqno ∧ (t.finishPush r).nextSeqno ≤ n + k + 1 ∧
      ∀ m ∈ (t.finishPush r).outstanding, n ≤ m.absolute := by
  have hsum := h.sum
  rcases finishPush_cases t r with ⟨-,heq⟩ | ⟨init,last,hsplit,heq⟩
  · rw [heq]
    exact ⟨le_rfl,by simp only; omega,h.above⟩
  · obtain ⟨hlast,hmem⟩ := mem_outstanding_finishPush hsplit r
    have hflag := (t.finFlag r).toNat_le
    have hnext : (t.finishPush r).nextSeqno = t.nextSeqno + (t.finFlag r).toNat := by rw [heq]
    refine ⟨by omega,by omega,?_⟩
    intro m hm
    rcases hmem m hm with rfl | hm
    · exact h.above last.msg hlast
    · exact h.above m hm

theorem push_grows {t : TCPSender} {r : ByteStream} (hidle : t.outstanding = [])
    (hgo : r.peek ≠ [] ∧ t.windowAllows = true) :
    t.nextSeqno < (t.push r).1.nextSeqno ∧ (t.push r).1.nextSeqno ≤ t.nextSeqno + t.room + 1 ∧
      ∀ m ∈ (t.push r).1.outstanding, t.nextSeqno ≤ m.absolute := by
  have hinit : Grown t.nextSeqno t.room t := ⟨le_rfl,rfl,by simp [hidle]⟩
  obtain ⟨rest,hgrown,hless⟩ := segment_rounds
    (P := fun x _ _ => Grown t.nextSeqno t.room x ∧ t.nextSeqno < x.nextSeqno)
    (fun x _ data hx hne hallows => hx.1.emplaceSegment hne hallows) hgo r
    (hinit.emplaceSegment hgo.1 hgo.2)
  obtain ⟨hnext,hroom,habove⟩ := hgrown.finishPush (segment r.peek.length t r r.peek).2
  exact ⟨hless.trans_le hnext,hroom,habove⟩

theorem Underway.sendData (h : Underway D C isn s₀ s) (hready : Ready s.sender)
    (hsyn : s.sender.hasNotSentSYN = false) (hne : s.outboundStream.peek ≠ []) :
    ∃ s', Reaches EndToEnd.step (Orderly D s₀) s s' ∧ Underway D C isn s₀ s' ∧
      s.sender.nextSeqno < s'.sender.nextSeqno := by
  obtain ⟨hnil,-⟩ := hready.queues
  obtain ⟨hless,hroom,hall⟩ := push_grows hready.idle ⟨hne,h.allows hready⟩
  have hop : Orderly D s₀ s .push := by
    refine ⟨⟨hnil,fun hno => ?_⟩,trivial,id,trivial⟩
    rw [State.senderSide,hsyn] at hno
    cases hno
  refine ⟨_,.single rfl hop,h.step hop rfl ?_ h.calm,hless⟩
  intro m hm
  have hlo := hall m hm
  have hwindow : s.sender.room ≤ 65536 := by
    have hlt := s.sender.windowSize.toNat_lt
    unfold TCPSender.room
    split_ifs <;> omega
  change (s.sender.push s.outboundStream).1.nextSeqno < m.absolute + 2^31
  omega

theorem Underway.writeRest (h : Underway D C isn s₀ s) (hempty : s.outboundStream.peek = [])
    (hless : s.outboundStream.bytesPushed < D.length) :
    ∃ s', Reaches EndToEnd.step (Orderly D s₀) s s' ∧ Underway D C isn s₀ s' ∧
      s'.sender = s.sender ∧ s'.outboundStream.peek ≠ [] := by
  have hstream : s.outboundStream.WF := h.whole.queues.stream
  have hroom := h.room
  obtain ⟨tr,rtr,hinv⟩ := h.inv
  have hopen : s.outboundStream.isClosed = false := by
    by_contra hclosed
    have hall : s.outboundStream.bytesPushed = D.length :=
      hinv.sender.numbering.closed ((Bool.not_eq_false _).mp hclosed)
    omega
  have hfree : s.outboundStream.availableCapacity = s.outboundStream.capacity := by
    rw [hstream.available,← hstream.length_peek,hempty]
    rfl
  have hop : Orderly D s₀ s (.write (D.drop s.outboundStream.bytesPushed)) :=
    ⟨⟨List.prefix_rfl,hopen⟩,trivial,id,trivial⟩
  refine ⟨_,.single rfl hop,h.step hop rfl h.near h.calm,rfl,?_⟩
  rw [ByteStream.push_peek hstream,hempty,hfree,← List.length_pos_iff]
  simp only [List.nil_append,List.length_take,List.length_drop]
  omega

/-- The application closes, `push` sees the end, and FIN goes out. -/
theorem Underway.finish (h : Underway D C isn s₀ s) (hready : Ready s.sender)
    (hsyn : s.sender.hasNotSentSYN = false) (hfin : s.sender.hasNotSentFIN = true)
    (hempty : s.outboundStream.peek = []) (hall : s.outboundStream.bytesPushed = D.length) :
    ∃ s', Reaches EndToEnd.step (Orderly D s₀) s s' ∧ Underway D C isn s₀ s' ∧
      s.sender.nextSeqno < s'.sender.nextSeqno := by
  have hstream : s.outboundStream.WF := h.whole.queues.stream
  obtain ⟨hnil,-⟩ := hready.queues
  have hfinished : s.outboundStream.close.isFinished = true := by
    rw [ByteStream.isFinished_iff (ByteStream.close_wf hstream)]
    exact ⟨ByteStream.close_isClosed _,hempty⟩
  have hpush : s.sender.push s.outboundStream.close =
      ({ s.sender with streamIsFinished := true },s.outboundStream.close) := by
    have hrun : segment s.outboundStream.close.peek.length s.sender s.outboundStream.close
        s.outboundStream.close.peek = (s.sender,s.outboundStream.close) :=
      segment_stop (fun hgo => hgo.1 hempty) _ _
    simp only [TCPSender.push,hrun,Prod.mk.injEq,and_true]
    rcases finishPush_cases s.sender s.outboundStream.close with ⟨-,heq⟩ | ⟨init,last,hsplit,-⟩
    · rw [heq,hfinished]
    · simp [hnil] at hsplit
  have hop : Orderly D s₀ s .close := ⟨hall,trivial,id,trivial⟩
  have h₁ : Underway D C isn s₀ { s with outboundStream := s.outboundStream.close } :=
    h.step hop rfl h.near h.calm
  have hop₁ : Orderly D s₀ { s with outboundStream := s.outboundStream.close } .push := by
    refine ⟨⟨hnil,fun hno => ?_⟩,trivial,id,trivial⟩
    rw [State.senderSide,hsyn] at hno
    cases hno
  have hstep₁ : EndToEnd.step { s with outboundStream := s.outboundStream.close } .push =
      .ok ({ s with
        outboundStream := s.outboundStream.close
        sender := { s.sender with streamIsFinished := true } },⟨[],[]⟩) := by
    simp only [EndToEnd.step,pushState,State.senderSide,hpush]
  have h₂ := h₁.step hop₁ hstep₁ h.near h.calm
  obtain ⟨s',hreach,h',hless⟩ := h₂.sendFlag ⟨hready.idle,hready.window⟩
    (Or.inr (by simp [canSendFIN,hfin]))
  exact ⟨s',.trans (.single rfl hop) (.trans (.single hstep₁ hop₁) hreach),h',hless⟩

theorem Underway.advance (h : Underway D C isn s₀ s) (hready : Ready s.sender)
    (hless : s.sender.nextSeqno < D.length + 2) :
    ∃ s', Reaches EndToEnd.step (Orderly D s₀) s s' ∧ Underway D C isn s₀ s' ∧
      s.sender.nextSeqno < s'.sender.nextSeqno := by
  obtain ⟨tr,rtr,hinv⟩ := h.inv
  have hnumbering := hinv.sender.numbering
  cases hsyn : s.sender.hasNotSentSYN with
  | true => exact h.sendFlag hready (Or.inl hsyn)
  | false =>
    have hnext : s.sender.nextSeqno =
        s.outboundStream.bytesPopped + 1 + (!s.sender.hasNotSentFIN).toNat := hnumbering.next hsyn
    cases hfin : s.sender.hasNotSentFIN with
    | false =>
      -- FIN only goes behind the last byte
      have hpopped := (hnumbering.popped_of_finished (hnumbering.finSent hfin).2).1
      change s.outboundStream.bytesPopped = D.length at hpopped
      rw [hfin] at hnext
      simp only [Bool.not_false,Bool.toNat_true] at hnext
      omega
    | true =>
      by_cases hempty : s.outboundStream.peek = []
      · by_cases hall : s.outboundStream.bytesPushed < D.length
        · obtain ⟨s₁,hreach₁,h₁,hsender,hne⟩ := h.writeRest hempty hall
          obtain ⟨s₂,hreach₂,h₂,hgrow⟩ := h₁.sendData (hsender ▸ hready) (hsender ▸ hsyn) hne
          exact ⟨s₂,hreach₁.trans hreach₂,h₂,hsender ▸ hgrow⟩
        · have hle : s.outboundStream.bytesPushed ≤ D.length := hnumbering.pushed_le
          exact h.finish hready hsyn hfin hempty (by omega)
      · exact h.sendData hready hsyn hempty

theorem Underway.complete (h : Underway D C isn s₀ s) (hidle : s.sender.outstanding = [])
    (hall : s.sender.nextSeqno = D.length + 2) :
    s.inboundStream.isClosed = true ∧ s.inboundStream.bytesPushed = D.length := by
  have hknown : D.length + 2 ≤ known s := by
    by_contra hlt
    obtain ⟨m,hm,-⟩ := h.whole.kept (known s) le_rfl (by omega)
    rw [hidle] at hm
    cases hm
  obtain ⟨tr,rtr,hinv⟩ := h.inv
  have hsync : s.receiver.initialSeqNum.isSome = true := by
    by_contra hno
    rw [known,if_neg hno] at hknown
    omega
  have hfirst := hinv.receiver.first
  have hle := hinv.receiver.inv.tracks.first_le
  rw [known_le hsync,TCPReceiver.absoluteAckno,hfirst] at hknown
  have hfin : s.receiver.isFinished = true := by
    by_contra hno
    simp only [Bool.eq_false_of_not_eq_true hno,Bool.toNat_false] at hknown
    omega
  have hclosed := hinv.receiver.finished hfin
  exact ⟨hclosed,(hinv.receiver.closedAtEnd.mp hclosed).2⟩

end EndToEnd
end Minnow
