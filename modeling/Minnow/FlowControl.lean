import Minnow.NothingLost

/-! Flow control: what the sender puts on the network is what the receiver has promised to take, as
long as the acknowledgments do not overtake each other. -/
namespace Minnow

open Library TCPSender SenderRuns

namespace SenderRuns

variable {K A E lo hi : ℕ} {isn : Wrap32} {s : State} {t : TCPSender} {m : TCPSenderMessage}
  {ms : List TCPSenderMessage}

theorem card_le_seqnos (S : Finset ℕ) (hcov : ∀ a ∈ S, ∃ m ∈ ms, Covers m a) : S.card ≤ seqnos ms := by
  induction ms generalizing S with
  | nil =>
    have hempty : S = ∅ := Finset.eq_empty_of_forall_notMem fun a ha => by
      obtain ⟨m,hm,-⟩ := hcov a ha
      cases hm
    simp [hempty]
  | cons m ms ih =>
    have hsplit := Finset.card_filter_add_card_filter_not (s := S) fun a => Covers m a
    have hfirst : (S.filter fun a => Covers m a).card ≤ m.sequenceLength := by
      have hsub : (S.filter fun a => Covers m a) ⊆
          Finset.Ico m.absolute (m.absolute + m.sequenceLength) := by
        intro a ha
        exact Finset.mem_Ico.mpr (Finset.mem_filter.mp ha).2
      have hle := Finset.card_le_card hsub
      rwa [Nat.card_Ico,Nat.add_sub_cancel_left] at hle
    have hrest : (S.filter fun a => ¬ Covers m a).card ≤ seqnos ms := by
      apply ih
      intro a ha
      obtain ⟨hS,hnot⟩ := Finset.mem_filter.mp ha
      obtain ⟨x,hx,hxa⟩ := hcov a hS
      rcases List.mem_cons.mp hx with rfl | hx
      · exact absurd hxa hnot
      · exact ⟨x,hx,hxa⟩
    rw [seqnos_cons]
    omega

theorem Kept.le_seqnos (h : Kept A t) : t.nextSeqno ≤ A + seqnos t.outstanding := by
  have hcard := card_le_seqnos (Finset.Ico A t.nextSeqno) fun a ha =>
    h a (Finset.mem_Ico.mp ha).1 (Finset.mem_Ico.mp ha).2
  rw [Nat.card_Ico] at hcard
  omega

/-- FIN alone may make a message longer than the distance to the next one. -/
theorem seqnos_le_twice (lo hi : ℕ) (hpair : ms.Pairwise Before)
    (hnodup : (ms.map TCPSenderMessage.absolute).Nodup) (hlo : ∀ m ∈ ms, lo ≤ m.absolute)
    (hhi : ∀ m ∈ ms, m.absolute + m.sequenceLength ≤ hi) (hpos : ∀ m ∈ ms, 0 < m.sequenceLength)
    (hle : lo ≤ hi) : 2*lo + seqnos ms ≤ 2*hi := by
  induction ms generalizing lo with
  | nil => simpa using hle
  | cons m ms ih =>
    obtain ⟨hbefore,hpair⟩ := List.pairwise_cons.mp hpair
    rw [List.map_cons,List.nodup_cons] at hnodup
    have hm := hlo m List.mem_cons_self
    have hend := hhi m List.mem_cons_self
    have hsome := hpos m List.mem_cons_self
    have hflag := m.FIN.toNat_le
    simp only [TCPSenderMessage.sequenceLength] at hend hsome
    have hrest := ih (m.absolute + max 1 (m.SYN.toNat + m.payload.length)) hpair hnodup.2
      (by
        intro x hx
        have hxm := hbefore x hx
        have hne : x.absolute ≠ m.absolute := fun heq =>
          hnodup.1 (heq ▸ List.mem_map_of_mem hx)
        simp only [Before,TCPSenderMessage.payloadStart] at hxm
        omega)
      (fun x hx => hhi x (List.mem_cons_of_mem _ hx)) (fun x hx => hpos x (List.mem_cons_of_mem _ hx))
      (by omega)
    rw [seqnos_cons,TCPSenderMessage.sequenceLength]
    omega

/-- While fewer than `2^31` numbers are out the counters do not wrap around. -/
theorem Queues.inFlight (h : Queues isn s) (hnear : Near s)
    (hnodup : (s.sender.outstanding.map TCPSenderMessage.absolute).Nodup) :
    s.sender.sequenceNumbersInFlight.toNat = seqnos s.sender.outstanding := by
  obtain ⟨ms,hord,hpair⟩ := h.ordered
  have hperm : ms.Perm s.sender.outstanding := hord.perm
  have hsame : seqnos ms = seqnos s.sender.outstanding := (hperm.map _).sum_eq
  have hlt : seqnos ms < 2^32 := by
    rcases ms with _ | ⟨m,ms⟩
    · simp
    · have hm : m ∈ s.sender.outstanding := hperm.mem_iff.mp List.mem_cons_self
      have hclose := hnear m hm
      have hbelow := (h.numbered m hm).below
      have hle := seqnos_le_twice m.absolute s.sender.nextSeqno hpair
        ((hperm.map _).nodup_iff.mpr hnodup)
        (by
          intro x hx
          rcases List.mem_cons.mp hx with rfl | hx
          · exact le_rfl
          · have hxm := (List.pairwise_cons.mp hpair).1 x hx
            simp only [Before,TCPSenderMessage.payloadStart] at hxm
            omega)
        (fun x hx => (h.numbered x (hperm.mem_iff.mp hx)).below)
        (fun x hx => (h.numbered x (hperm.mem_iff.mp hx)).pos) (by omega)
      omega
  rw [sequenceNumbersInFlight,h.counted.unsent,h.counted.unacked,← UInt32.ofNat_add,← seqnos_append,
    UInt32.toNat_ofNat']
  change seqnos s.sender.outstanding % 2^32 = _
  omega

theorem Kept.receive (h : Kept A t) {msg : TCPReceiverMessage} {t' : TCPSender}
    (hnumbered : ∀ m ∈ t.outstanding, Numbered t.isn t.nextSeqno m)
    (hsize : t.nextSeqno + 2^32 ≤ 2^64)
    (hnear : ∀ m ∈ t.outstanding, t.nextSeqno < m.absolute + 2^31) (ht : t.receive msg = .ok t')
    (hK : ∀ K ∈ t.acceptedAckno msg, K ≤ A) : Kept A t' := by
  intro a ha hlt
  rcases receive_cases ht with ⟨-,rfl⟩ | ⟨K,n,retransmissions,timer,hacc,-,rfl⟩
  · exact h a ha hlt
  · obtain ⟨m,hm,hcov⟩ := h a ha hlt
    refine ⟨m,?_,hcov⟩
    rcases List.mem_append.mp hm with hunsent | hunacked
    · exact List.mem_append_left _ hunsent
    · apply List.mem_append_right
      rw [← List.takeWhile_append_dropWhile (p := t.acknowledges K) (l := t.unackedMsgs)] at hunacked
      rcases List.mem_append.mp hunacked with hdropped | hleft
      · -- the dropped ones end below `K`
        have hend := ((hnumbered m hm).acknowledges_iff hsize (hnear m hm) K).mp
          (List.mem_takeWhile_imp hdropped)
        have hle := hK K hacc
        have hhi := hcov.2
        omega
      · exact hleft

/-- One byte, or inside of what ends at `E`. -/
def Within (E : ℕ) (m : TCPSenderMessage) : Prop :=
  m.payload.length ≤ 1 ∨ m.payloadStart + m.payload.length ≤ E

instance (E : ℕ) (m : TCPSenderMessage) : Decidable (Within E m) := by unfold Within; infer_instance

theorem Within.mono {E' : ℕ} (h : Within E m) (hle : E ≤ E') : Within E' m :=
  h.imp_right fun hin => hin.trans hle

/-- An open window has no room for numbers from `E` on. -/
def RoomBelow (E : ℕ) (t : TCPSender) : Prop :=
  t.windowSize ≠ 0 → 0 < t.room → t.nextSeqno + t.room ≤ E

theorem within_emplaceSegment {data : List Byte} (hne : data ≠ []) (hgo : t.windowAllows = true)
    (hall : ∀ m ∈ t.outstanding, Within E m)
    (hroom : RoomBelow E t) :
    (∀ m ∈ (t.emplaceSegment (data.take t.segmentSize)).outstanding, Within E m) ∧
      RoomBelow E (t.emplaceSegment (data.take t.segmentSize)) := by
  have htake := take_segmentSize_ne_nil hne hgo
  have hlen := List.length_take_le t.segmentSize data
  have hless := room_emplaceSegment hgo htake hlen
  constructor
  · intro m hm
    rcases List.mem_cons.mp ((emplaceSegment_perm t _).subset hm) with rfl | hm
    · by_cases hw : t.windowSize = 0
      · left
        rw [segmentSize_of_zero hw] at hlen ⊢
        exact hlen
      · right
        have hle := hroom hw ((windowAllows_iff_room t).mp hgo)
        change t.nextSeqno + 0 + (data.take t.segmentSize).length ≤ E
        omega
    · exact hall m hm
  · intro hw _
    have hle := hroom hw ((windowAllows_iff_room t).mp hgo)
    change t.nextSeqno + (data.take t.segmentSize).length + _ ≤ E
    omega

theorem within_push (r : ByteStream) (hall : ∀ m ∈ t.outstanding, Within E m)
    (hroom : RoomBelow E t) :
    ∀ m ∈ (t.push r).1.outstanding, Within E m := by
  obtain ⟨rest,hall',-⟩ := segment_induction
    (P := fun x _ _ => (∀ m ∈ x.outstanding, Within E m) ∧ RoomBelow E x)
    (fun x _ data hx hne hgo => within_emplaceSegment hne hgo hx.1 hx.2)
    r.peek.length t r r.peek ⟨hall,hroom⟩
  change ∀ m ∈ (finishPush _ _).outstanding, _
  rcases finishPush_cases (segment r.peek.length t r r.peek).1 (segment r.peek.length t r r.peek).2
    with ⟨-,heq⟩ | ⟨init,last,hsplit,-⟩
  · rw [heq]
    exact hall'
  · obtain ⟨hlast,hmem⟩ := mem_outstanding_finishPush hsplit (segment r.peek.length t r r.peek).2
    intro m hm
    rcases hmem m hm with rfl | hm
    · exact hall' last.msg hlast
    · exact hall' m hm

theorem Queues.roomBelow (h : Queues isn s) (hnear : Near s)
    (hnodup : (s.sender.outstanding.map TCPSenderMessage.absolute).Nodup) (hkept : Kept A s.sender) :
    RoomBelow (A + s.sender.windowSize.toNat) s.sender := by
  intro hw hpos
  have hroom : s.sender.room =
      s.sender.windowSize.toNat - s.sender.sequenceNumbersInFlight.toNat :=
    if_neg fun harmed => hw harmed.1
  have hflight := h.inFlight hnear hnodup
  have hle := hkept.le_seqnos
  omega

theorem maybeSend_windowSize (t : TCPSender) : t.maybeSend.1.windowSize = t.windowSize := by
  rcases maybeSend_cases t with ⟨heq,-⟩ | ⟨heq,-,-⟩ | ⟨w,rest,-,heq⟩ <;> rw [heq] <;> rfl

theorem within_maybeSend (hq : Queues isn s) (hall : ∀ m ∈ s.sender.outstanding, Within E m) :
    ∀ m ∈ s.sender.maybeSend.1.outstanding, Within E m := by
  rcases maybeSend_cases s.sender with ⟨heq,-⟩ | ⟨heq,hnil,-⟩ | ⟨w,rest,hsplit,heq⟩
  · rw [heq]
    exact hall
  · rw [heq]
    intro m hm
    rcases List.mem_cons.mp ((sendFlagMessage_perm hnil).subset hm) with rfl | hm
    · exact Or.inl (Nat.zero_le _)
    · exact hall m hm
  · have hsyn := hq.syn_sent (by simp [outstanding,hsplit])
    rw [heq]
    exact fun m hm => hall m ((sendUnsent_perm hsyn hsplit).subset hm)

end SenderRuns

namespace EndToEnd

variable {D : List Byte} {C A n : ℕ} {isn : Wrap32} {tr : Trace} {s s' : State} {op : Op}
  {out : Output} {rtr : ReassemblerRuns.Trace} {e : Event State Op Output}

def usedAck : Op → Option ℕ
  | .deliverAck i => some i
  | _ => none

/-- No acknowledgment is used after a later one. -/
def InSequence (tr : Trace) : Prop :=
  tr.Pairwise fun e₁ e₂ => ∀ i ∈ usedAck e₁.op, ∀ j ∈ usedAck e₂.op, i ≤ j

instance (tr : Trace) : Decidable (InSequence tr) := by unfold InSequence; infer_instance

def edge (C : ℕ) (s : State) : ℕ := s.inboundStream.bytesPopped + C + 1

def Fits (D : List Byte) (C : ℕ) (s : State) (E : ℕ) : Prop := E ≤ edge C s ∨ D.length < edge C s

theorem Fits.mono {E : ℕ} (h : Fits D C s E) (hle : edge C s ≤ edge C s') : Fits D C s' E :=
  h.imp (fun hin => hin.trans hle) fun hall => hall.trans_le hle

/-- What the sender has been granted: it goes by acknowledgment number `n`, which told it to go on
from `A`. -/
structure Granted (D : List Byte) (C A n : ℕ) (tr : Trace) (s : State) : Prop where
  kept : Kept A s.sender
  fits : Fits D C s (A + s.sender.windowSize.toNat)
  le : A ≤ s.receiver.absoluteAckno
  later : ∀ ack ∈ s.acks.drop n, A ≤ ack.1
  last : n = 0 ∨ ∃ e ∈ tr, usedAck e.op = some n

structure Controlled (D : List Byte) (C : ℕ) (tr : Trace) (s : State) : Prop where
  granted : ∃ A n, Granted D C A n tr s
  sorted : s.acks.Pairwise fun ack ack' => ack.1 ≤ ack'.1
  made : ∀ ack ∈ s.acks, ack.1 ≤ s.receiver.absoluteAckno ∧
    Fits D C s (ack.1 + ack.2.windowSize.toNat)
  sent : ∀ m ∈ s.segments, Within (edge C s) m
  queued : ∀ m ∈ s.sender.outstanding, Within (edge C s) m

theorem InSequence.init (h : InSequence (tr ++ [e])) : InSequence tr :=
  (List.pairwise_append.mp h).1

theorem Controlled.of_same (h : Controlled D C tr s) (e : Event State Op Output)
    (hkept : ∀ A, Kept A s.sender → Kept A s'.sender)
    (hw : s'.sender.windowSize = s.sender.windowSize) (hacks : s'.acks = s.acks)
    (hack : s.receiver.absoluteAckno ≤ s'.receiver.absoluteAckno) (hedge : edge C s ≤ edge C s')
    (hsent : ∀ m ∈ s'.segments, Within (edge C s') m)
    (hqueued : ∀ m ∈ s'.sender.outstanding, Within (edge C s') m) :
    Controlled D C (tr ++ [e]) s' := by
  obtain ⟨A,n,hgranted⟩ := h.granted
  refine ⟨⟨A,n,hkept A hgranted.kept,?_,hgranted.le.trans hack,?_,?_⟩,?_,?_,hsent,hqueued⟩
  · rw [hw]
    exact hgranted.fits.mono hedge
  · rw [hacks]
    exact hgranted.later
  · exact hgranted.last.imp_right fun ⟨x,hx,hn⟩ => ⟨x,List.mem_append_left _ hx,hn⟩
  · rw [hacks]
    exact h.sorted
  · rw [hacks]
    exact fun ack hmem => ⟨(h.made ack hmem).1.trans hack,(h.made ack hmem).2.mono hedge⟩

theorem Controlled.of_subset (h : Controlled D C tr s) (e : Event State Op Output)
    {stream : ByteStream} {t : TCPSender} (hkept : ∀ A, Kept A s.sender → Kept A t)
    (hw : t.windowSize = s.sender.windowSize) (hsub : t.outstanding ⊆ s.sender.outstanding) :
    Controlled D C (tr ++ [e]) { s with outboundStream := stream, sender := t } :=
  h.of_same e hkept hw rfl le_rfl le_rfl h.sent fun m hm => h.queued m (hsub hm)

theorem Controlled.push (h : Controlled D C tr s) (e : Event State Op Output)
    (hinv : Inv D C isn tr s rtr) (hwhole : Whole C isn s) (hnear : Near s.senderSide)
    (hdriven : Driven D s .push) (hplaced : ∀ m ∈ (pushState s.senderSide).sender.outstanding,
      m.payloadStart + m.payload.length ≤ D.length + 1) :
    Controlled D C (tr ++ [e]) { s with
      outboundStream := (pushState s.senderSide).outboundStream
      sender := (pushState s.senderSide).sender } := by
  obtain ⟨A,n,hgranted⟩ := h.granted
  obtain ⟨hnil,-⟩ := hdriven
  refine h.of_same e (fun A hk => hk.push hnil _) ?_ rfl le_rfl le_rfl h.sent ?_
  · obtain ⟨rest,hw⟩ := segment_induction (P := fun t _ _ => t.windowSize = s.sender.windowSize)
      (fun _ _ _ hw _ _ => hw) s.outboundStream.peek.length s.sender s.outboundStream
      s.outboundStream.peek rfl
    exact (finishPush_window _ _).1.trans hw
  · rcases hgranted.fits with hin | hall
    · have hroom := hwhole.queues.roomBelow hnear hinv.sender.numbering.nodup hgranted.kept
      exact within_push _ h.queued fun hw hpos => (hroom hw hpos).trans hin
    · intro m hm
      right
      have hle := hplaced m hm
      change _ ≤ edge C s
      omega

theorem Controlled.maybeSend (h : Controlled D C tr s) (e : Event State Op Output)
    (hwhole : Whole C isn s) (hout : ∀ m ∈ s.sender.maybeSend.2, m ∈ s.sender.maybeSend.1.outstanding) :
    Controlled D C (tr ++ [e]) { s with
      sender := s.sender.maybeSend.1
      segments := s.segments ++ s.sender.maybeSend.2.toList } := by
  have hqueued := within_maybeSend hwhole.queues h.queued
  refine h.of_same e (fun A hk => Kept.maybeSend hk hwhole.queues) (maybeSend_windowSize _) rfl le_rfl
    le_rfl ?_ hqueued
  intro m hm
  rcases List.mem_append.mp hm with hm | hm
  · exact h.sent m hm
  · exact hqueued m (hout m (Option.mem_toList.mp hm))

theorem Controlled.sendAck (h : Controlled D C tr s) (e : Event State Op Output)
    (hinv : Inv D C isn tr s rtr) :
    Controlled D C (tr ++ [e]) { s with
      acks := s.acks ++ [(s.receiver.absoluteAckno,s.receiver.send s.inboundStream)] } := by
  obtain ⟨A,n,hgranted⟩ := h.granted
  have hstream : s.inboundStream.WF := hinv.receiver.inv.tracks.stream
  have hcap : s.inboundStream.capacity = C := hinv.receiver.inv.tracks.capacity_eq
  have hpushed : s.inboundStream.bytesPushed = s.reassembler.firstUnassembledGlobalIndex :=
    hinv.receiver.inv.tracks.pushed_eq
  have hindex : s.receiver.firstUnassembledIndex = s.reassembler.firstUnassembledGlobalIndex :=
    hinv.receiver.first
  have hp := hstream.pushed_eq
  have hbuffered := hstream.fits
  refine ⟨⟨A,n,hgranted.kept,hgranted.fits,hgranted.le,?_,
    hgranted.last.imp_right fun ⟨x,hx,hn⟩ => ⟨x,List.mem_append_left _ hx,hn⟩⟩,?_,?_,h.sent,h.queued⟩
  · intro ack hack
    rw [List.drop_append] at hack
    rcases List.mem_append.mp hack with hack | hack
    · exact hgranted.later ack hack
    · rw [List.mem_singleton.mp (List.mem_of_mem_drop hack)]
      exact hgranted.le
  · refine List.pairwise_append.mpr ⟨h.sorted,by simp,?_⟩
    intro ack hack x hx
    rw [List.mem_singleton.mp hx]
    exact (h.made ack hack).1
  · intro ack hack
    rcases List.mem_append.mp hack with hack | hack
    · exact h.made ack hack
    · rw [List.mem_singleton.mp hack]
      refine ⟨le_rfl,?_⟩
      have hwindow : (s.receiver.send s.inboundStream).windowSize.toNat ≤
          C - s.inboundStream.bytesBuffered := by
        change (UInt16.ofNat (min s.inboundStream.availableCapacity 65535)).toNat ≤ _
        rw [UInt16.toNat_ofNat',hstream.available,hcap]
        exact (Nat.mod_le _ _).trans (Nat.min_le_left _ _)
      simp only [Fits,edge]
      cases hfin : s.receiver.isFinished with
      | false =>
        left
        simp only [TCPReceiver.absoluteAckno,hfin,Bool.toNat_false]
        omega
      | true =>
        -- all bytes are assembled, and they fit
        right
        have hall : s.inboundStream.bytesPushed = D.length :=
          (hinv.receiver.closedAtEnd.mp (hinv.receiver.finished hfin)).2
        omega

/-- The next acknowledgment grants what the receiver had room for when it was made. -/
theorem Controlled.receive (h : Controlled D C tr s) (hinv : Inv D C isn tr s rtr)
    (hwhole : Whole C isn s) (hD : 2*D.length + 2^33 ≤ 2^64) (hnear : Near s.senderSide) {i : ℕ}
    (hreach : InReach s (.deliverAck i)) (hop : usedAck e.op = some i)
    (hseq : InSequence (tr ++ [e])) {ack : ℕ × TCPReceiverMessage} (hack : s.acks[i]? = some ack)
    {t : TCPSender} (ht : s.sender.receive ack.2 = .ok t) :
    Controlled D C (tr ++ [e]) { s with sender := t } := by
  obtain ⟨A,n,hgranted⟩ := h.granted
  have hmem := List.mem_of_getElem? hack
  have hnext : s.sender.nextSeqno ≤ D.length + 2 := hinv.sender.numbering.next_le
  have hisn : s.sender.isn = isn := hinv.sender.numbering.isn_eq
  have hni : n ≤ i := by
    rcases hgranted.last with rfl | ⟨x,hx,hn⟩
    · exact Nat.zero_le i
    · exact (List.pairwise_append.mp hseq).2.2 x hx e (List.mem_singleton_self e) n hn i hop
  have hdrop : s.acks.drop i = ack::s.acks.drop (i+1) := by
    obtain ⟨hlt,hget⟩ := List.getElem?_eq_some_iff.mp hack
    rw [← hget]
    exact List.drop_eq_getElem_cons hlt
  have hle : A ≤ ack.1 := by
    apply hgranted.later ack
    apply (List.drop_sublist_drop_left s.acks hni).subset
    rw [hdrop]
    exact List.mem_cons_self
  have hkept : Kept ack.1 t := by
    refine Kept.receive (hgranted.kept.mono hle) (fun m hm => hisn ▸ hwhole.queues.numbered m hm)
      (by omega) hnear ht ?_
    intro K hK
    obtain ⟨hmap,-⟩ := Option.filter_eq_some_iff.mp hK
    obtain ⟨w,hw,rfl⟩ := Option.map_eq_some_iff.mp hmap
    obtain ⟨hwrap,hacked,hsync⟩ := hinv.acks ack hmem w hw
    have hknown := hinv.receiver.absoluteAckno_le hsync hinv.tiled.filled
    rw [hisn,hwrap,Wrap32.unwrap_wrap isn (by omega) (hreach ack hack) (by omega)]
  have hw : t.windowSize = ack.2.windowSize := by
    rcases receive_cases ht with ⟨-,rfl⟩ | ⟨K,k,retransmissions,timer,-,-,rfl⟩
    · rfl
    · rfl
  refine ⟨⟨ack.1,i,hkept,?_,(h.made ack hmem).1,?_,Or.inr ⟨e,by simp,hop⟩⟩,h.sorted,h.made,h.sent,
    fun m hm => h.queued m ((receive_subperm ht).subset hm)⟩
  · rw [hw]
    exact (h.made ack hmem).2
  · intro x hx
    change x ∈ s.acks.drop i at hx
    rw [hdrop] at hx
    rcases List.mem_cons.mp hx with rfl | hx
    · exact le_rfl
    · have hsorted := h.sorted.sublist (List.drop_sublist i s.acks)
      rw [hdrop] at hsorted
      exact (List.pairwise_cons.mp hsorted).1 x hx

theorem Controlled.step (h : Controlled D C tr s) (hC : 0 < C) (hfit : D.length + C < 2^64)
    (hD : 2*D.length + 2^33 ≤ 2^64) (hinv : Inv D C isn tr s rtr) (hwhole : Whole C isn s)
    (hdriven : Driven D s op) (hreach : InReach s op) (hfin : ¬ FINOvertakes D s op)
    (hnear : Near s.senderSide) (hseq : InSequence (tr ++ [⟨s,op,out⟩]))
    (hs : EndToEnd.step s op = .ok (s',out)) : Controlled D C (tr ++ [⟨s,op,out⟩]) s' := by
  cases op with
  | write data =>
    cases hs
    exact h.of_subset _ (fun _ => id) rfl (List.Subset.refl _)
  | close =>
    cases hs
    exact h.of_subset _ (fun _ => id) rfl (List.Subset.refl _)
  | push =>
    cases hs
    have hs : EndToEnd.step s .push = .ok (_,⟨[],[]⟩) := rfl
    obtain ⟨⟨rtr',hinv'⟩,-⟩ := hinv.step hC hfit hD hdriven hreach hfin hs
    exact h.push _ hinv hwhole hnear hdriven fun m hm =>
      (hinv'.sender.numbering.placed m hm).inside
  | maybeSend =>
    cases hs
    refine h.maybeSend _ hwhole fun m hm => ?_
    have hstep : SenderRuns.step s.senderSide .maybeSend =
        .ok ({ s.senderSide with sender := s.sender.maybeSend.1 },some m) := by
      rw [← Option.mem_def.mp hm]
      rfl
    exact hinv.sender.numbering.returned_outstanding hstep
  | tick ms =>
    obtain ⟨t,ht,hret⟩ := bind_ok.mp hs
    cases hret
    refine h.of_subset _ (fun _ hk => hk.perm (tick_ok ht).1.next (tick_perm ht)) ?_
      (tick_perm ht).subset
    rcases tick_cases ht with ⟨-,timer,rfl⟩ | ⟨-,m,rest,retransmissions,timer,-,rfl⟩
    · rfl
    · rfl
  | sendAck =>
    cases hs
    exact h.sendAck _ hinv
  | deliverSegment i =>
    have hd := hinv.delivered hC hfit hD hreach hfin hs
    have hsender : s'.sender = s.sender := congrArg SenderRuns.State.sender hd.side
    have hedge : edge C s' = edge C s := by rw [edge,edge,hd.popped]
    refine h.of_same _ (fun _ => hsender ▸ id) (by rw [hsender]) hd.acks hd.ackno hedge.ge ?_ ?_
    · rw [hd.segments,hedge]
      exact h.sent
    · rw [hsender,hedge]
      exact h.queued
  | deliverAck i =>
    simp only [EndToEnd.step] at hs
    cases hack : s.acks[i]? with
    | none =>
      rw [hack] at hs
      cases hs
      exact h.of_same _ (fun _ => id) rfl rfl le_rfl le_rfl h.sent h.queued
    | some ack =>
      rw [hack] at hs
      obtain ⟨t,ht,hret⟩ := bind_ok.mp hs
      cases hret
      exact h.receive hinv hwhole hD hnear hreach rfl hseq hack ht
  | read len =>
    cases hs
    have hedge : edge C s ≤ edge C { s with inboundStream := s.inboundStream.pop len } := by
      change s.inboundStream.bytesPopped + C + 1 ≤
        s.inboundStream.bytesPopped + min len s.inboundStream.bytesBuffered + C + 1
      omega
    exact h.of_same _ (fun _ => id) rfl rfl le_rfl hedge (fun m hm => (h.sent m hm).mono hedge)
      fun m hm => (h.queued m hm).mono hedge

/-- An old acknowledgment, used after a newer one, lets the sender go past the window. -/
example : ∃ tr s, Run step (init 8 2 1000 ⟨7⟩) tr s ∧ ¬ InSequence tr ∧ ∃ m ∈ s.segments,
    m.payload.length = 2 ∧ s.inboundStream.bytesPopped + 2 + 1 < m.payloadStart + m.payload.length :=
  Run.exists_of_exec step (init 8 2 1000 ⟨7⟩)
    [.maybeSend,.deliverSegment 0,.sendAck,.deliverAck 0,.write [10,11,12,13],.push,.maybeSend,
      .deliverSegment 1,.sendAck,.deliverAck 1,.deliverAck 0,.push,.maybeSend]
    (fun tr s => ¬ InSequence tr ∧ ∃ m ∈ s.segments, m.payload.length = 2 ∧
      s.inboundStream.bytesPopped + 2 + 1 < m.payloadStart + m.payload.length) (by decide +kernel)

end EndToEnd

end Minnow
