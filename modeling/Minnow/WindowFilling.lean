import Minnow.SenderTimer
import Minnow.SenderWindow

/-! What one call of `push` puts into the window: all that the reader has, as far as there is room,
in segments that are as long as they can be. -/
namespace Minnow
namespace TCPSender

open Library

def room (s : TCPSender) : ℕ :=
  if s.windowSize = 0 ∧ s.zeroWindowSizeSpecialCaseFlag = true then 1
  else s.windowSize.toNat - s.sequenceNumbersInFlight.toNat

/-- The loop of `push` without a bound on its rounds. The last three arguments are what it ends
with. -/
inductive Loop : TCPSender → ByteStream → List Byte → TCPSender → ByteStream → List Byte → Prop
  | done {s : TCPSender} {r : ByteStream} {data : List Byte} :
      ¬ (data ≠ [] ∧ s.windowAllows = true) → Loop s r data s r data
  | round {s t : TCPSender} {r r' : ByteStream} {data rest : List Byte} :
      data ≠ [] → s.windowAllows = true →
      Loop (s.emplaceSegment (data.take s.segmentSize)) (r.pop s.segmentSize)
        (data.drop s.segmentSize) t r' rest → Loop s r data t r' rest

def Contiguous (isn : Wrap32) : ℕ → List TCPSenderMessageWrapper → Prop
  | _, [] => True
  | next, w::ws =>
    w.msg.seqno = Wrap32.wrap next isn ∧ Contiguous isn (next + w.msg.payload.length) ws

/-- New messages for the bytes `data`, numbered from `next` on. -/
structure Segments (isn : Wrap32) (next : ℕ) (data : List Byte)
    (ws : List TCPSenderMessageWrapper) : Prop where
  fresh : ∀ w ∈ ws, w.isRetransmitted = false ∧ w.msg.SYN = false
  bytes : ws.flatMap (·.msg.payload) = data
  numbered : Contiguous isn next ws
  sizes : ∀ w ∈ ws, 1 ≤ w.msg.payload.length ∧ w.msg.payload.length ≤ 1000
  full : ∀ w ∈ ws.dropLast, w.msg.payload.length = 1000

variable {s s' t : TCPSender} {r r' : ByteStream} {data rest : List Byte}
  {ws ws' : List TCPSenderMessageWrapper} {isn : Wrap32} {next : ℕ}

theorem loop_segment {fuel : ℕ} (h : data.length ≤ fuel) (s : TCPSender) (r : ByteStream) :
    ∃ rest, Loop s r data (segment fuel s r data).1 (segment fuel s r data).2 rest := by
  induction fuel generalizing s r data with
  | zero =>
    obtain rfl := List.length_eq_zero_iff.mp (Nat.le_zero.mp h)
    exact ⟨[],.done fun hgo => hgo.1 rfl⟩
  | succ fuel ih =>
    by_cases hgo : data ≠ [] ∧ s.windowAllows = true
    · have hpos := segmentSize_pos hgo.2
      have hlen : (data.drop s.segmentSize).length ≤ fuel := by
        rw [List.length_drop]
        omega
      obtain ⟨rest,hloop⟩ := ih hlen (s.emplaceSegment (data.take s.segmentSize))
        (r.pop s.segmentSize)
      rw [segment,if_pos hgo]
      exact ⟨rest,.round hgo.1 hgo.2 hloop⟩
    · rw [segment,if_neg hgo]
      exact ⟨data,.done hgo⟩

/-- What one round keeps holds at the end, where the loop cannot go on. -/
theorem Loop.invariant {P : TCPSender → ByteStream → List Byte → Prop}
    (hround : ∀ s r data, P s r data → data ≠ [] → s.windowAllows = true →
      P (s.emplaceSegment (data.take s.segmentSize)) (r.pop s.segmentSize)
        (data.drop s.segmentSize))
    (h : Loop s r data t r' rest) (hP : P s r data) :
    P t r' rest ∧ ¬ (rest ≠ [] ∧ t.windowAllows = true) := by
  induction h with
  | done hstop => exact ⟨hP,hstop⟩
  | round hne hgo _ ih => exact ih (hround _ _ _ hP hne hgo)

theorem windowAllows_iff_room (s : TCPSender) : s.windowAllows = true ↔ 0 < s.room := by
  rw [SenderRuns.windowAllows_iff,room]
  split_ifs with harmed
  · simp [harmed]
  · simp only [harmed,false_or]
    omega

theorem segmentSize_eq (hgo : s.windowAllows = true) : s.segmentSize = min 1000 s.room := by
  by_cases hw : s.windowSize = 0
  · have hpos := (windowAllows_iff_room s).mp hgo
    have hone : s.room = 1 := by
      simp only [room,hw] at hpos ⊢
      split_ifs at hpos ⊢ with harmed
      · rfl
      · simp at hpos
    rw [SenderRuns.segmentSize_of_zero hw,hone]
    rfl
  · rw [SenderRuns.segmentSize_of_open hw hgo,room,if_neg fun harmed => hw harmed.1]

theorem room_emplaceSegment (hgo : s.windowAllows = true) (hne : data ≠ [])
    (hle : data.length ≤ s.segmentSize) : (s.emplaceSegment data).room + data.length = s.room := by
  have hpos := List.length_pos_iff.mpr hne
  have hsize := segmentSize_eq hgo
  by_cases hw : s.windowSize = 0
  · have hflag : (s.emplaceSegment data).zeroWindowSizeSpecialCaseFlag = false := by
      simp [emplaceSegment,hw]
    have hafter : (s.emplaceSegment data).room = 0 := by
      have hw' : (s.emplaceSegment data).windowSize = 0 := hw
      simp [room,hflag,hw']
    rw [SenderRuns.segmentSize_of_zero hw] at hsize hle
    omega
  · have hroom : s.room = s.windowSize.toNat - s.sequenceNumbersInFlight.toNat :=
      if_neg fun harmed => hw harmed.1
    have hafter : (s.emplaceSegment data).room =
        s.windowSize.toNat - (s.emplaceSegment data).sequenceNumbersInFlight.toNat :=
      if_neg fun harmed => hw harmed.1
    have hfit := SenderRuns.inFlight_add_segmentSize hw hgo
    have hz := s.windowSize.toNat_lt
    rw [hafter,SenderRuns.emplaceSegment_inFlight,UInt32.toNat_add,UInt32.toNat_ofNat',hroom]
    omega

theorem segment_last (hgo : s.windowAllows = true) (hne : data ≠ [])
    (hless : (data.take s.segmentSize).length ≠ 1000) :
    ¬ (data.drop s.segmentSize ≠ [] ∧
      (s.emplaceSegment (data.take s.segmentSize)).windowAllows = true) := by
  rintro ⟨hrest,hallows⟩
  rw [windowAllows_iff_room] at hallows
  have hsize := segmentSize_eq hgo
  have hroom := room_emplaceSegment hgo (take_segmentSize_ne_nil hne hgo)
    (List.length_take_le _ _)
  have hlonger : s.segmentSize < data.length := by
    by_contra hshort
    exact hrest (List.drop_eq_nil_of_le (Nat.le_of_not_lt hshort))
  have hlen : (data.take s.segmentSize).length = s.segmentSize :=
    List.length_take_of_le hlonger.le
  omega

theorem contiguous_append (isn : Wrap32) (next : ℕ) (ws ws' : List TCPSenderMessageWrapper) :
    Contiguous isn next (ws ++ ws') ↔ Contiguous isn next ws ∧
      Contiguous isn (next + (ws.flatMap (·.msg.payload)).length) ws' := by
  induction ws generalizing next with
  | nil => simp [Contiguous]
  | cons w ws ih =>
    simp only [List.cons_append,Contiguous,ih,List.flatMap_cons,List.length_append,and_assoc,
      Nat.add_assoc]

theorem Segments.nil (isn : Wrap32) (next : ℕ) : Segments isn next [] [] :=
  ⟨by simp,rfl,trivial,by simp,by simp⟩

theorem Segments.snoc (h : Segments isn next data ws) (hfull : ∀ w ∈ ws, w.msg.payload.length = 1000)
    {w : TCPSenderMessageWrapper} (hfresh : w.isRetransmitted = false ∧ w.msg.SYN = false)
    (hsize : 1 ≤ w.msg.payload.length ∧ w.msg.payload.length ≤ 1000)
    (hseqno : w.msg.seqno = Wrap32.wrap (next + data.length) isn) :
    Segments isn next (data ++ w.msg.payload) (ws ++ [w]) := by
  constructor
  · intro x hx
    rcases List.mem_append.mp hx with hx | hx
    · exact h.fresh x hx
    · rw [List.mem_singleton.mp hx]
      exact hfresh
  · simp [h.bytes]
  · rw [contiguous_append,h.bytes]
    exact ⟨h.numbered,hseqno,trivial⟩
  · intro x hx
    rcases List.mem_append.mp hx with hx | hx
    · exact h.sizes x hx
    · rw [List.mem_singleton.mp hx]
      exact hsize
  · rw [List.dropLast_concat]
    exact hfull

theorem Segments.setFIN {w : TCPSenderMessageWrapper} (h : Segments isn next data (ws ++ [w]))
    (b : Bool) : Segments isn next data (ws ++ [{ w with msg := { w.msg with FIN := b } }]) := by
  have hmem : ∀ x ∈ ws ++ [{ w with msg := { w.msg with FIN := b } }],
      x ∈ ws ∨ x = { w with msg := { w.msg with FIN := b } } := by
    intro x hx
    simpa using hx
  constructor
  · intro x hx
    rcases hmem x hx with hx | rfl
    · exact h.fresh x (List.mem_append_left _ hx)
    · exact h.fresh w (by simp)
  · rw [← h.bytes]
    simp
  · have hnumbered := h.numbered
    rw [contiguous_append] at hnumbered ⊢
    exact hnumbered
  · intro x hx
    rcases hmem x hx with hx | rfl
    · exact h.sizes x (List.mem_append_left _ hx)
    · exact h.sizes w (by simp)
  · have hfull := h.full
    rw [List.dropLast_concat] at hfull ⊢
    exact hfull

/-- The loop has taken the first `k` bytes of the reader `r`, in the messages `ws`; a message that
is not full is the last one. -/
structure Filling (s : TCPSender) (r : ByteStream) (k : ℕ) (ws : List TCPSenderMessageWrapper)
    (t : TCPSender) (r' : ByteStream) (data : List Byte) : Prop where
  stream : r'.WF
  peek : r'.peek = data
  left : data = r.peek.drop k
  within : k ≤ r.peek.length
  popped : r'.bytesPopped = r.bytesPopped + k
  room : t.room + k = s.room
  isn : t.isn = s.isn
  next : t.nextSeqno = s.nextSeqno + k
  window : t.windowSize = s.windowSize
  unsent : t.unsentMsgs = s.unsentMsgs ++ ws
  segments : Segments s.isn s.nextSeqno (r.peek.take k) ws
  last : (∀ w ∈ ws, w.msg.payload.length = 1000) ∨ ¬ (data ≠ [] ∧ t.windowAllows = true)

theorem Filling.init (s : TCPSender) (hr : r.WF) : Filling s r 0 [] s r r.peek :=
  ⟨hr,rfl,rfl,Nat.zero_le _,rfl,rfl,rfl,rfl,rfl,(List.append_nil _).symm,.nil _ _,
    Or.inl (by simp)⟩

theorem Filling.round {k : ℕ} (h : Filling s r k ws t r' data) (hne : data ≠ [])
    (hgo : t.windowAllows = true) :
    Filling s r (k + (data.take t.segmentSize).length)
      (ws ++ [⟨t.dataMessage (data.take t.segmentSize),false⟩])
      (t.emplaceSegment (data.take t.segmentSize)) (r'.pop t.segmentSize)
      (data.drop t.segmentSize) := by
  have hfull := h.last.resolve_right (not_not.mpr ⟨hne,hgo⟩)
  have htake := take_segmentSize_ne_nil hne hgo
  have hsize := segmentSize_eq hgo
  have hlen : (data.take t.segmentSize).length = min t.segmentSize data.length :=
    List.length_take
  have hpos := List.length_pos_iff.mpr htake
  have hroom := room_emplaceSegment hgo htake (List.length_take_le _ _)
  have hdata : data.length = r.peek.length - k := by rw [h.left,List.length_drop]
  have hbefore : (r.peek.take k).length = k := by
    rw [List.length_take]
    exact Nat.min_eq_left h.within
  have hmore : r.peek.take (k + (data.take t.segmentSize).length) =
      r.peek.take k ++ data.take t.segmentSize := by
    rw [List.take_add,← h.left,hlen,← List.take_take,List.take_of_length_le (l := data) le_rfl]
  have hwithin := h.within
  refine ⟨ByteStream.pop_wf h.stream _,?_,?_,?_,?_,?_,h.isn,?_,h.window,?_,?_,?_⟩
  · rw [ByteStream.pop_peek h.stream,h.peek]
  · have hdrop : data.drop t.segmentSize = data.drop (data.take t.segmentSize).length := by
      rw [hlen]
      rcases Nat.le_total t.segmentSize data.length with hle | hle
      · rw [Nat.min_eq_left hle]
      · rw [Nat.min_eq_right hle,List.drop_length,List.drop_eq_nil_of_le hle]
    rw [hdrop,h.left,List.drop_drop]
  · omega
  · change r'.bytesPopped + min t.segmentSize r'.bytesBuffered = _
    rw [h.popped,hlen,← h.stream.length_peek,h.peek,Nat.add_assoc]
  · have := h.room
    omega
  · change t.nextSeqno + (data.take t.segmentSize).length = _
    rw [h.next,Nat.add_assoc]
  · change t.unsentMsgs ++ [_] = _
    rw [h.unsent,List.append_assoc]
  · rw [hmore]
    refine h.segments.snoc (w := ⟨t.dataMessage (data.take t.segmentSize),false⟩) hfull ⟨rfl,rfl⟩
      ⟨hpos,?_⟩ ?_
    · change (data.take t.segmentSize).length ≤ 1000
      omega
    · change Wrap32.wrap t.nextSeqno t.isn = _
      rw [h.next,h.isn,hbefore]
  · by_cases hthousand : (data.take t.segmentSize).length = 1000
    · left
      intro w hw
      rcases List.mem_append.mp hw with hw | hw
      · exact hfull w hw
      · rw [List.mem_singleton.mp hw]
        exact hthousand
    · exact Or.inr (segment_last hgo hne hthousand)

theorem loop_fills (hr : r.WF) (h : Loop s r r.peek t r' rest) :
    ∃ ws, Filling s r (min r.peek.length s.room) ws t r' rest ∧ (rest = [] ∨ t.room = 0) := by
  obtain ⟨⟨k,ws,hfill⟩,hstop⟩ := h.invariant
    (P := fun t r' data => ∃ k ws, Filling s r k ws t r' data)
    (by
      rintro t r' data ⟨k,ws,hfill⟩ hne hgo
      exact ⟨_,_,hfill.round hne hgo⟩)
    ⟨0,[],.init s hr⟩
  have hend : rest = [] ∨ t.room = 0 := by
    by_contra hnot
    obtain ⟨hne,hpos⟩ := not_or.mp hnot
    exact hstop ⟨hne,(windowAllows_iff_room t).mpr (Nat.pos_of_ne_zero hpos)⟩
  have hk : k = min r.peek.length s.room := by
    have hroom := hfill.room
    have hwithin := hfill.within
    rcases hend with hnil | hzero
    · have hlen := congrArg List.length hfill.left
      rw [hnil,List.length_nil,List.length_drop] at hlen
      omega
    · omega
  rw [← hk]
  exact ⟨ws,hfill,hend⟩

def SameButFIN (old : List TCPSenderMessageWrapper) (ws : List TCPSenderMessageWrapper) : Prop :=
  old = ws ∨ ∃ init last b, ws = init ++ [last] ∧
    old = init ++ [{ last with msg := { last.msg with FIN := b } }]

/-- No message of the window's special case is due before the next `receive`. -/
structure Spent (t : TCPSender) : Prop where
  window : t.windowSize = 0
  flag : t.zeroWindowSizeSpecialCaseFlag = false

/-- What `push` makes of the sender `s` and the reader `r`. -/
structure Filled (s : TCPSender) (r : ByteStream) (s' : TCPSender) (r' : ByteStream) : Prop where
  terminates : ∃ t rest, Loop s r r.peek t r' rest ∧ s' = t.finishPush r'
  reader : r'.peek = r.peek.drop (min r.peek.length s.room) ∧
    r'.bytesPopped = r.bytesPopped + min r.peek.length s.room
  appended : ∃ old new, s'.unsentMsgs = old ++ new ∧ SameButFIN old s.unsentMsgs ∧
    (new ≠ [] → old = s.unsentMsgs) ∧
    Segments s.isn s.nextSeqno (r.peek.take (min r.peek.length s.room)) new
  ends : r'.peek = [] ∨ s'.room = 0
  probe : s.windowSize = 0 → s.zeroWindowSizeSpecialCaseFlag = true → r.peek ≠ [] →
    ∀ tr t, Run SenderTimer.step s' tr t → (∀ e ∈ tr, ∀ msg, e.op ≠ .receive msg) → t.room = 0

theorem Spent.room (h : Spent t) : t.room = 0 := by
  simp [TCPSender.room,h.window,h.flag]

theorem finishPush_window (t : TCPSender) (r : ByteStream) :
    (t.finishPush r).windowSize = t.windowSize ∧
      (t.finishPush r).zeroWindowSizeSpecialCaseFlag = t.zeroWindowSizeSpecialCaseFlag := by
  rcases finishPush_cases t r with ⟨-,heq⟩ | ⟨init,last,-,heq⟩
  · rw [heq]
    exact ⟨rfl,rfl⟩
  · rw [heq]
    exact ⟨rfl,rfl⟩

theorem Spent.push (h : Spent s) (r : ByteStream) : Spent (s.push r).1 := by
  have hstop : ¬ (r.peek ≠ [] ∧ s.windowAllows = true) := by
    rintro ⟨-,hgo⟩
    rw [windowAllows_iff_room,h.room] at hgo
    exact absurd hgo (lt_irrefl 0)
  simp only [TCPSender.push,segment_stop hstop]
  obtain ⟨hwindow,hflag⟩ := finishPush_window s r
  exact ⟨hwindow.trans h.window,hflag.trans h.flag⟩

theorem Spent.step (h : Spent s) {op : SenderTimer.Op} {out : Option TCPSenderMessage}
    (hop : ∀ msg, op ≠ .receive msg) (hs : SenderTimer.step s op = .ok (s',out)) : Spent s' := by
  cases op with
  | push r =>
    obtain ⟨rfl,-⟩ := Prod.mk.inj (Except.ok.inj hs)
    exact h.push r
  | maybeSend =>
    obtain rfl := congrArg Prod.fst (Except.ok.inj hs)
    rcases maybeSend_cases s with ⟨heq,-⟩ | ⟨heq,-,-⟩ | ⟨w,rest,-,heq⟩
    · rw [heq]
      exact h
    · rw [heq]
      exact ⟨h.window,by simp [sendFlagMessage,h.flag]⟩
    · rw [heq]
      exact ⟨h.window,h.flag⟩
  | receive msg => exact absurd rfl (hop msg)
  | tick ms =>
    obtain ⟨t,ht,hret⟩ := bind_ok.mp hs
    obtain ⟨rfl,-⟩ := Prod.mk.inj (Except.ok.inj hret)
    rcases tick_cases ht with ⟨-,timer,rfl⟩ | ⟨-,m,rest,retransmissions,timer,-,rfl⟩
    · exact ⟨h.window,h.flag⟩
    · exact ⟨h.window,h.flag⟩

theorem room_finishPush {t : TCPSender} {r : ByteStream} (h : r.WF) (hend : r.peek = [] ∨ t.room = 0) :
    r.peek = [] ∨ (t.finishPush r).room = 0 := by
  by_cases hnil : r.peek = []
  · exact Or.inl hnil
  · have hunfinished : r.isFinished = false := by
      rw [← Bool.not_eq_true,ByteStream.isFinished_iff h]
      exact fun hfin => hnil hfin.2
    have hflag : t.finFlag r = false := by simp [finFlag,hunfinished]
    have hflight : (t.finishPush r).sequenceNumbersInFlight = t.sequenceNumbersInFlight := by
      rcases SenderRuns.finishPush_inFlight t r with ⟨-,-,hflight,-⟩ | ⟨-,-,htrue,-⟩
      · exact hflight
      · rw [hflag] at htrue
        cases htrue
    obtain ⟨hwindow,hspecial⟩ := finishPush_window t r
    right
    rw [room,hwindow,hspecial,hflight]
    exact hend.resolve_left hnil

/-- Every call of `push`, on every sender and every reader. -/
theorem push_fills_window (s : TCPSender) (hr : r.WF) : Filled s r (s.push r).1 (s.push r).2 := by
  obtain ⟨rest,hloop⟩ := loop_segment le_rfl s r
  obtain ⟨ws,hfill,hend⟩ := loop_fills hr hloop
  set t := (segment r.peek.length s r r.peek).1
  set r' := (segment r.peek.length s r r.peek).2
  have hpush : s.push r = (t.finishPush r',r') := rfl
  rw [hpush]
  refine ⟨⟨t,rest,hloop,rfl⟩,⟨hfill.peek.trans hfill.left,hfill.popped⟩,?_,?_,?_⟩
  · rcases finishPush_cases t r' with ⟨hnil,heq⟩ | ⟨init,last,hlast,heq⟩
    · have hempty := hfill.unsent
      rw [hnil] at hempty
      obtain ⟨hs,hws⟩ := List.append_eq_nil_iff.mp hempty.symm
      refine ⟨[],[],by rw [heq]; exact hnil,Or.inl hs.symm,by simp,?_⟩
      rw [← hws]
      exact hfill.segments
    · have hunsent := hfill.unsent
      rw [hlast] at hunsent
      rcases List.eq_nil_or_concat ws with rfl | ⟨ws₀,w,rfl⟩
      · rw [List.append_nil] at hunsent
        refine ⟨init ++ [{ last with msg := { last.msg with FIN := t.finFlag r' } }],[],?_,
          Or.inr ⟨init,last,_,hunsent.symm,rfl⟩,by simp,hfill.segments⟩
        rw [heq,List.append_nil]
      · rw [List.concat_eq_append,← List.append_assoc] at hunsent
        obtain ⟨rfl,hw⟩ := List.append_inj' hunsent rfl
        obtain rfl := (List.cons.inj hw).1
        have hsegments := hfill.segments
        rw [List.concat_eq_append] at hsegments
        refine ⟨s.unsentMsgs,_,?_,Or.inl rfl,fun _ => rfl,hsegments.setFIN (t.finFlag r')⟩
        rw [heq,List.append_assoc]
  · rw [← hfill.peek] at hend
    exact room_finishPush hfill.stream hend
  · intro hw harmed hne tr u hrun hops
    have hspent : Spent (t.finishPush r') := by
      obtain ⟨hwindow,hspecial⟩ := finishPush_window t r'
      have hzero : t.windowSize = 0 := hfill.window.trans hw
      have hone : s.room = 1 := if_pos ⟨hw,harmed⟩
      have hpos := List.length_pos_iff.mpr hne
      have hroom := hfill.room
      refine ⟨hwindow.trans hzero,hspecial.trans ?_⟩
      -- the only byte that there was room for has been taken
      by_contra hflag
      have hstill : t.room = 1 := if_pos ⟨hzero,by simpa using hflag⟩
      omega
    exact (Run.invariant Spent (fun e => ∀ msg, e.op ≠ .receive msg) hspent
      (fun h hop hs => h.step hop hs) hrun hops).room

/-- SYN is in flight, the window has been closed, and two bytes wait: one of them goes out. -/
theorem push_fills_window_probe :
    let s := (TCPSender.new 1000 ⟨0⟩).maybeSend.1.noteWindow 0
    let r := (ByteStream.new 2).push [10,11]
    Filled s r (s.push r).1 (s.push r).2 ∧ s.room = 1 ∧ (s.push r).2.peek = [11] := by
  intro s r
  have hfilled := push_fills_window s (ByteStream.push_wf (ByteStream.new_wf 2) [10,11])
  refine ⟨hfilled,by decide +kernel,?_⟩
  rw [hfilled.reader.1]
  decide +kernel

end TCPSender
end Minnow
