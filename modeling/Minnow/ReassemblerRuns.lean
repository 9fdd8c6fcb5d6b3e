import Minnow.Library.Run
import Minnow.Reassembly

/-! Runs of a reassembler and its output stream: inserts of substrings of one byte
string `D`, in any order, with pops of the reader between them. -/
namespace Minnow
namespace ReassemblerRuns

open Library

structure State where
  reassembler : Reassembler
  output : ByteStream
  deriving DecidableEq, Repr

inductive Op
  | insert (firstIndex : ℕ) (data : List Byte) (isLastSubstring : Bool)
  | pop (len : ℕ)
  deriving DecidableEq, Repr

def init (capacity : ℕ) : State := ⟨Reassembler.new,ByteStream.new capacity⟩

/-- One call; a pop returns the bytes that the reader takes. -/
def step (s : State) : Op → Except Fault (State × List Byte)
  | .insert firstIndex data isLastSubstring => do
    let (r,output) ← s.reassembler.insert firstIndex data isLastSubstring s.output
    .ok (⟨r,output⟩,[])
  | .pop len => .ok (⟨s.reassembler,s.output.pop len⟩,s.output.peek.take len)

abbrev Trace := List (Event State Op (List Byte))

def Feeds (D : List Byte) : Op → Prop
  | .insert firstIndex data _ =>
    firstIndex + data.length ≤ D.length ∧ data = slice D firstIndex data.length
  | .pop _ => True

def EndsRight (D : List Byte) : Op → Prop
  | .insert firstIndex data isLastSubstring =>
    isLastSubstring = true → firstIndex + data.length = D.length
  | .pop _ => True

def IsLast : Op → Prop
  | .insert _ _ isLastSubstring => isLastSubstring = true
  | .pop _ => False

/-- The insert finds its window wrapping inside one block of the bitmap over a held byte. -/
def LeavesStaleBits (s : State) : Op → Prop
  | .insert firstIndex data _ =>
    (s.reassembler.prepare s.output).LeavesStaleBits firstIndex data s.output
  | .pop _ => False

/-- What has arrived once the operation is done, read off the state before it. -/
def Arrived (s : State) (j : ℕ) : Op → Prop
  | .insert firstIndex data _ =>
    j < s.reassembler.firstUnassembledGlobalIndex ∨
      j < s.output.bytesPopped + s.output.capacity ∧
        (s.reassembler.Holds j ∨ firstIndex ≤ j ∧ j < firstIndex + data.length)
  | .pop _ => j < s.reassembler.firstUnassembledGlobalIndex

/-- The end of `D` is known, some byte of `D` is still missing, and none of the bytes that have
arrived lies above a missing one. -/
def ClosesEarly (D : List Byte) (s : State) : Op → Prop
  | .insert firstIndex data isLastSubstring =>
    (s.reassembler.reachEnd = true ∨ isLastSubstring = true) ∧
    (∃ j < D.length, ¬ Arrived s j (.insert firstIndex data isLastSubstring)) ∧
    ∀ k < D.length, Arrived s k (.insert firstIndex data isLastSubstring) →
      ∀ j < k, Arrived s j (.insert firstIndex data isLastSubstring)
  | .pop _ => False

instance (D : List Byte) (op : Op) : Decidable (Feeds D op) :=
  match op with
  | .insert _ _ _ | .pop _ => by unfold Feeds; infer_instance

instance (D : List Byte) (op : Op) : Decidable (EndsRight D op) :=
  match op with
  | .insert _ _ _ | .pop _ => by unfold EndsRight; infer_instance

instance (op : Op) : Decidable (IsLast op) :=
  match op with
  | .insert _ _ _ | .pop _ => by unfold IsLast; infer_instance

instance (s : State) (op : Op) : Decidable (LeavesStaleBits s op) :=
  match op with
  | .insert _ _ _ | .pop _ => by unfold LeavesStaleBits; infer_instance

instance (s : State) (j : ℕ) (op : Op) : Decidable (Arrived s j op) :=
  match op with
  | .insert _ _ _ | .pop _ => by unfold Arrived; infer_instance

instance (D : List Byte) (s : State) (op : Op) : Decidable (ClosesEarly D s op) :=
  match op with
  | .insert _ _ _ | .pop _ => by unfold ClosesEarly; infer_instance

def arrivals (C : ℕ) (e : Event State Op (List Byte)) : Finset ℕ :=
  match e.op with
  | .insert firstIndex data _ =>
    (Finset.Ico firstIndex (firstIndex + data.length)).filter fun j =>
      e.before.reassembler.firstUnassembledGlobalIndex ≤ j ∧ j < e.before.output.bytesPopped + C
  | .pop _ => ∅

def received (C : ℕ) (tr : Trace) : Finset ℕ := tr.foldl (fun S e => S ∪ arrivals C e) ∅

def poppedBytes (tr : Trace) : List Byte := (tr.map Event.out).flatten

@[simp] theorem received_snoc (C : ℕ) (tr : Trace) (e : Event State Op (List Byte)) :
    received C (tr ++ [e]) = received C tr ∪ arrivals C e := by
  simp [received]

@[simp] theorem poppedBytes_snoc (tr : Trace) (e : Event State Op (List Byte)) :
    poppedBytes (tr ++ [e]) = poppedBytes tr ++ e.out := by
  simp [poppedBytes]

/-- Exact reassembly: what has been popped and what is buffered is the prefix of `D` that was
pushed; pending are the indices received in the window above it, each with its byte of `D`;
and both together fit into the capacity. -/
structure Exact (D : List Byte) (C : ℕ) (tr : Trace) (s : State) : Prop where
  pushed : poppedBytes tr ++ s.output.peek = D.take s.output.bytesPushed
  pushed_eq : s.output.bytesPushed = s.reassembler.firstUnassembledGlobalIndex
  pending : s.reassembler.bytesPending =
    ((received C tr).filter fun j => s.reassembler.firstUnassembledGlobalIndex < j).card
  kept : ∀ j ∈ received C tr, j < s.reassembler.firstUnassembledGlobalIndex ∨
    s.reassembler.Holds j ∧
      s.reassembler.slidingWindow[j % s.reassembler.bufferSize]? = D[j]?
  fits : s.output.bytesBuffered + s.reassembler.bytesPending ≤ C

/-- Closed exactly when the end is known and all of `D` has been pushed. -/
def ClosedAtEnd (D : List Byte) (tr : Trace) (s : State) : Prop :=
  s.output.isClosed = true ↔ (∃ e ∈ tr, IsLast e.op) ∧ s.output.bytesPushed = D.length

instance (D : List Byte) (tr : Trace) (s : State) : Decidable (ClosedAtEnd D tr s) := by
  unfold ClosedAtEnd; infer_instance

structure Inv (D : List Byte) (C : ℕ) (tr : Trace) (s : State) : Prop where
  tracks : Reassembler.Tracks D C (received C tr) s.reassembler s.output
  popped : poppedBytes tr = D.take s.output.bytesPopped
  reachEnd : s.reassembler.reachEnd = true ↔ ∃ e ∈ tr, IsLast e.op

variable {D : List Byte} {C : ℕ} {tr : Trace} {s s' : State} {op : Op} {out : List Byte}

theorem init_inv (D : List Byte) (C : ℕ) : Inv D C [] (init C) :=
  ⟨Or.inr ⟨rfl,rfl,rfl⟩,by simp [poppedBytes,init,ByteStream.new],
    by simp [init,Reassembler.new]⟩

/-- The window's lower end does not matter for the received set: below it everything is there. -/
theorem Inv.arrivals_eq (h : Inv D C tr s) (firstIndex : ℕ) (data : List Byte) (b : Bool) :
    received C tr ∪ arrivals C ⟨s,.insert firstIndex data b,out⟩ =
      received C tr ∪
        Reassembler.delivered firstIndex data.length (s.output.bytesPopped + C) := by
  ext j
  simp only [Finset.mem_union,arrivals,Finset.mem_filter,Finset.mem_Ico,Reassembler.mem_delivered]
  constructor
  · rintro (hS | ⟨hj,-,hlt⟩)
    · exact Or.inl hS
    · exact Or.inr ⟨hj.1,hj.2,hlt⟩
  · rintro (hS | ⟨hlo,hhi,hlt⟩)
    · exact Or.inl hS
    · by_cases hj : j < s.reassembler.firstUnassembledGlobalIndex
      · exact Or.inl (h.tracks.below hj)
      · exact Or.inr ⟨⟨hlo,hhi⟩,by omega,hlt⟩

theorem Inv.insert (h : Inv D C tr s) (hC : 0 < C) (hfit : D.length + C < 2^64)
    {firstIndex : ℕ} {data : List Byte} {b : Bool} (hfeed : Feeds D (.insert firstIndex data b))
    (hclean : ¬ LeavesStaleBits s (.insert firstIndex data b)) :
    ∃ s', step s (.insert firstIndex data b) = .ok (s',[]) ∧
      Inv D C (tr ++ [⟨s,.insert firstIndex data b,[]⟩]) s' ∧
      s'.output.isClosed =
        (s.output.isClosed || (s'.reassembler.reachEnd && s'.reassembler.bytesPending == 0)) ∧
      s'.output.bytesPopped = s.output.bytesPopped ∧ s'.reassembler.bufferSize = C := by
  obtain ⟨hlen,hdata⟩ := hfeed
  have hclean' := hclean
  rw [LeavesStaleBits,hdata] at hclean'
  obtain ⟨r',output',hrun,hinv,hend,hpop,hclosed⟩ :=
    Reassembler.insert_spec hC hfit h.tracks hlen b hclean'
  rw [← hdata] at hrun
  refine ⟨⟨r',output'⟩,?_,⟨?_,?_,?_⟩,hclosed,hpop,hinv.window.size_eq⟩
  · simp only [step,hrun,bind,Except.bind]
  · rw [received_snoc,h.arrivals_eq]
    exact Or.inl hinv
  · rw [poppedBytes_snoc,h.popped]
    change _ ++ [] = D.take output'.bytesPopped
    rw [hpop,List.append_nil]
  · change r'.reachEnd = true ↔ _
    rw [hend,Bool.or_eq_true,h.reachEnd]
    simp [or_and_right,exists_or,IsLast]

theorem step_insert {firstIndex : ℕ} {data : List Byte} {b : Bool}
    (hs : step s (.insert firstIndex data b) = .ok (s',out)) :
    s.reassembler.insert firstIndex data b s.output = .ok (s'.reassembler,s'.output) := by
  obtain ⟨res,hres,hret⟩ := bind_ok.mp hs
  cases hret
  exact hres

theorem Inv.pop (h : Inv D C tr s) (len : ℕ) :
    Inv D C (tr ++ [⟨s,.pop len,s.output.peek.take len⟩]) ⟨s.reassembler,s.output.pop len⟩ := by
  refine ⟨?_,?_,?_⟩
  · have hnone : arrivals C ⟨s,.pop len,s.output.peek.take len⟩ = ∅ := rfl
    rw [received_snoc,hnone,Finset.union_empty]
    exact h.tracks.pop len
  · rw [poppedBytes_snoc,h.popped]
    change _ ++ s.output.peek.take len = D.take (s.output.bytesPopped + min len s.output.bytesBuffered)
    rw [h.tracks.content,slice_take,List.take_add]
    rfl
  · rw [h.reachEnd]
    simp [or_and_right,exists_or,IsLast]

theorem Inv.step_ok (h : Inv D C tr s) (hC : 0 < C) (hfit : D.length + C < 2^64)
    (hfeed : Feeds D op) (hclean : ¬ LeavesStaleBits s op) :
    ∃ s' out, step s op = .ok (s',out) := by
  cases op with
  | insert firstIndex data b =>
    obtain ⟨s',hs,-⟩ := h.insert hC hfit hfeed hclean
    exact ⟨s',[],hs⟩
  | pop len => exact ⟨_,_,rfl⟩

theorem Inv.step (h : Inv D C tr s) (hC : 0 < C) (hfit : D.length + C < 2^64)
    (hfeed : Feeds D op) (hclean : ¬ LeavesStaleBits s op) (hs : step s op = .ok (s',out)) :
    Inv D C (tr ++ [⟨s,op,out⟩]) s' := by
  cases op with
  | insert firstIndex data b =>
    obtain ⟨s₁,hs₁,hinv,-⟩ := h.insert hC hfit hfeed hclean
    rw [hs₁] at hs
    simp only [Except.ok.injEq,Prod.mk.injEq] at hs
    obtain ⟨rfl,rfl⟩ := hs
    exact hinv
  | pop len =>
    simp only [ReassemblerRuns.step,Except.ok.injEq,Prod.mk.injEq] at hs
    obtain ⟨rfl,rfl⟩ := hs
    exact h.pop len

theorem run_inv (hC : 0 < C) (hfit : D.length + C < 2^64) (hr : Run step (init C) tr s)
    (hfeed : ∀ e ∈ tr, Feeds D e.op) (hclean : ∀ e ∈ tr, ¬ LeavesStaleBits e.before e.op) :
    Inv D C tr s :=
  Run.history_invariant (Inv D C) (fun e => Feeds D e.op ∧ ¬ LeavesStaleBits e.before e.op)
    (init_inv D C) (fun hi hg hs => hi.step hC hfit hg.1 hg.2 hs) hr
    (fun e he => ⟨hfeed e he,hclean e he⟩)

theorem Inv.exact (h : Inv D C tr s) : Exact D C tr s := by
  have hp := h.tracks.stream.pushed_eq
  refine ⟨?_,h.tracks.pushed_eq,h.tracks.pending_eq,fun j hj => h.tracks.kept hj,h.tracks.fits⟩
  rw [h.popped,h.tracks.content,hp,List.take_add]
  rfl

/-- As long as no insert leaves stale bits, no step faults and reassembly is exact. -/
theorem reassembly_exact (hC : 0 < C) (hfit : D.length + C < 2^64) (hr : Run step (init C) tr s)
    (hfeed : ∀ e ∈ tr, Feeds D e.op) (hclean : ∀ e ∈ tr, ¬ LeavesStaleBits e.before e.op) :
    Exact D C tr s ∧
      ∀ op, Feeds D op → ¬ LeavesStaleBits s op → ∃ s' out, step s op = .ok (s',out) := by
  have hinv := run_inv hC hfit hr hfeed hclean
  exact ⟨hinv.exact,fun op hf hc => hinv.step_ok hC hfit hf hc⟩

/-- Six bytes in two slots less, out of order and overlapping, with a pop in between. -/
theorem reassembly_exact_reordered : ∃ tr s, Run step (init 4) tr s ∧ tr.length = 5 ∧
    Exact [10,11,12,13,14,15] 4 tr s := by
  obtain ⟨tr,s,hr,hlen,hfeed,hclean⟩ := Run.exists_of_exec step (init 4)
    [.insert 2 [12,13,14] false,.insert 0 [10,11] false,.pop 3,.insert 5 [15] true,
      .insert 3 [13,14] false]
    (fun tr s => tr.length = 5 ∧ (∀ e ∈ tr, Feeds [10,11,12,13,14,15] e.op) ∧
      ∀ e ∈ tr, ¬ LeavesStaleBits e.before e.op) (by decide +kernel)
  exact ⟨tr,s,hr,hlen,(reassembly_exact (by decide) (by decide) hr hfeed hclean).1⟩

/-- A window of two slots that wraps over a held byte: the output is not a prefix of `D`. -/
theorem reassembly_stale_bit : ∃ D C tr s, 0 < C ∧ Run step (init C) tr s ∧
    (∀ e ∈ tr, Feeds D e.op) ∧ poppedBytes tr ++ s.output.peek ≠ D.take s.output.bytesPushed := by
  obtain ⟨tr,s,hr,hfeed,hbad⟩ := Run.exists_of_exec step (init 2)
    [.insert 0 [10] false,.pop 1,.insert 2 [12] false,.insert 1 [11,12] false,.pop 2,
      .insert 3 [13] false]
    (fun tr s => (∀ e ∈ tr, Feeds [10,11,12,13,14,15] e.op) ∧
      poppedBytes tr ++ s.output.peek ≠ [10,11,12,13,14,15].take s.output.bytesPushed)
    (by decide +kernel)
  exact ⟨_,2,tr,s,by decide,hr,hfeed,hbad⟩

theorem Inv.arrived_iff (h : Inv D C tr s) (out : List Byte) {firstIndex : ℕ} {data : List Byte} {b : Bool}
    {j : ℕ} :
    Arrived s j (.insert firstIndex data b) ↔
      j ∈ received C (tr ++ [⟨s,.insert firstIndex data b,out⟩]) := by
  rw [received_snoc,h.arrivals_eq,Finset.mem_union,Reassembler.mem_delivered]
  simp only [Arrived,h.tracks.capacity_eq]
  by_cases hlt : j < s.reassembler.firstUnassembledGlobalIndex
  · simp [hlt,h.tracks.below hlt]
  · by_cases hin : j < s.output.bytesPopped + C
    · simp [hlt,hin,h.tracks.holds_iff (by omega) hin]
    · have hout : j ∉ received C tr := by
        intro hj
        rcases h.tracks with ht | ⟨-,-,hempty⟩
        · exact hin (ht.inside j hj).2
        · simp [hempty] at hj
      simp [hlt,hin,hout]

theorem Inv.insert_closedAtEnd (h : Inv D C tr s) (hC : 0 < C) (hfit : D.length + C < 2^64)
    {firstIndex : ℕ} {data : List Byte} {b : Bool} (hclosed : ClosedAtEnd D tr s)
    (hfeed : Feeds D (.insert firstIndex data b))
    (hclean : ¬ LeavesStaleBits s (.insert firstIndex data b))
    (hearly : ¬ ClosesEarly D s (.insert firstIndex data b))
    (hs : ReassemblerRuns.step s (.insert firstIndex data b) = .ok (s',out)) :
    ClosedAtEnd D (tr ++ [⟨s,.insert firstIndex data b,out⟩]) s' := by
  obtain ⟨s₁,hs₁,hinv,hclose,-⟩ := h.insert hC hfit hfeed hclean
  rw [hs₁] at hs
  simp only [Except.ok.injEq,Prod.mk.injEq] at hs
  obtain ⟨rfl,rfl⟩ := hs
  have hpushed := hinv.tracks.pushed_eq
  have hend : s₁.reassembler.reachEnd = true ↔
      s.reassembler.reachEnd = true ∨ b = true := by
    rw [hinv.reachEnd,h.reachEnd]
    simp [or_and_right,exists_or,IsLast]
  rw [ClosedAtEnd,hclose,← hinv.reachEnd,hpushed,Bool.or_eq_true,Bool.and_eq_true,beq_iff_eq]
  constructor
  · rintro (hold | ⟨hreach,hpend⟩)
    · -- it was closed before, so everything was already there
      obtain ⟨hlast,hall⟩ := hclosed.mp hold
      refine ⟨hend.mpr (Or.inl (h.reachEnd.mpr hlast)),?_⟩
      rw [h.tracks.pushed_eq] at hall
      have hle := hinv.tracks.first_le
      have hmono := h.tracks.first_mono hinv.tracks (by
        rw [received_snoc]
        exact Finset.subset_union_left)
      omega
    · refine ⟨hreach,?_⟩
      by_contra hne
      have hle := hinv.tracks.first_le
      -- nothing is pending, so what has arrived is what is assembled
      have harr : ∀ j, Arrived s j (.insert firstIndex data b) ↔
          j < s₁.reassembler.firstUnassembledGlobalIndex := by
        intro j
        rw [h.arrived_iff []]
        exact hinv.tracks.mem_iff_of_idle hpend
      apply hearly
      refine ⟨hend.mp hreach,⟨s₁.reassembler.firstUnassembledGlobalIndex,by omega,?_⟩,?_⟩
      · rw [harr]
        omega
      · intro k _ hk j hj
        rw [harr] at hk ⊢
        omega
  · rintro ⟨hreach,hall⟩
    exact Or.inr ⟨hreach,hinv.tracks.pending_zero hall⟩

theorem Inv.pop_closedAtEnd (hclosed : ClosedAtEnd D tr s) (len : ℕ) :
    ClosedAtEnd D (tr ++ [⟨s,.pop len,out⟩]) ⟨s.reassembler,s.output.pop len⟩ := by
  simpa [ClosedAtEnd,or_and_right,exists_or,IsLast] using hclosed

theorem Inv.step_closedAtEnd (h : Inv D C tr s) (hC : 0 < C) (hfit : D.length + C < 2^64)
    (hclosed : ClosedAtEnd D tr s) (hfeed : Feeds D op) (hclean : ¬ LeavesStaleBits s op)
    (hearly : ¬ ClosesEarly D s op) (hs : ReassemblerRuns.step s op = .ok (s',out)) :
    ClosedAtEnd D (tr ++ [⟨s,op,out⟩]) s' := by
  cases op with
  | insert firstIndex data b => exact h.insert_closedAtEnd hC hfit hclosed hfeed hclean hearly hs
  | pop len =>
    simp only [ReassemblerRuns.step,Except.ok.injEq,Prod.mk.injEq] at hs
    obtain ⟨rfl,rfl⟩ := hs
    exact Inv.pop_closedAtEnd hclosed len

/-- As long as no insert leaves stale bits and none closes early, the output is closed exactly
at the end of `D`. -/
theorem closed_at_end (hC : 0 < C) (hfit : D.length + C < 2^64) (hr : Run step (init C) tr s)
    (hfeed : ∀ e ∈ tr, Feeds D e.op) (hclean : ∀ e ∈ tr, ¬ LeavesStaleBits e.before e.op)
    (hearly : ∀ e ∈ tr, ¬ ClosesEarly D e.before e.op) : ClosedAtEnd D tr s := by
  refine (Run.history_invariant (fun tr s => Inv D C tr s ∧ ClosedAtEnd D tr s)
    (fun e => Feeds D e.op ∧ ¬ LeavesStaleBits e.before e.op ∧
      ¬ ClosesEarly D e.before e.op) ⟨init_inv D C,by simp [ClosedAtEnd,init]⟩ ?_ hr
    fun e he => ⟨hfeed e he,hclean e he,hearly e he⟩).2
  rintro tr s s' op out ⟨hinv,hclosed⟩ ⟨hf,hc,he⟩ hs
  exact ⟨hinv.step hC hfit hf hc hs,hinv.step_closedAtEnd hC hfit hclosed hf hc he hs⟩

theorem closed_at_end_reordered : ∃ tr s, Run step (init 4) tr s ∧ s.output.isClosed = true ∧
    ClosedAtEnd [10,11,12,13] tr s := by
  obtain ⟨tr,s,hr,hopen,hfeed,hclean,hearly⟩ :=
    Run.exists_of_exec step (init 4)
    [.insert 2 [12,13] true,.insert 0 [10] false,.pop 1,.insert 1 [11,12] false]
      (fun tr s => s.output.isClosed = true ∧ (∀ e ∈ tr, Feeds [10,11,12,13] e.op) ∧
        (∀ e ∈ tr, ¬ LeavesStaleBits e.before e.op) ∧
        ∀ e ∈ tr, ¬ ClosesEarly [10,11,12,13] e.before e.op) (by decide +kernel)
  exact ⟨tr,s,hr,hopen,closed_at_end (by decide) (by decide) hr hfeed hclean hearly⟩

/-- The empty last substring arrives before the only byte: the output closes without it. -/
theorem closed_too_early : ∃ D C tr s, 0 < C ∧ Run step (init C) tr s ∧
    (∀ e ∈ tr, Feeds D e.op) ∧ (∀ e ∈ tr, EndsRight D e.op) ∧ ¬ ClosedAtEnd D tr s := by
  obtain ⟨tr,s,hr,hfeed,hends,hbad⟩ := Run.exists_of_exec step (init 1)
    [.insert 1 [] true]
    (fun tr s => (∀ e ∈ tr, Feeds [10] e.op) ∧ (∀ e ∈ tr, EndsRight [10] e.op) ∧
      ¬ ClosedAtEnd [10] tr s) (by decide +kernel)
  exact ⟨_,1,tr,s,by decide,hr,hfeed,hends,hbad⟩

end ReassemblerRuns
end Minnow
