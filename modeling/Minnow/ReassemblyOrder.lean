import Minnow.ReassemblerRuns

/-! A capacity that holds all of `D`. The window then never goes round the ring, so no
bit goes stale, and what is assembled depends only on the set of indices that the
inserts have covered. -/
namespace Minnow
namespace Reassembler

open Library

variable {D : List Byte} {C k : ℕ} {S : Finset ℕ} {r : Reassembler} {output : ByteStream}

theorem Window.store_held (h : Window D C k S r) (hC : 0 < C) (data : List Byte) {j : ℕ}
    (hk : k ≤ j) (hj : j + data.length ≤ k + C)
    (hheld : ∀ i, j ≤ i → i < j + data.length → i ∈ S) : store data j r = .ok r := by
  induction data generalizing j with
  | nil => rfl
  | cons c cs ih =>
    rw [List.length_cons] at hj hheld
    have hmem : j ∈ S := hheld j le_rfl (by omega)
    rw [store]
    simp only [h.windowIndex_ok hC,h.get_ok hC hk (show j < k + C by omega),hmem,bind,Except.bind,
      decide_true,if_true]
    exact ih (by omega) (by omega) fun i hji hi => hheld i (by omega) (by omega)

/-- Between the preparation of the window and the scope guard, bytes that have been received
before change nothing. -/
theorem Inv.assemble_received (h : Inv D C S r output) (hC : 0 < C) (hfit : D.length + C < 2^64)
    {i len : ℕ} (hi : i + len ≤ D.length) (hheld : ∀ j, i ≤ j → j < i + len → j ∈ S) :
    r.assemble i (slice D i len) output = .ok (r,output) := by
  have htail := h.dataTailIndex_eq hfit hi
  have hav := h.available
  have hpop := h.popped_eq
  generalize hT : min (i + len) (output.bytesPopped + C) = T at htail
  by_cases hdiscard : T ≤ i ∨ T ≤ r.firstUnassembledGlobalIndex
  · simp only [assemble,htail,if_pos hdiscard]
  · rw [not_or,Nat.not_le,Nat.not_le] at hdiscard
    have hpush : ¬ i ≤ r.firstUnassembledGlobalIndex := fun hle => h.gap (hheld _ hle (by omega))
    have htake : ((slice D i len).take (T - i)).length = T - i := by
      rw [slice_take,slice_length (by omega)]
      omega
    have hstore : store ((slice D i len).take (T - i)) i r = .ok r :=
      h.window.store_held hC _ (by omega) (by rw [htake]; omega)
        fun j hij hj => hheld j hij (by rw [htake] at hj; omega)
    have hnot : ¬ (T ≤ i ∨ T ≤ r.firstUnassembledGlobalIndex) := by omega
    simp only [assemble,htail,if_neg hnot,if_neg hpush,hstore,bind,Except.bind]

theorem Inv.not_leavesStaleBits_of_le (h : Inv D C S r output) (hfit : D.length + C < 2^64)
    (hD : D.length ≤ C) {i len : ℕ} (hi : i + len ≤ D.length) :
    ¬ r.LeavesStaleBits i (slice D i len) output := by
  rintro ⟨-,⟨-,hwrap⟩,j,hj,-⟩
  rw [h.dataTailIndex_eq hfit hi,Finset.mem_Ico] at hj
  rw [h.dataTailIndex_eq hfit hi,h.window.size_eq] at hwrap
  rw [Nat.mod_eq_of_lt (a := r.firstUnassembledGlobalIndex) (by omega),
    Nat.mod_eq_of_lt (by omega)] at hwrap
  omega

theorem closeOutput_idem (r : Reassembler) (output : ByteStream) :
    r.closeOutput (r.closeOutput output) = r.closeOutput output := by
  unfold closeOutput
  split_ifs
  · simp [ByteStream.close,UInt8.or_assoc]
  · rfl

end Reassembler

namespace ReassemblerRuns

open Library

variable {D : List Byte} {C : ℕ} {tr : Trace} {s s' : State} {op : Op} {out : List Byte}

/-- The indices of the substring that an operation inserts, wherever the window is. -/
def covers : Op → Finset ℕ
  | .insert firstIndex data _ => Finset.Ico firstIndex (firstIndex + data.length)
  | .pop _ => ∅

def covered (tr : Trace) : Finset ℕ := tr.foldl (fun S e => S ∪ covers e.op) ∅

@[simp] theorem covered_snoc (tr : Trace) (e : Event State Op (List Byte)) :
    covered (tr ++ [e]) = covered tr ∪ covers e.op := by
  simp [covered]

/-- What the indices `S` make of `D`: pushed is the part below the first gap, pending is the
number of indices above it. -/
structure Assembled (D : List Byte) (S : Finset ℕ) (tr : Trace) (s : State) : Prop where
  least : IsLeast {j | j ∉ S} s.output.bytesPushed
  pushed : poppedBytes tr ++ s.output.peek = D.take s.output.bytesPushed
  pending : s.reassembler.bytesPending = (S.filter fun j => s.output.bytesPushed < j).card

def Inserts : Op → Prop
  | .insert _ _ _ => True
  | .pop _ => False

instance (op : Op) : Decidable (Inserts op) :=
  match op with
  | .insert _ _ _ | .pop _ => by unfold Inserts; infer_instance

/-- The invariant of a run when `D` fits into the capacity. The scope guard has already done
what it would do now, and the window is there after an insert. -/
structure Unwrapped (D : List Byte) (C : ℕ) (tr : Trace) (s : State) : Prop where
  inv : Inv D C tr s
  received_eq : received C tr = covered tr
  settled : s.reassembler.closeOutput s.output = s.output
  sized : (∃ e ∈ tr, Inserts e.op) → s.reassembler.bufferSize = C
  contained : ∀ e ∈ tr, covers e.op ⊆ covered tr

theorem init_unwrapped (D : List Byte) (C : ℕ) : Unwrapped D C [] (init C) :=
  ⟨init_inv D C,rfl,rfl,by simp,by simp⟩

theorem Unwrapped.clean (h : Unwrapped D C tr s) (hC : 0 < C) (hD : D.length ≤ C)
    (hfit : D.length + C < 2^64) (hfeed : Feeds D op) : ¬ LeavesStaleBits s op := by
  cases op with
  | insert firstIndex data b =>
    obtain ⟨hlen,hdata⟩ := hfeed
    rw [LeavesStaleBits,hdata]
    exact (h.inv.tracks.prepare hC).not_leavesStaleBits_of_le hfit hD hlen
  | pop len => exact id

theorem Unwrapped.received_snoc (h : Unwrapped D C tr s) (hD : D.length ≤ C)
    (hfeed : Feeds D op) :
    received C (tr ++ [⟨s,op,out⟩]) = covered (tr ++ [⟨s,op,out⟩]) := by
  rw [ReassemblerRuns.received_snoc,covered_snoc,← h.received_eq]
  cases op with
  | insert firstIndex data b =>
    rw [h.inv.arrivals_eq]
    congr 1
    ext j
    have hlen := hfeed.1
    simp only [covers,Reassembler.mem_delivered,Finset.mem_Ico]
    omega
  | pop len => rfl

theorem Unwrapped.step (h : Unwrapped D C tr s) (hC : 0 < C) (hD : D.length ≤ C)
    (hfit : D.length + C < 2^64) (hfeed : Feeds D op) (hs : step s op = .ok (s',out)) :
    Unwrapped D C (tr ++ [⟨s,op,out⟩]) s' := by
  have hclean := h.clean hC hD hfit hfeed
  refine ⟨h.inv.step hC hfit hfeed hclean hs,h.received_snoc hD hfeed,?_,?_,?_⟩
  · cases op with
    | insert firstIndex data b =>
      have hrun := step_insert hs
      simp only [Reassembler.insert,bind,Except.bind] at hrun
      split at hrun
      · cases hrun
      · simp only [Except.ok.injEq,Prod.mk.injEq] at hrun
        rw [← hrun.1,← hrun.2]
        exact Reassembler.closeOutput_idem _ _
    | pop len =>
      cases hs
      have hsame := h.settled
      unfold Reassembler.closeOutput at hsame ⊢
      split_ifs at hsame ⊢
      · exact congrArg (fun o : ByteStream => o.pop len) hsame
      · rfl
  · intro hins
    cases op with
    | insert firstIndex data b =>
      obtain ⟨s₁,hs₁,-,-,-,hsize⟩ := h.inv.insert hC hfit hfeed hclean
      rw [hs₁] at hs
      cases hs
      exact hsize
    | pop len =>
      cases hs
      obtain ⟨e,he,hop⟩ := hins
      rcases List.mem_append.mp he with he | he
      · exact h.sized ⟨e,he,hop⟩
      · rw [List.mem_singleton.mp he] at hop
        exact hop.elim
  · intro e he
    rw [covered_snoc]
    rcases List.mem_append.mp he with he | he
    · exact (h.contained e he).trans Finset.subset_union_left
    · rw [List.mem_singleton.mp he]
      exact Finset.subset_union_right

theorem run_unwrapped (hC : 0 < C) (hD : D.length ≤ C) (hfit : D.length + C < 2^64)
    (hr : Run ReassemblerRuns.step (init C) tr s) (hfeed : ∀ e ∈ tr, Feeds D e.op) :
    Unwrapped D C tr s :=
  Run.history_invariant (Unwrapped D C) (fun e => Feeds D e.op) (init_unwrapped D C)
    (fun hi hf hs => hi.step hC hD hfit hf hs) hr hfeed

theorem Unwrapped.assembled (h : Unwrapped D C tr s) : Assembled D (covered tr) tr s := by
  have hexact := h.inv.exact
  have hpending := hexact.pending
  rw [h.received_eq,← hexact.pushed_eq] at hpending
  refine ⟨⟨?_,?_⟩,hexact.pushed,hpending⟩
  · rw [Set.mem_ofPred_eq,hexact.pushed_eq,← h.received_eq]
    exact h.inv.tracks.gap
  · intro j hj
    by_contra hlt
    rw [hexact.pushed_eq,Nat.not_le] at hlt
    apply hj
    rw [← h.received_eq]
    exact h.inv.tracks.below hlt

theorem Unwrapped.again (h : Unwrapped D C tr s) (hC : 0 < C) (hfit : D.length + C < 2^64)
    {e : Event State Op (List Byte)} (he : e ∈ tr) (hfeed : Feeds D e.op) (hins : Inserts e.op) :
    ReassemblerRuns.step s e.op = .ok (s,[]) := by
  have hsize := h.sized ⟨e,he,hins⟩
  have hheld := h.contained e he
  have hlast : IsLast e.op → s.reassembler.reachEnd = true := fun hl => h.inv.reachEnd.mpr ⟨e,he,hl⟩
  have hinv : Reassembler.Inv D C (covered tr) s.reassembler s.output := by
    rw [← h.received_eq]
    rcases h.inv.tracks with hinv | ⟨hnew,-,-⟩
    · exact hinv
    · rw [hnew] at hsize
      exact absurd hsize hC.ne
  cases hop : e.op with
  | pop len =>
    rw [hop] at hins
    exact hins.elim
  | insert firstIndex data b =>
    rw [hop] at hfeed hheld hlast
    have hreach : (s.reassembler.reachEnd || b) = s.reassembler.reachEnd := by
      cases b with
      | false => simp
      | true => simp [hlast rfl]
    have hrun := hinv.assemble_received hC hfit hfeed.1
      fun j hlo hhi => hheld (Finset.mem_Ico.mpr ⟨hlo,hhi⟩)
    rw [← hfeed.2] at hrun
    simp only [ReassemblerRuns.step,Reassembler.insert,hreach,hinv.prepare_eq hC,hrun,h.settled,
      bind,Except.bind]

/-- Reassembly does not depend on order, overlap or duplication: a run over substrings of `D`
pushes `D` up to the first index that no insert covers, keeps the number of the indices covered
above it, and never faults; another run that covers the same indices has pushed the same bytes
and keeps as many; and inserting a substring once more leaves the state as it is. A vector has
less than 2^63 elements. -/
theorem order_independent (hC : 0 < C) (hsize : C < 2^63) (hD : D.length ≤ C)
    (hr : Run ReassemblerRuns.step (init C) tr s) (hfeed : ∀ e ∈ tr, Feeds D e.op) :
    Assembled D (covered tr) tr s ∧
    (∀ op, Feeds D op → ∃ s' out, ReassemblerRuns.step s op = .ok (s',out)) ∧
    (∀ tr' s', Run ReassemblerRuns.step (init C) tr' s' → (∀ e ∈ tr', Feeds D e.op) →
      covered tr' = covered tr →
        s'.output.bytesPushed = s.output.bytesPushed ∧
        poppedBytes tr' ++ s'.output.peek = poppedBytes tr ++ s.output.peek ∧
        s'.reassembler.bytesPending = s.reassembler.bytesPending) ∧
    ∀ e ∈ tr, Inserts e.op → ReassemblerRuns.step s e.op = .ok (s,[]) := by
  have hfit : D.length + C < 2^64 := by omega
  have h := run_unwrapped hC hD hfit hr hfeed
  refine ⟨h.assembled,?_,?_,fun e he hins => h.again hC hfit he (hfeed e he) hins⟩
  · intro op hop
    exact h.inv.step_ok hC hfit hop (h.clean hC hD hfit hop)
  · intro tr' s' hr' hfeed' hcovered
    have h' := (run_unwrapped hC hD hfit hr' hfeed').assembled
    rw [hcovered] at h'
    have hsame := h'.least.unique h.assembled.least
    refine ⟨hsame,?_,?_⟩
    · rw [h'.pushed,h.assembled.pushed,hsame]
    · rw [h'.pending,h.assembled.pending,hsame]

/-- Six bytes in six slots, the middle ones twice and first; a pop comes in between. -/
theorem order_independent_shuffled : ∃ tr s, Run ReassemblerRuns.step (init 6) tr s ∧
    covered tr = {0,1,2,3,5} ∧ Assembled [10,11,12,13,14,15] (covered tr) tr s := by
  obtain ⟨tr,s,hr,hcovered,hfeed⟩ := Run.exists_of_exec ReassemblerRuns.step (init 6)
    [.insert 2 [12,13] false,.insert 5 [15] true,.insert 1 [11,12] false,.insert 0 [10] false,
      .pop 3,.insert 2 [12,13] false]
    (fun tr _ => covered tr = {0,1,2,3,5} ∧ ∀ e ∈ tr, Feeds [10,11,12,13,14,15] e.op)
    (by decide +kernel)
  exact ⟨tr,s,hr,hcovered,
    (order_independent (by decide) (by decide) (by decide) hr hfeed).1⟩

end ReassemblerRuns
end Minnow
