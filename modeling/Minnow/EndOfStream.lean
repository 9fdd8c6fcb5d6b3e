import Minnow.ReassemblerSafety

/-! What happens to an output stream after it has been closed. `Writer::push` does not look at
the flag, so a reassembler that is handed the byte behind the declared end pushes it. -/
namespace Minnow

open Library

namespace Reassembler

variable {r r' : Reassembler} {output output' : ByteStream} {firstIndex : ℕ} {data : List Byte}

theorem drain_extends {fuel i : ℕ} {data' : List Byte}
    (h : drain fuel r i data = .ok (r',data')) : ∃ bytes, data' = data ++ bytes := by
  induction fuel generalizing r i data with
  | zero =>
    obtain ⟨w,-,h⟩ := bind_ok.mp h
    obtain ⟨bit,-,h⟩ := bind_ok.mp h
    split at h
    · cases h
    · cases h
      exact ⟨[],(List.append_nil _).symm⟩
  | succ fuel ih =>
    obtain ⟨w,-,h⟩ := bind_ok.mp h
    obtain ⟨bit,-,h⟩ := bind_ok.mp h
    split at h
    · obtain ⟨bitmap,-,h⟩ := bind_ok.mp h
      split at h
      · cases h
      · rename_i c _
        obtain ⟨bytes,hdata⟩ := ih h
        exact ⟨c::bytes,by rw [hdata,List.append_assoc]; rfl⟩
    · cases h
      exact ⟨[],(List.append_nil _).symm⟩

/-- The data has the next byte, and what can be used of it reaches past that byte. -/
def Continues (r : Reassembler) (firstIndex : ℕ) (data : List Byte) (output : ByteStream) : Prop :=
  firstIndex ≤ r.firstUnassembledGlobalIndex ∧
    r.firstUnassembledGlobalIndex < r.dataTailIndex firstIndex data output

theorem assemble_idle (hnot : ¬ r.Continues firstIndex data output)
    (h : r.assemble firstIndex data output = .ok (r',output')) : output' = output := by
  simp only [assemble] at h
  split_ifs at h with hdiscard hpush
  · cases h
    rfl
  · exact absurd ⟨hpush,by omega⟩ hnot
  · obtain ⟨r₁,-,h⟩ := bind_ok.mp h
    cases h
    rfl

theorem assemble_pushes (hcont : r.Continues firstIndex data output) (hi : firstIndex < 2^64)
    (hlen : data.length < 2^64) (h : r.assemble firstIndex data output = .ok (r',output')) :
    ∃ bytes, bytes ≠ [] ∧ output' = output.push bytes := by
  obtain ⟨hpush,htail⟩ := hcont
  have hend : r.dataTailIndex firstIndex data output ≤ u64 (firstIndex + data.length) :=
    Nat.min_le_left _ _
  have hinside : r.firstUnassembledGlobalIndex - firstIndex < data.length := by
    simp only [u64] at hend
    omega
  simp only [assemble] at h
  rw [if_neg (by omega),if_pos hpush] at h
  obtain ⟨startIndex,-,h⟩ := bind_ok.mp h
  obtain ⟨endIndex,-,h⟩ := bind_ok.mp h
  obtain ⟨batch,-,h⟩ := bind_ok.mp h
  obtain ⟨⟨r₁,data₁⟩,hdrain,h⟩ := bind_ok.mp h
  obtain ⟨bytes,hdata⟩ := drain_extends hdrain
  split_ifs at h
  cases h
  refine ⟨data₁.drop (r.firstUnassembledGlobalIndex - firstIndex),?_,rfl⟩
  rw [hdata,← List.length_pos_iff,List.length_drop,List.length_append]
  omega

/-- In terms of the arguments; sums that wrap around end below the next byte. -/
theorem continues_iff (hi : firstIndex < 2^64) (hlen : data.length < 2^64)
    (hav : output.availableCapacity < 2^64) :
    r.Continues firstIndex data output ↔ firstIndex ≤ r.firstUnassembledGlobalIndex ∧
      r.firstUnassembledGlobalIndex < firstIndex + data.length ∧
      firstIndex + data.length < 2^64 ∧ 0 < output.availableCapacity ∧
      r.firstUnassembledGlobalIndex + output.availableCapacity < 2^64 := by
  simp only [Continues,dataTailIndex,u64]
  omega

@[simp] theorem closeOutput_peek (r : Reassembler) (output : ByteStream) :
    (r.closeOutput output).peek = output.peek := by
  unfold closeOutput
  split_ifs <;> rfl

theorem closeOutput_isClosed (r : Reassembler) (h : output.isClosed = true) :
    (r.closeOutput output).isClosed = true := by
  unfold closeOutput
  split_ifs
  · exact output.close_isClosed
  · exact h

theorem insert_output {isLastSubstring : Bool} (hi : firstIndex < 2^64) (hlen : data.length < 2^64)
    (h : r.insert firstIndex data isLastSubstring output = .ok (r',output')) :
    (¬ r.Continues firstIndex data output ∧ output' = r'.closeOutput output) ∨
    r.Continues firstIndex data output ∧
      ∃ bytes, bytes ≠ [] ∧ output' = r'.closeOutput (output.push bytes) := by
  obtain ⟨⟨r₁,output₁⟩,hrun,h⟩ := bind_ok.mp h
  cases h
  have hsame : Continues (prepare { r with reachEnd := r.reachEnd || isLastSubstring } output)
      firstIndex data output ↔ r.Continues firstIndex data output := by
    simp only [Continues,dataTailIndex,prepare_firstUnassembledGlobalIndex]
  by_cases hcont : r.Continues firstIndex data output
  · obtain ⟨bytes,hne,hout⟩ := assemble_pushes (hsame.mpr hcont) hi hlen hrun
    exact Or.inr ⟨hcont,bytes,hne,by rw [hout]⟩
  · have hout := assemble_idle (mt hsame.mp hcont) hrun
    exact Or.inl ⟨hcont,by rw [hout]⟩

end Reassembler

namespace ReassemblerRuns

variable {tr : Trace} {s s' : State} {op : Op} {out : List Byte}

def IsInsert : Op → Prop
  | .insert _ _ _ => True
  | .pop _ => False

/-- The stream is closed and has room, and the data has the byte that comes next. -/
def PushesPastEnd (s : State) : Op → Prop
  | .insert firstIndex data _ =>
    s.output.isClosed = true ∧ firstIndex ≤ s.reassembler.firstUnassembledGlobalIndex ∧
      s.reassembler.firstUnassembledGlobalIndex < firstIndex + data.length ∧
      firstIndex + data.length < 2^64 ∧ 0 < s.output.availableCapacity ∧
      s.reassembler.firstUnassembledGlobalIndex + s.output.availableCapacity < 2^64
  | .pop _ => False

instance (s : State) (op : Op) : Decidable (PushesPastEnd s op) :=
  match op with
  | .insert _ _ _ | .pop _ => by unfold PushesPastEnd; infer_instance

def Unwritten (s s' : State) : Prop :=
  s'.output.bytesPushed = s.output.bytesPushed ∧ s'.output.peek = s.output.peek

/-- Closed stays closed, and finished stays finished. -/
def Ends (s s' : State) : Prop :=
  (s.output.isClosed = true → s'.output.isClosed = true) ∧
    (s.output.isFinished = true → s'.output.isFinished = true)

/-- The end of the stream is final, in every later state of the run. -/
structure EndIsFinal (tr : Trace) (s : State) : Prop where
  unwritten : ∀ e ∈ tr, IsInsert e.op → e.before.output.isClosed = true →
    ∀ s' out, step e.before e.op = .ok (s',out) → Unwritten e.before s'
  ends : ∀ e ∈ tr, Ends e.before s
  pairs : tr.Pairwise fun e₁ e₂ => Ends e₁.before e₂.before

theorem Ends.trans {s'' : State} (h : Ends s s') (h' : Ends s' s'') : Ends s s'' :=
  ⟨fun hc => h'.1 (h.1 hc),fun hf => h'.2 (h.2 hf)⟩

theorem Safe.insert_closed (h : Safe s) {firstIndex : ℕ} {data : List Byte} {b : Bool}
    (hop : Representable (.insert firstIndex data b)) (hclosed : s.output.isClosed = true)
    (hs : ReassemblerRuns.step s (.insert firstIndex data b) = .ok (s',out)) :
    (Unwritten s s' ↔ ¬ PushesPastEnd s (.insert firstIndex data b)) ∧ s'.output.isClosed = true := by
  have hav := h.available_lt
  have hiff := Reassembler.continues_iff (r := s.reassembler) hop.1 hop.2 hav
  have hpast : PushesPastEnd s (.insert firstIndex data b) ↔
      s.reassembler.Continues firstIndex data s.output := by
    rw [hiff]
    simp only [PushesPastEnd,hclosed,true_and]
  rw [hpast]
  rcases Reassembler.insert_output hop.1 hop.2 (step_insert hs) with
    ⟨hnot,hout⟩ | ⟨hcont,bytes,hne,hout⟩
  · refine ⟨⟨fun _ => hnot,fun _ => ?_⟩,?_⟩
    · rw [Unwritten,hout]
      simp
    · rw [hout]
      exact Reassembler.closeOutput_isClosed _ hclosed
  · refine ⟨⟨fun hsame => ?_,fun hnot => absurd hcont hnot⟩,?_⟩
    · have hgrow := hsame.1
      have hpos := List.length_pos_iff.mpr hne
      have hroom := (hiff.mp hcont).2.2.2.1
      rw [hout,Reassembler.closeOutput_bytesPushed,ByteStream.push_bytesPushed] at hgrow
      omega
    · rw [hout]
      exact Reassembler.closeOutput_isClosed _ (by simpa using hclosed)

theorem Safe.ends (h : Safe s) (hop : Representable op) (hpast : ¬ PushesPastEnd s op)
    (hs : ReassemblerRuns.step s op = .ok (s',out)) : Ends s s' := by
  have hsafe := h.step hop hs
  rw [Ends,ByteStream.isFinished_iff h.stream,ByteStream.isFinished_iff hsafe.stream]
  cases op with
  | insert firstIndex data b =>
    refine ⟨fun hclosed => (h.insert_closed hop hclosed hs).2,?_⟩
    rintro ⟨hclosed,hempty⟩
    obtain ⟨hsame,hclosed'⟩ := h.insert_closed hop hclosed hs
    exact ⟨hclosed',(hsame.mpr hpast).2.trans hempty⟩
  | pop len =>
    cases hs
    refine ⟨fun hclosed => by simpa using hclosed,?_⟩
    rintro ⟨hclosed,hempty⟩
    exact ⟨by simpa using hclosed,by simp [ByteStream.pop_peek h.stream,hempty]⟩

/-- The end is final in exactly the runs in which no insert brings the next byte to a closed stream
with room for it. -/
theorem end_final_iff {output : ByteStream} (hstream : output.WF)
    (hcapacity : output.capacity < 2^64) (hr : Run step ⟨Reassembler.new,output⟩ tr s)
    (hops : ∀ e ∈ tr, Representable e.op) :
    EndIsFinal tr s ↔ ∀ e ∈ tr, ¬ PushesPastEnd e.before e.op := by
  have hinit : Safe ⟨Reassembler.new,output⟩ := ⟨Reassembler.new_sound,hstream,hcapacity⟩
  obtain ⟨-,hevents⟩ := Run.forall_events Safe (fun e => Representable e.op)
    (fun e => Safe e.before ∧ ∃ s', step e.before e.op = .ok (s',e.out)) hinit
    (fun hi hg hs => ⟨hi.step hg hs,hi,_,hs⟩) hr hops
  constructor
  · rintro hfinal ⟨s₁,op,out⟩ he hpast
    obtain ⟨hsafe,s₂,hs⟩ := hevents _ he
    cases op with
    | insert firstIndex data b =>
      have hsame := hfinal.unwritten _ he trivial hpast.1 s₂ out hs
      exact ((hsafe.insert_closed (hops _ he) hpast.1 hs).1.mp hsame) hpast
    | pop len => exact hpast
  · intro hnone
    obtain ⟨-,hends,hpairs⟩ := Run.monotone Safe
      (fun e => Representable e.op ∧ ¬ PushesPastEnd e.before e.op) Ends Ends.trans hinit
      (fun hi hg hs => ⟨hi.step hg.1 hs,hi.ends hg.1 hg.2 hs⟩) hr
      (fun e he => ⟨hops e he,hnone e he⟩)
    refine ⟨?_,hends,hpairs⟩
    rintro ⟨s₁,op,out⟩ he hins hclosed s₂ out₂ hs
    cases op with
    | insert firstIndex data b =>
      exact ((hevents _ he).1.insert_closed (hops _ he) hclosed hs).1.mpr (hnone _ he)
    | pop len => exact hins.elim

/-- An insert below the end, a full stream at the end, and one past it after a gap. -/
theorem end_final_iff_kept : ∃ tr s, Run step ⟨Reassembler.new,ByteStream.new 2⟩ tr s ∧
    tr.length = 5 ∧ EndIsFinal tr s := by
  obtain ⟨tr,s,hr,hlen,hops,hnone⟩ := Run.exists_of_exec step ⟨Reassembler.new,ByteStream.new 2⟩
    [.insert 0 [1,2] true,.insert 2 [3] false,.pop 2,.insert 0 [1,2] false,.insert 3 [4] false]
    (fun tr s => tr.length = 5 ∧ (∀ e ∈ tr, Representable e.op) ∧
      ∀ e ∈ tr, ¬ PushesPastEnd e.before e.op) (by decide +kernel)
  exact ⟨tr,s,hr,hlen,(end_final_iff (ByteStream.new_wf 2) (by decide) hr hops).mpr hnone⟩

/-- A byte behind the declared end, after the reader has finished. -/
theorem end_not_final : ∃ tr s, Run step ⟨Reassembler.new,ByteStream.new 4⟩ tr s ∧
    (∀ e ∈ tr, Representable e.op) ∧ s.output.isFinished = false ∧ ¬ EndIsFinal tr s := by
  obtain ⟨tr,s,hr,hops,hfin,e,he,hbefore⟩ := Run.exists_of_exec step
    ⟨Reassembler.new,ByteStream.new 4⟩
    [.insert 0 [1,2] true,.pop 2,.insert 2 [3] false]
    (fun tr s => (∀ e ∈ tr, Representable e.op) ∧ s.output.isFinished = false ∧
      ∃ e ∈ tr, e.before.output.isFinished = true) (by decide +kernel)
  refine ⟨tr,s,hr,hops,hfin,fun hfinal => ?_⟩
  have hstill := (hfinal.ends e he).2 hbefore
  rw [hfin] at hstill
  cases hstill

end ReassemblerRuns
end Minnow
