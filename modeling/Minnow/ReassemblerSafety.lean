import Minnow.ReassemblerRuns

/-! The reassembler on arbitrary input: what is inserted may be inconsistent, and lie
anywhere. Whatever happens, the counter is the number of set bits, and every index that is
used is one of the window. -/
namespace Minnow
namespace Reassembler

open Library

/-! `insert` with every index compared with the size of the window, and every decrease of the
counter with the counter. -/

def slot (r : Reassembler) (i : ℕ) : Except Fault ℕ := do
  let windowIndex ← r.windowIndex i
  if windowIndex < r.bufferSize ∧ windowIndex < r.slidingWindow.length ∧
      windowIndex < r.bitmap.elementCapacity then .ok windowIndex
  else .error .outOfRange

/-- A counter that would go below zero is a fault here. -/
def countDown (counter n : ℕ) : Except Fault ℕ :=
  if n ≤ counter then .ok (counter - n) else .error .arithmetic

def drainChecked : ℕ → Reassembler → ℕ → List Byte → Except Fault (Reassembler × List Byte)
  | fuel, r, i, data => do
    let windowIndex ← r.slot i
    if ← r.bitmap.get windowIndex then
      match fuel with
      | 0 => .error .nontermination
      | fuel+1 =>
        let bytesPending ← countDown r.bytesPending 1
        let bitmap ← r.bitmap.unset windowIndex
        match r.slidingWindow[windowIndex]? with
        | none => .error .outOfRange
        | some c =>
          drainChecked fuel
            { r with
              bytesPending := bytesPending
              bitmap := bitmap
              firstUnassembledGlobalIndex := r.firstUnassembledGlobalIndex + 1 }
            (i+1) (data ++ [c])
    else .ok (r,data)

def storeChecked : List Byte → ℕ → Reassembler → Except Fault Reassembler
  | [], _, r => .ok r
  | c::cs, i, r => do
    let windowIndex ← r.slot i
    if ← r.bitmap.get windowIndex then storeChecked cs (i+1) r
    else
      let bitmap ← r.bitmap.set windowIndex
      storeChecked cs (i+1)
        { r with
          bytesPending := r.bytesPending + 1
          bitmap := bitmap
          slidingWindow := r.slidingWindow.set windowIndex c }

def assembleChecked (r : Reassembler) (firstIndex : ℕ) (data : List Byte) (output : ByteStream) :
    Except Fault (Reassembler × ByteStream) := do
  let dataTailIndex := r.dataTailIndex firstIndex data output
  if dataTailIndex ≤ firstIndex ∨ dataTailIndex ≤ r.firstUnassembledGlobalIndex then .ok (r,output)
  else if firstIndex ≤ r.firstUnassembledGlobalIndex then
    let startIndex ← r.slot r.firstUnassembledGlobalIndex
    let endIndex ← r.slot (u64 (dataTailIndex + r.bufferSize - 1))
    let (popCount,bitmap) ← r.bitmap.getPopCountAndUnsetBatch startIndex endIndex
    let bytesPending ← countDown r.bytesPending popCount
    let dataStartStrIndex := r.firstUnassembledGlobalIndex - firstIndex
    let (r,data) ← drainChecked r.bufferSize
      { r with
        bytesPending := bytesPending
        bitmap := bitmap
        firstUnassembledGlobalIndex := dataTailIndex }
      dataTailIndex data
    if dataStartStrIndex ≤ data.length then .ok (r,output.push (data.drop dataStartStrIndex))
    else .error .outOfRange
  else if dataTailIndex - firstIndex ≤ data.length then
    let r ← storeChecked (data.take (dataTailIndex - firstIndex)) firstIndex r
    .ok (r,output)
  else .error .outOfRange

def insertChecked (r : Reassembler) (firstIndex : ℕ) (data : List Byte) (isLastSubstring : Bool)
    (output : ByteStream) : Except Fault (Reassembler × ByteStream) := do
  let r := { r with reachEnd := r.reachEnd || isLastSubstring }
  let (r,output) ← (r.prepare output).assembleChecked firstIndex data output
  .ok (r,r.closeOutput output)

variable {r : Reassembler} {output : ByteStream}

theorem new_sound : new.Sound := by
  have hbits : Bitmap.empty.bits = ∅ := by
    ext j
    simp [Bitmap.bits,Bitmap.mem_bitsOf,Bitmap.empty]
  refine ⟨rfl,rfl,⟨rfl,rfl,?_⟩,?_,by decide⟩
  · intro j hj
    rw [show new.bitmap = Bitmap.empty from rfl,hbits] at hj
    simp at hj
  · rw [show new.bitmap = Bitmap.empty from rfl,hbits]
    rfl

theorem Sound.slot_ok (h : r.Sound) (hpos : 0 < r.bufferSize) (i : ℕ) :
    r.slot i = .ok (i % r.bufferSize) := by
  have hlt := Nat.mod_lt i hpos
  have hl := h.length_eq
  have hc := h.capacity_eq
  simp only [slot,windowIndex_ok hpos,bind,Except.bind]
  rw [if_pos (by omega)]

theorem Sound.drain (h : r.Sound) (hpos : 0 < r.bufferSize) (fuel i : ℕ) (data : List Byte)
    (hfuel : r.bitmap.bits.card ≤ fuel) :
    ∃ r' bytes, drain fuel r i data = .ok (r',data ++ bytes) ∧
      drainChecked fuel r i data = .ok (r',data ++ bytes) ∧ r'.Sound ∧
      r'.firstUnassembledGlobalIndex = r.firstUnassembledGlobalIndex + bytes.length := by
  induction fuel generalizing r i data with
  | zero =>
    have hempty : r.bitmap.bits = ∅ := Finset.card_eq_zero.mp (by omega)
    refine ⟨r,[],?_,?_,h,rfl⟩
    · simp [Reassembler.drain,windowIndex_ok hpos,h.get_ok hpos,hempty,bind,Except.bind]
    · simp [drainChecked,h.slot_ok hpos,h.get_ok hpos,hempty,bind,Except.bind]
  | succ fuel ih =>
    have hget := h.get_ok hpos i
    by_cases hbit : i % r.bufferSize ∈ r.bitmap.bits
    · have hmod := Nat.mod_lt i hpos
      obtain ⟨bitmap,hunset,hwf,hcap,hbits⟩ := Bitmap.unset_ok h.bitmap (i := i % r.bufferSize)
        (by rw [h.capacity_eq]; exact hmod)
      have hcard : bitmap.bits.card + 1 = r.bitmap.bits.card := by
        rw [hbits]
        exact Finset.card_erase_add_one hbit
      have hlen := h.length_eq
      have hbyte : r.slidingWindow[i % r.bufferSize]? = some r.slidingWindow[i % r.bufferSize] :=
        List.getElem?_eq_getElem (by omega)
      obtain ⟨hle,hsub,hsound⟩ := h.emptied hwf hcap (show 1 + bitmap.bits.card = _ by omega)
        (r.firstUnassembledGlobalIndex + 1)
      have hdown : countDown r.bytesPending 1 = .ok (r.bytesPending - 1) := if_pos hle
      obtain ⟨r',bytes,hrun,hchecked,hsound',hfirst⟩ := ih hsound hpos (i+1)
        (data ++ [r.slidingWindow[i % r.bufferSize]]) (by change bitmap.bits.card ≤ fuel; omega)
      refine ⟨r',r.slidingWindow[i % r.bufferSize]::bytes,?_,?_,hsound',?_⟩
      · rw [← List.append_cons] at hrun
        rw [← hrun]
        conv_lhs => unfold Reassembler.drain
        simp only [windowIndex_ok hpos,hget,hbit,hunset,hbyte,hsub,bind,Except.bind,
          decide_true,if_true]
      · rw [← List.append_cons] at hchecked
        rw [← hchecked]
        conv_lhs => unfold drainChecked
        simp only [h.slot_ok hpos,hget,hbit,hunset,hbyte,hdown,bind,Except.bind,decide_true,if_true]
      · rw [hfirst,List.length_cons]
        change r.firstUnassembledGlobalIndex + 1 + _ = _
        omega
    · refine ⟨r,[],?_,?_,h,rfl⟩
      · simp [Reassembler.drain,windowIndex_ok hpos,hget,hbit,bind,Except.bind]
      · simp [drainChecked,h.slot_ok hpos,hget,hbit,bind,Except.bind]

theorem Sound.store (h : r.Sound) (hpos : 0 < r.bufferSize) (data : List Byte) (i : ℕ) :
    ∃ r', store data i r = .ok r' ∧ storeChecked data i r = .ok r' ∧ r'.Sound ∧
      r'.firstUnassembledGlobalIndex = r.firstUnassembledGlobalIndex := by
  induction data generalizing i r with
  | nil => exact ⟨r,rfl,rfl,h,rfl⟩
  | cons c cs ih =>
    have hget := h.get_ok hpos i
    by_cases hbit : i % r.bufferSize ∈ r.bitmap.bits
    · obtain ⟨r',hrun,hchecked,hsound,hfirst⟩ := ih h hpos (i+1)
      refine ⟨r',?_,?_,hsound,hfirst⟩
      · rw [Reassembler.store]
        simp only [windowIndex_ok hpos,hget,hbit,bind,Except.bind,decide_true,if_true]
        exact hrun
      · rw [storeChecked]
        simp only [h.slot_ok hpos,hget,hbit,bind,Except.bind,decide_true,if_true]
        exact hchecked
    · have hmod := Nat.mod_lt i hpos
      obtain ⟨bitmap,hset,hwf,hcap,hbits⟩ := Bitmap.set_ok h.bitmap (i := i % r.bufferSize)
        (by rw [h.capacity_eq]; exact hmod)
      have hcard : bitmap.bits.card = r.bitmap.bits.card + 1 := by
        rw [hbits,Finset.card_insert_of_notMem hbit]
      have hlen := h.length_eq
      obtain ⟨hadd,hsound⟩ := h.filled hwf hcap hcard
        (show (r.slidingWindow.set (i % r.bufferSize) c).length = _ by simp)
      obtain ⟨r',hrun,hchecked,hsound',hfirst⟩ := ih hsound hpos (i+1)
      refine ⟨r',?_,?_,hsound',hfirst⟩
      · rw [Reassembler.store]
        simp only [windowIndex_ok hpos,hget,hbit,hset,hadd,bind,Except.bind,decide_false,
          Bool.false_eq_true,if_false]
        rw [if_pos (by omega)]
        exact hrun
      · rw [storeChecked]
        simp only [h.slot_ok hpos,hget,hbit,hset,bind,Except.bind,decide_false,Bool.false_eq_true,
          if_false]
        exact hchecked

/-- The end of what can be used lies inside of the data and of the window, or nothing can be used:
a sum that goes past 2^64 ends below the index that it started from. -/
theorem dataTailIndex_cases {firstIndex : ℕ} {data : List Byte} (hi : firstIndex < 2^64)
    (hlen : data.length < 2^64) (hav : output.availableCapacity < 2^64) :
    (r.dataTailIndex firstIndex data output ≤ firstIndex ∨
      r.dataTailIndex firstIndex data output ≤ r.firstUnassembledGlobalIndex) ∨
    r.dataTailIndex firstIndex data output = min (firstIndex + data.length)
      (r.firstUnassembledGlobalIndex + output.availableCapacity) := by
  simp only [dataTailIndex,u64]
  omega

/-- One pass between the preparation of the window and the scope guard. What is pushed is not more
than what the index moves on by. -/
theorem Sound.assemble (h : r.Sound) (hzero : r.bufferSize = 0 → output.availableCapacity = 0)
    (hav : output.availableCapacity < 2^64) {firstIndex : ℕ} {data : List Byte}
    (hi : firstIndex < 2^64) (hlen : data.length < 2^64) :
    ∃ r' bytes, r.assemble firstIndex data output = .ok (r',output.push bytes) ∧
      r.assembleChecked firstIndex data output = .ok (r',output.push bytes) ∧ r'.Sound ∧
      r.firstUnassembledGlobalIndex + min bytes.length output.availableCapacity ≤
        r'.firstUnassembledGlobalIndex := by
  have htail := dataTailIndex_cases (r := r) hi hlen hav
  simp only [Reassembler.assemble,assembleChecked]
  generalize r.dataTailIndex firstIndex data output = T at htail
  by_cases hdiscard : T ≤ firstIndex ∨ T ≤ r.firstUnassembledGlobalIndex
  · refine ⟨r,[],?_,?_,h,by simp⟩
    · rw [if_pos hdiscard,ByteStream.push_nil]
    · rw [if_pos hdiscard,ByteStream.push_nil]
  · have hT := htail.resolve_left hdiscard
    rw [if_neg hdiscard,if_neg hdiscard]
    have hpos : 0 < r.bufferSize := by
      by_contra hnone
      have := hzero (by omega)
      omega
    by_cases hpush : firstIndex ≤ r.firstUnassembledGlobalIndex
    · obtain ⟨cnt,bitmap,hbatch,hwf,hcap,hsum⟩ := Bitmap.batch_counts h.bitmap
        (s := r.firstUnassembledGlobalIndex % r.bufferSize)
        (e := u64 (T + r.bufferSize - 1) % r.bufferSize)
        (by rw [h.capacity_eq]; exact Nat.mod_lt _ hpos)
        (by rw [h.capacity_eq]; exact Nat.mod_lt _ hpos)
      obtain ⟨hle,hsub,hsound⟩ := h.emptied hwf hcap hsum T
      have hdown : countDown r.bytesPending cnt = .ok (r.bytesPending - cnt) := if_pos hle
      have hcard := hsound.card_le
      obtain ⟨r',bytes,hrun,hchecked,hsound',hfirst⟩ := hsound.drain hpos r.bufferSize T data (by
        change bitmap.bits.card ≤ r.bufferSize
        omega)
      change r'.firstUnassembledGlobalIndex = T + bytes.length at hfirst
      have hoffset : r.firstUnassembledGlobalIndex - firstIndex ≤ (data ++ bytes).length := by
        rw [List.length_append]
        omega
      refine ⟨r',(data ++ bytes).drop (r.firstUnassembledGlobalIndex - firstIndex),?_,?_,hsound',?_⟩
      · simp only [if_pos hpush,windowIndex_ok hpos,hbatch,hsub,hrun,if_pos hoffset,bind,
          Except.bind]
      · simp only [if_pos hpush,h.slot_ok hpos,hbatch,hdown,hchecked,if_pos hoffset,bind,Except.bind]
      · rw [List.length_drop,List.length_append,hfirst]
        omega
    · obtain ⟨r',hrun,hchecked,hsound,hfirst⟩ :=
        h.store hpos (data.take (T - firstIndex)) firstIndex
      refine ⟨r',[],?_,?_,hsound,by simp [hfirst]⟩
      · simp only [if_neg hpush,hrun,ByteStream.push_nil,bind,Except.bind]
      · rw [if_neg hpush,if_pos (by omega)]
        simp only [hchecked,ByteStream.push_nil,bind,Except.bind]

theorem Sound.withReachEnd (h : r.Sound) (b : Bool) : Sound { r with reachEnd := b } :=
  ⟨h.length_eq,h.capacity_eq,h.bitmap,h.pending_eq,h.size_lt⟩

/-- A window of no slots is made anew, and stays without slots only when there is no room. -/
theorem Sound.prepare (h : r.Sound) (hav : output.availableCapacity < 2^64) :
    (r.prepare output).Sound ∧
      ((r.prepare output).bufferSize = 0 → output.availableCapacity = 0) := by
  have hlen := h.length_eq
  unfold Reassembler.prepare
  split_ifs with hempty
  · rw [List.isEmpty_iff] at hempty
    have hcap := h.capacity_eq
    have hdata := h.bitmap.length_eq
    have hsize := h.bitmap.size_eq
    rw [hempty,List.length_nil] at hlen
    have hnone : r.bitmap.data = [] := List.length_eq_zero_iff.mp (by omega)
    have hresize : r.bitmap.resize output.availableCapacity =
        Bitmap.empty.resize output.availableCapacity := by
      simp [Bitmap.resize,Bitmap.empty,hnone]
    obtain ⟨hwf,hbits,hcapacity⟩ := Bitmap.resize_empty output.availableCapacity
    have hpend := h.pending_eq
    have hle := h.card_le
    refine ⟨⟨by simp,?_,?_,?_,hav⟩,fun hz => hz⟩
    · rw [hresize]
      exact hcapacity
    · rw [hresize]
      exact hwf
    · rw [hresize,hbits,Finset.card_empty]
      change r.bytesPending = 0
      omega
  · refine ⟨h,fun hz => ?_⟩
    rw [hz,List.length_eq_zero_iff] at hlen
    exact absurd (List.isEmpty_iff.mpr hlen) hempty

theorem Sound.insert (h : r.Sound) (hav : output.availableCapacity < 2^64) {firstIndex : ℕ}
    {data : List Byte} (hi : firstIndex < 2^64) (hlen : data.length < 2^64) (b : Bool) :
    ∃ r' bytes, r.insert firstIndex data b output = .ok (r',r'.closeOutput (output.push bytes)) ∧
      r.insertChecked firstIndex data b output = .ok (r',r'.closeOutput (output.push bytes)) ∧
      r'.Sound ∧ r.firstUnassembledGlobalIndex + min bytes.length output.availableCapacity ≤
        r'.firstUnassembledGlobalIndex := by
  obtain ⟨hsound,hzero⟩ := (h.withReachEnd (r.reachEnd || b)).prepare hav
  obtain ⟨r',bytes,hrun,hchecked,hsound',hfirst⟩ := hsound.assemble hzero hav hi hlen
  rw [prepare_firstUnassembledGlobalIndex] at hfirst
  refine ⟨r',bytes,?_,?_,hsound',hfirst⟩
  · simp only [Reassembler.insert,hrun,bind,Except.bind]
  · simp only [insertChecked,hchecked,bind,Except.bind]

theorem assemble_wraps {firstIndex : ℕ} {data : List Byte} (hi : firstIndex < 2^64)
    (hlen : data.length < 2^64) (hwrap : 2^64 ≤ firstIndex + data.length) :
    r.assemble firstIndex data output = .ok (r,output) := by
  have htail : r.dataTailIndex firstIndex data output ≤ firstIndex := by
    simp only [dataTailIndex,u64]
    omega
  simp only [assemble,if_pos (Or.inl htail)]

theorem assemble_nil {firstIndex : ℕ} : r.assemble firstIndex [] output = .ok (r,output) := by
  have htail : r.dataTailIndex firstIndex [] output ≤ firstIndex := by
    simp only [dataTailIndex,u64,List.length_nil]
    omega
  simp only [assemble,if_pos (Or.inl htail)]

@[simp] theorem closeOutput_bytesPushed (r : Reassembler) (output : ByteStream) :
    (r.closeOutput output).bytesPushed = output.bytesPushed := by
  unfold closeOutput
  split_ifs <;> rfl

@[simp] theorem closeOutput_capacity (r : Reassembler) (output : ByteStream) :
    (r.closeOutput output).capacity = output.capacity := by
  unfold closeOutput
  split_ifs <;> rfl

@[simp] theorem closeOutput_availableCapacity (r : Reassembler) (output : ByteStream) :
    (r.closeOutput output).availableCapacity = output.availableCapacity := by
  unfold closeOutput
  split_ifs <;> rfl

theorem closeOutput_wf (r : Reassembler) (h : output.WF) : (r.closeOutput output).WF := by
  unfold closeOutput
  split_ifs
  · exact ByteStream.close_wf h
  · exact h

end Reassembler

namespace ReassemblerRuns

open Library

variable {tr : Trace} {s s' : State} {op : Op} {out : List Byte}

def Representable : Op → Prop
  | .insert firstIndex data _ => firstIndex < 2^64 ∧ data.length < 2^64
  | .pop _ => True

def Wraps : Op → Prop
  | .insert firstIndex data _ => 2^64 ≤ firstIndex + data.length
  | .pop _ => False

def withoutData : Op → Op
  | .insert firstIndex _ isLastSubstring => .insert firstIndex [] isLastSubstring
  | .pop len => .pop len

instance (op : Op) : Decidable (Representable op) :=
  match op with
  | .insert _ _ _ | .pop _ => by unfold Representable; infer_instance

instance (op : Op) : Decidable (Wraps op) :=
  match op with
  | .insert _ _ _ | .pop _ => by unfold Wraps; infer_instance

def stepChecked (s : State) : Op → Except Fault (State × List Byte)
  | .insert firstIndex data isLastSubstring => do
    let (r,output) ← s.reassembler.insertChecked firstIndex data isLastSubstring s.output
    .ok (⟨r,output⟩,[])
  | .pop len => .ok (⟨s.reassembler,s.output.pop len⟩,s.output.peek.take len)

/-- What arbitrary calls keep. -/
structure Safe (s : State) : Prop where
  sound : s.reassembler.Sound
  stream : s.output.WF
  capacity_lt : s.output.capacity < 2^64

theorem Safe.available_lt (h : Safe s) : s.output.availableCapacity < 2^64 := by
  have hav := h.stream.available
  have hcap := h.capacity_lt
  omega

theorem Safe.step_ok (h : Safe s) (hop : Representable op) :
    ∃ s' out, step s op = .ok (s',out) ∧ stepChecked s op = .ok (s',out) ∧ Safe s' := by
  cases op with
  | insert firstIndex data b =>
    obtain ⟨r',bytes,hrun,hchecked,hsound,-⟩ := h.sound.insert h.available_lt hop.1 hop.2 b
    refine ⟨⟨r',r'.closeOutput (s.output.push bytes)⟩,[],?_,?_,hsound,?_,?_⟩
    · simp only [step,hrun,bind,Except.bind]
    · simp only [stepChecked,hchecked,bind,Except.bind]
    · exact r'.closeOutput_wf (ByteStream.push_wf h.stream bytes)
    · simpa using h.capacity_lt
  | pop len => exact ⟨_,_,rfl,rfl,h.sound,ByteStream.pop_wf h.stream len,h.capacity_lt⟩

theorem Safe.step (h : Safe s) (hop : Representable op) (hs : step s op = .ok (s',out)) :
    Safe s' := by
  obtain ⟨s₁,out₁,hs₁,-,hsafe⟩ := h.step_ok hop
  rw [hs₁] at hs
  cases hs
  exact hsafe

theorem step_wraps (hop : Representable op) (hwrap : Wraps op) :
    step s op = step s (withoutData op) := by
  cases op with
  | insert firstIndex data b =>
    simp only [withoutData,ReassemblerRuns.step,Reassembler.insert,
      Reassembler.assemble_wraps hop.1 hop.2 hwrap,Reassembler.assemble_nil]
  | pop len => rfl

/-- Whatever is inserted into whatever stream, the counter is the number of set bits and the window
has the size of the buffer; every further call succeeds with every index inside of the buffer and
no counter below zero; and data that wraps around is discarded. -/
theorem arbitrary_input_safe {output : ByteStream} (hstream : output.WF)
    (hcapacity : output.capacity < 2^64) (hr : Run ReassemblerRuns.step ⟨Reassembler.new,output⟩ tr s)
    (hops : ∀ e ∈ tr, Representable e.op) :
    s.reassembler.Sound ∧ ∀ op, Representable op →
      (∃ s' out, ReassemblerRuns.step s op = .ok (s',out) ∧ stepChecked s op = .ok (s',out)) ∧
      (Wraps op → ReassemblerRuns.step s op = ReassemblerRuns.step s (withoutData op)) := by
  have h : Safe s := Run.invariant Safe (fun e => Representable e.op)
    ⟨Reassembler.new_sound,hstream,hcapacity⟩ (fun hi hg hs => hi.step hg hs) hr hops
  refine ⟨h.sound,fun op hop => ⟨?_,step_wraps hop⟩⟩
  obtain ⟨s',out,hs,hchecked,-⟩ := h.step_ok hop
  exact ⟨s',out,hs,hchecked⟩

/-- The stream is full at the first insert and has two bytes of room at the second; later there is
more room than the window has slots, and the data contradicts what was held. -/
theorem arbitrary_input_safe_filled : ∃ tr s,
    Run ReassemblerRuns.step ⟨Reassembler.new,(ByteStream.new 4).push [1,2,3,4]⟩ tr s ∧
      s.reassembler.bufferSize = 2 ∧ s.output.peek = [7,8,9,6] ∧ s.reassembler.Sound := by
  obtain ⟨tr,s,hr,hsize,hpeek,hops⟩ := Run.exists_of_exec ReassemblerRuns.step
    ⟨Reassembler.new,(ByteStream.new 4).push [1,2,3,4]⟩
    [.insert 0 [5] false,.pop 2,.insert 1 [6] false,.pop 2,.insert 0 [7,8,9] false,
      .insert (2^64-1) [1,2] true]
    (fun tr s => s.reassembler.bufferSize = 2 ∧ s.output.peek = [7,8,9,6] ∧
      ∀ e ∈ tr, Representable e.op) (by decide +kernel)
  exact ⟨tr,s,hr,hsize,hpeek,
    (arbitrary_input_safe (ByteStream.push_wf (ByteStream.new_wf 4) _) (by decide) hr hops).1⟩

end ReassemblerRuns
end Minnow
