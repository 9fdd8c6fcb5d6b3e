import Minnow.Library.Circle
import Minnow.Machine

/-! The bitmap: blocks of 32 bits. `getPopCountAndUnsetBatch` clears a circular range
block by block; its meaning is given here by the finite set of bits that are set. -/
namespace Minnow

open Library

/-- Number of set bits (`__builtin_popcount`). -/
def countOnes (num : BitVec 32) : ℕ := ((Finset.range 32).filter fun i => num.getLsbD i).card

structure Bitmap where
  data : List (BitVec 32)
  elementCapacity : ℕ
  arraySize : ℕ
  deriving DecidableEq, Repr

namespace Bitmap

def empty : Bitmap := ⟨[],0,0⟩

def resize (b : Bitmap) (elementCapacity : ℕ) : Bitmap :=
  let arraySize := (elementCapacity + 32 - 1) / 32
  ⟨b.data.take arraySize ++ List.replicate (arraySize - b.data.length) 0,elementCapacity,arraySize⟩

def set (b : Bitmap) (elementIndex : ℕ) : Except Fault Bitmap :=
  if elementIndex < b.elementCapacity then
    match b.data[elementIndex / 32]? with
    | some block =>
      .ok { b with data := b.data.set (elementIndex / 32) (block ||| (1#32 <<< (elementIndex % 32))) }
    | none => .error .outOfRange
  else .error .assertion

def unset (b : Bitmap) (elementIndex : ℕ) : Except Fault Bitmap :=
  if elementIndex < b.elementCapacity then
    match b.data[elementIndex / 32]? with
    | some block =>
      .ok { b with data := b.data.set (elementIndex / 32) (block &&& ~~~(1#32 <<< (elementIndex % 32))) }
    | none => .error .outOfRange
  else .error .assertion

def get (b : Bitmap) (elementIndex : ℕ) : Except Fault Bool :=
  if elementIndex < b.elementCapacity then
    match b.data[elementIndex / 32]? with
    | some block => .ok ((block >>> (elementIndex % 32)) &&& 1#32 != 0#32)
    | none => .error .outOfRange
  else .error .assertion

def startMask (startBitIndex : ℕ) : BitVec 32 := BitVec.allOnes 32 <<< startBitIndex

def endMask (endBitIndex : ℕ) : BitVec 32 := BitVec.allOnes 32 >>> (32 - 1 - endBitIndex)

/-- The loop over the blocks between the first and the last. It runs through the
blocks in a circle, so it ends within `arraySize` rounds or never. -/
def clearBlocks (arraySize endArrayIndex : ℕ) :
    ℕ → ℕ → ℕ → List (BitVec 32) → Except Fault (ℕ × List (BitVec 32))
  | fuel, i, popCount, data =>
    if i = endArrayIndex then .ok (popCount,data)
    else
      match fuel with
      | 0 => .error .nontermination
      | fuel+1 =>
        match data[i]? with
        | some block =>
          clearBlocks arraySize endArrayIndex fuel ((i+1) % arraySize)
            (popCount + countOnes block) (data.set i 0)
        | none => .error .outOfRange

def getPopCountAndUnsetBatch (b : Bitmap) (startElementIndex endElementIndex : ℕ) :
    Except Fault (ℕ × Bitmap) :=
  let startArrayIndex := startElementIndex / 32
  let startBitIndex := startElementIndex % 32
  let endArrayIndex := endElementIndex / 32
  let endBitIndex := endElementIndex % 32
  match b.data[startArrayIndex]? with
  | none => .error .outOfRange
  | some first =>
    if startArrayIndex = endArrayIndex then
      let mask := startMask startBitIndex &&& endMask endBitIndex
      .ok (countOnes (first &&& mask),
        { b with data := b.data.set startArrayIndex (first &&& ~~~mask) })
    else if b.arraySize = 0 then .error .arithmetic
    else
      match clearBlocks b.arraySize endArrayIndex b.arraySize ((startArrayIndex+1) % b.arraySize)
          (countOnes (first &&& startMask startBitIndex))
          (b.data.set startArrayIndex (first &&& ~~~startMask startBitIndex)) with
      | .error e => .error e
      | .ok (popCount,data) =>
        match data[endArrayIndex]? with
        | none => .error .outOfRange
        | some last =>
          .ok (popCount + countOnes (last &&& endMask endBitIndex),
            { b with data := data.set endArrayIndex (last &&& ~~~endMask endBitIndex) })

def bitsOf (data : List (BitVec 32)) : Finset ℕ :=
  (Finset.range (32 * data.length)).filter fun j => (data.getD (j / 32) 0).getLsbD (j % 32)

def bits (b : Bitmap) : Finset ℕ := bitsOf b.data

theorem mem_bitsOf {data : List (BitVec 32)} {j : ℕ} :
    j ∈ bitsOf data ↔ ∃ block, data[j / 32]? = some block ∧ block.getLsbD (j % 32) = true := by
  simp only [bitsOf,Finset.mem_filter,Finset.mem_range,List.getD_eq_getElem?_getD]
  constructor
  · rintro ⟨hj,hbit⟩
    have hlt : j / 32 < data.length := by omega
    rw [List.getElem?_eq_getElem hlt] at hbit ⊢
    exact ⟨_,rfl,hbit⟩
  · rintro ⟨block,hblock,hbit⟩
    obtain ⟨hlt,-⟩ := List.getElem?_eq_some_iff.mp hblock
    refine ⟨by omega,?_⟩
    simpa [hblock] using hbit

theorem mem_bitsOf_set {data : List (BitVec 32)} {k j : ℕ} {old new : BitVec 32}
    (hk : data[k]? = some old) :
    j ∈ bitsOf (data.set k new) ↔
      if j / 32 = k then new.getLsbD (j % 32) = true else j ∈ bitsOf data := by
  obtain ⟨hlt,-⟩ := List.getElem?_eq_some_iff.mp hk
  rw [mem_bitsOf,mem_bitsOf]
  by_cases h : j / 32 = k
  · subst h
    simp [hlt]
  · simp [h,Ne.symm h]

theorem block_lt_of_mem {data : List (BitVec 32)} {j : ℕ} (hj : j ∈ bitsOf data) :
    j / 32 < data.length := by
  obtain ⟨block,hblock,-⟩ := mem_bitsOf.mp hj
  exact (List.getElem?_eq_some_iff.mp hblock).1

theorem countOnes_and {data : List (BitVec 32)} {k : ℕ} {block : BitVec 32}
    (hk : data[k]? = some block) (mask : BitVec 32) : countOnes (block &&& mask) =
      ((bitsOf data).filter fun j => j / 32 = k ∧ mask.getLsbD (j % 32) = true).card := by
  -- bit `i` of the block is element `32*k+i`
  apply Finset.card_nbij' (fun i => 32*k + i) (fun j => j % 32)
  · intro i hi
    simp only [Finset.coe_filter,Finset.mem_range,BitVec.getLsbD_and,Bool.and_eq_true,
      Set.mem_ofPred_eq] at hi ⊢
    have hdiv : (32*k + i) / 32 = k := by omega
    have hmod : (32*k + i) % 32 = i := by omega
    rw [mem_bitsOf,hdiv,hmod]
    exact ⟨⟨block,hk,hi.2.1⟩,rfl,hi.2.2⟩
  · intro j hj
    simp only [Finset.coe_filter,Finset.mem_range,BitVec.getLsbD_and,Bool.and_eq_true,
      Set.mem_ofPred_eq] at hj ⊢
    obtain ⟨hbit,rfl,hmask⟩ := hj
    obtain ⟨block',hblock',hset⟩ := mem_bitsOf.mp hbit
    obtain rfl : block = block' := by simpa [hk] using hblock'
    exact ⟨Nat.mod_lt _ (by omega),hset,hmask⟩
  · intro i hi
    simp only [Finset.coe_filter,Finset.mem_range,Set.mem_ofPred_eq] at hi
    change (32*k + i) % 32 = i
    omega
  · intro j hj
    simp only [Finset.coe_filter,Set.mem_ofPred_eq] at hj
    change 32*k + j % 32 = j
    omega

theorem clear_spec {data : List (BitVec 32)} {k : ℕ} {block : BitVec 32}
    (hk : data[k]? = some block) (mask : BitVec 32) :
    (∀ j, j ∈ bitsOf (data.set k (block &&& ~~~mask)) ↔
      j ∈ bitsOf data ∧ ¬ (j / 32 = k ∧ mask.getLsbD (j % 32) = true)) ∧
    countOnes (block &&& mask) + (bitsOf (data.set k (block &&& ~~~mask))).card =
      (bitsOf data).card := by
  have hmem : ∀ j, j ∈ bitsOf (data.set k (block &&& ~~~mask)) ↔
      j ∈ bitsOf data ∧ ¬ (j / 32 = k ∧ mask.getLsbD (j % 32) = true) := by
    intro j
    rw [mem_bitsOf_set hk]
    by_cases h : j / 32 = k
    · subst h
      simp [mem_bitsOf,hk,Nat.mod_lt]
    · simp [h]
  refine ⟨hmem,?_⟩
  have hkept : bitsOf (data.set k (block &&& ~~~mask)) =
      (bitsOf data).filter fun j => ¬ (j / 32 = k ∧ mask.getLsbD (j % 32) = true) := by
    ext j
    simp only [hmem,Finset.mem_filter]
  rw [hkept,countOnes_and hk,Finset.card_filter_add_card_filter_not]

/-- What `resize` establishes and every other operation keeps. -/
structure WF (b : Bitmap) : Prop where
  length_eq : b.data.length = b.arraySize
  size_eq : b.arraySize = (b.elementCapacity + 32 - 1) / 32
  small : ∀ j ∈ b.bits, j < b.elementCapacity

/-- The right number of blocks, with any content: a `resize` to a smaller capacity can leave bits
behind that belong to no element. -/
structure Sized (b : Bitmap) : Prop where
  length_eq : b.data.length = b.arraySize
  size_eq : b.arraySize = (b.elementCapacity + 32 - 1) / 32

variable {b : Bitmap}

theorem WF.sized (h : b.WF) : b.Sized := ⟨h.length_eq,h.size_eq⟩

theorem Sized.block (h : b.Sized) {j : ℕ} (hj : j < 32 * b.arraySize) :
    ∃ block, b.data[j / 32]? = some block := by
  have hl := h.length_eq
  exact ⟨_,List.getElem?_eq_getElem (by omega)⟩

theorem Sized.inside (h : b.Sized) {j : ℕ} (hj : j < b.elementCapacity) : j < 32 * b.arraySize := by
  have hs := h.size_eq
  omega

theorem WF.block (h : b.WF) {j : ℕ} (hj : j < 32 * b.arraySize) :
    ∃ block, b.data[j / 32]? = some block := h.sized.block hj

theorem WF.inside (h : b.WF) {j : ℕ} (hj : j < b.elementCapacity) : j < 32 * b.arraySize :=
  h.sized.inside hj

theorem WF.card_le (h : b.WF) : b.bits.card ≤ b.elementCapacity := by
  have hsub : b.bits ⊆ Finset.range b.elementCapacity := by
    intro j hj
    exact Finset.mem_range.mpr (h.small j hj)
  exact (Finset.card_le_card hsub).trans (by simp)

theorem resize_empty (elementCapacity : ℕ) :
    (empty.resize elementCapacity).WF ∧ (empty.resize elementCapacity).bits = ∅ ∧
      (empty.resize elementCapacity).elementCapacity = elementCapacity := by
  have hbits : (empty.resize elementCapacity).bits = ∅ := by
    ext j
    simp [bits,mem_bitsOf,resize,empty,List.getElem?_replicate]
  refine ⟨⟨by simp [resize,empty],rfl,?_⟩,hbits,rfl⟩
  intro j hj
  simp [hbits] at hj

theorem Sized.get_ok (h : b.Sized) {i : ℕ} (hi : i < b.elementCapacity) :
    b.get i = .ok (decide (i ∈ b.bits)) := by
  obtain ⟨block,hblock⟩ := h.block (h.inside hi)
  have hbit : ((block >>> (i % 32)) &&& 1#32 != 0#32) = block.getLsbD (i % 32) := by
    cases hb : block.getLsbD (i % 32) with
    | true =>
      have h0 : ((block >>> (i % 32)) &&& 1#32).getLsbD 0 = true := by simp [hb]
      rw [bne_iff_ne]
      intro hz
      simp [hz] at h0
    | false =>
      rw [bne_eq_false_iff_eq]
      apply BitVec.eq_of_getLsbD_eq
      intro k hk
      by_cases hk0 : k = 0
      · simp [hk0,hb]
      · simp [hk0,BitVec.getLsbD_one]
  have hmem : i ∈ b.bits ↔ block.getLsbD (i % 32) = true := by
    rw [bits,mem_bitsOf]
    simp [hblock]
  simp only [get,hi,if_true,hblock,hbit]
  congr 1
  exact Bool.eq_iff_iff.mpr (by simp [hmem])

theorem get_ok (h : b.WF) {i : ℕ} (hi : i < b.elementCapacity) :
    b.get i = .ok (decide (i ∈ b.bits)) := h.sized.get_ok hi

theorem set_ok (h : b.WF) {i : ℕ} (hi : i < b.elementCapacity) :
    ∃ b', b.set i = .ok b' ∧ b'.WF ∧ b'.elementCapacity = b.elementCapacity ∧
      b'.bits = insert i b.bits := by
  obtain ⟨block,hblock⟩ := h.block (h.inside hi)
  have hbits : bitsOf (b.data.set (i / 32) (block ||| (1#32 <<< (i % 32)))) = insert i b.bits := by
    ext j
    rw [mem_bitsOf_set hblock,Finset.mem_insert,bits]
    by_cases hj : j / 32 = i / 32
    · have hsame : j = i ↔ j % 32 = i % 32 := by omega
      have hlt : j % 32 < 32 := Nat.mod_lt _ (by omega)
      rw [mem_bitsOf,hj,hblock,hsame]
      simp only [if_true,BitVec.getLsbD_or,BitVec.getLsbD_shiftLeft,BitVec.getLsbD_one,
        Bool.or_eq_true,Bool.and_eq_true,decide_eq_true_eq,Bool.not_eq_true',
        decide_eq_false_iff_not,Option.some.injEq,exists_eq_left']
      constructor
      · rintro (hold | hnew)
        · exact Or.inr hold
        · exact Or.inl (by omega)
      · rintro (hnew | hold)
        · exact Or.inr (by omega)
        · exact Or.inl hold
    · have hne : j ≠ i := by rintro rfl; exact hj rfl
      simp [hj,hne]
  refine ⟨{ b with data := b.data.set (i / 32) (block ||| (1#32 <<< (i % 32))) },
    by simp only [set,hi,if_true,hblock],⟨?_,h.size_eq,?_⟩,rfl,hbits⟩
  · simpa using h.length_eq
  · intro j hj
    change j ∈ bitsOf _ at hj
    rw [hbits,Finset.mem_insert] at hj
    rcases hj with rfl | hj
    · exact hi
    · exact h.small j hj

theorem Sized.unset_ok (h : b.Sized) {i : ℕ} (hi : i < b.elementCapacity) :
    ∃ b', b.unset i = .ok b' ∧ b'.Sized ∧ b'.elementCapacity = b.elementCapacity ∧
      b'.bits = b.bits.erase i := by
  obtain ⟨block,hblock⟩ := h.block (h.inside hi)
  have hbits : bitsOf (b.data.set (i / 32) (block &&& ~~~(1#32 <<< (i % 32)))) = b.bits.erase i := by
    ext j
    rw [(clear_spec hblock _).1,Finset.mem_erase,bits]
    have hlt : j % 32 < 32 := Nat.mod_lt _ (by omega)
    simp only [BitVec.getLsbD_shiftLeft,BitVec.getLsbD_one,Bool.and_eq_true,decide_eq_true_eq,
      Bool.not_eq_true',decide_eq_false_iff_not]
    constructor
    · rintro ⟨hj,hne⟩
      exact ⟨by rintro rfl; exact hne ⟨rfl,by omega⟩,hj⟩
    · rintro ⟨hne,hj⟩
      exact ⟨hj,by omega⟩
  refine ⟨{ b with data := b.data.set (i / 32) (block &&& ~~~(1#32 <<< (i % 32))) },
    by simp only [unset,hi,if_true,hblock],⟨?_,h.size_eq⟩,rfl,hbits⟩
  simpa using h.length_eq

theorem unset_ok (h : b.WF) {i : ℕ} (hi : i < b.elementCapacity) :
    ∃ b', b.unset i = .ok b' ∧ b'.WF ∧ b'.elementCapacity = b.elementCapacity ∧
      b'.bits = b.bits.erase i := by
  obtain ⟨b',hrun,hsized,hcap,hbits⟩ := h.sized.unset_ok hi
  refine ⟨b',hrun,⟨hsized.length_eq,hsized.size_eq,?_⟩,hcap,hbits⟩
  intro j hj
  rw [hbits] at hj
  rw [hcap]
  exact h.small j (Finset.mem_of_mem_erase hj)

theorem startMask_bit {k i : ℕ} (hi : i < 32) : (startMask k).getLsbD i = decide (k ≤ i) := by
  rw [startMask,BitVec.getLsbD_shiftLeft,BitVec.getLsbD_allOnes]
  by_cases h : k ≤ i
  · simp [hi,h]
    omega
  · simp [hi,h]

theorem endMask_bit {k i : ℕ} (hk : k < 32) :
    (endMask k).getLsbD i = decide (i ≤ k) := by
  rw [endMask,BitVec.getLsbD_ushiftRight,BitVec.getLsbD_allOnes]
  by_cases h : i ≤ k
  · simp [h]
    omega
  · simp [h]
    omega

/-- The loop clears the blocks on the half-open arc and counts what it clears. -/
theorem clearBlocks_spec {n e : ℕ} (he : e < n) (fuel i cnt : ℕ) (data : List (BitVec 32))
    (hlen : data.length = n) (hi : i < n) (hfuel : (if i ≤ e then e - i else e + n - i) ≤ fuel) :
    ∃ cnt' data', clearBlocks n e fuel i cnt data = .ok (cnt',data') ∧ data'.length = n ∧
      (∀ j, j ∈ bitsOf data' ↔ j ∈ bitsOf data ∧ ¬ OnHalfArc i e (j / 32)) ∧
      cnt' + (bitsOf data').card = cnt + (bitsOf data).card := by
  induction fuel generalizing i cnt data with
  | zero =>
    have hie : i = e := by split_ifs at hfuel <;> omega
    subst hie
    exact ⟨cnt,data,by simp [clearBlocks],hlen,by simp [not_onHalfArc_self],rfl⟩
  | succ fuel ih =>
    by_cases hie : i = e
    · subst hie
      exact ⟨cnt,data,by simp [clearBlocks],hlen,by simp [not_onHalfArc_self],rfl⟩
    · have hblock : data[i]? = some data[i] := List.getElem?_eq_getElem (by omega)
      -- zeroing a block is clearing it with a full mask
      have hclear := clear_spec hblock (BitVec.allOnes 32)
      have hzero : data[i] &&& ~~~BitVec.allOnes 32 = 0 := by simp
      have hfull : data[i] &&& BitVec.allOnes 32 = data[i] := BitVec.and_allOnes
      rw [hzero,hfull] at hclear
      obtain ⟨hmem,hcard⟩ := hclear
      obtain ⟨cnt',data',hrun,hlen',hbits,hsum⟩ := ih ((i+1) % n) (cnt + countOnes data[i])
        (data.set i 0) (by simpa using hlen) (Nat.mod_lt _ (by omega))
        (by rw [succ_slot hi]; split_ifs at hfuel ⊢ <;> omega)
      refine ⟨cnt',data',?_,hlen',?_,by omega⟩
      · simp only [clearBlocks,hie,if_false,hblock]
        exact hrun
      · intro j
        rw [hbits,hmem]
        have hlt : j % 32 < 32 := Nat.mod_lt _ (by omega)
        rw [and_assoc,BitVec.getLsbD_allOnes,decide_eq_true hlt,eq_self,and_true,← not_or]
        refine and_congr_right fun hj => ?_
        have hjn : j / 32 < n := hlen ▸ block_lt_of_mem hj
        rw [onHalfArc_step hi he hjn hie]

/-- Both ends in one block, the end before the start: the range runs once round the
bitmap, but the two masks have no bit in common. -/
def WrapsInsideBlock (startElementIndex endElementIndex : ℕ) : Prop :=
  startElementIndex / 32 = endElementIndex / 32 ∧ endElementIndex < startElementIndex

instance (s e : ℕ) : Decidable (WrapsInsideBlock s e) := by
  unfold WrapsInsideBlock; infer_instance

/-- A range that wraps inside one block is not cleared at all. -/
theorem batch_wrapsInsideBlock (h : b.Sized) {s e : ℕ} (hs : s < 32 * b.arraySize)
    (hw : WrapsInsideBlock s e) : b.getPopCountAndUnsetBatch s e = .ok (0,b) := by
  obtain ⟨block,hblock⟩ := h.block hs
  have hmask : startMask (s % 32) &&& endMask (e % 32) = 0 := by
    apply BitVec.eq_of_getLsbD_eq
    intro i hi
    rw [BitVec.getLsbD_and,startMask_bit hi,endMask_bit (Nat.mod_lt _ (by omega))]
    have hdiv := hw.1
    have hlt := hw.2
    simp
    omega
  have hsame : b.data.set (s / 32) block = b.data := by
    obtain ⟨hlt,rfl⟩ := List.getElem?_eq_some_iff.mp hblock
    exact List.set_getElem_self hlt
  have hkeep : block &&& ~~~(startMask (s % 32) &&& endMask (e % 32)) = block := by
    rw [hmask]
    exact BitVec.and_allOnes
  have hnone : countOnes (block &&& (startMask (s % 32) &&& endMask (e % 32))) = 0 := by
    rw [hmask]
    simp [countOnes]
  simp only [getPopCountAndUnsetBatch,hblock,if_pos hw.1,hkeep,hnone,hsame]

/-- What a call leaves behind: the arc is cleared, and the bits it held were counted. -/
def BatchCleared (b : Bitmap) (s e : ℕ) (r : Except Fault (ℕ × Bitmap)) : Prop :=
  ∃ cnt b', r = .ok (cnt,b') ∧ b'.WF ∧ b'.elementCapacity = b.elementCapacity ∧
    (∀ j, j ∈ b'.bits ↔ j ∈ b.bits ∧ ¬ OnArc s e j) ∧ cnt + b'.bits.card = b.bits.card

/-- The same for any content, and for the bits where `P` holds. -/
def Cleared (b : Bitmap) (P : ℕ → Prop) (r : Except Fault (ℕ × Bitmap)) : Prop :=
  ∃ cnt b', r = .ok (cnt,b') ∧ b'.Sized ∧ b'.elementCapacity = b.elementCapacity ∧
    (∀ j, j ∈ b'.bits ↔ j ∈ b.bits ∧ ¬ P j) ∧ cnt + b'.bits.card = b.bits.card

theorem Cleared.batchCleared {s e : ℕ} {r : Except Fault (ℕ × Bitmap)} (h : b.WF)
    (hr : Cleared b (OnArc s e) r) : BatchCleared b s e r := by
  obtain ⟨cnt,b',hrun,hsized,hcap,hbits,hsum⟩ := hr
  refine ⟨cnt,b',hrun,⟨hsized.length_eq,hsized.size_eq,?_⟩,hcap,hbits,hsum⟩
  intro j hj
  rw [hcap]
  exact h.small j ((hbits j).mp hj).1

theorem batch_sameBlock (h : b.Sized) {s e : ℕ} (hs : s < 32 * b.arraySize)
    (hsame : s / 32 = e / 32) (hse : s ≤ e) :
    Cleared b (OnArc s e) (b.getPopCountAndUnsetBatch s e) := by
  obtain ⟨first,hfirst⟩ := h.block hs
  have hlen := h.length_eq
  obtain ⟨hmem,hcard⟩ := clear_spec hfirst (startMask (s % 32) &&& endMask (e % 32))
  generalize hdata : b.data.set (s / 32)
    (first &&& ~~~(startMask (s % 32) &&& endMask (e % 32))) = data at hmem hcard
  have hbits : ∀ j, j ∈ bitsOf data ↔ j ∈ b.bits ∧ ¬ OnArc s e j := by
    intro j
    have hlt : j % 32 < 32 := Nat.mod_lt _ (by omega)
    rw [hmem,BitVec.getLsbD_and,startMask_bit hlt,endMask_bit (Nat.mod_lt _ (by omega))]
    have harc : OnArc s e j ↔ j / 32 = s / 32 ∧ s % 32 ≤ j % 32 ∧ j % 32 ≤ e % 32 := by
      unfold OnArc
      split_ifs
      omega
    simp only [Bool.and_eq_true,decide_eq_true_eq,harc,bits]
  refine ⟨_,{ b with data := data },?_,⟨?_,h.size_eq⟩,rfl,hbits,hcard⟩
  · simp only [getPopCountAndUnsetBatch,hfirst,if_pos hsame,hdata]
  · simpa [← hdata] using hlen

theorem batch_acrossBlocks (h : b.Sized) {s e : ℕ} (hs : s < 32 * b.arraySize)
    (he : e < 32 * b.arraySize) (hne : s / 32 ≠ e / 32) :
    Cleared b (OnArc s e) (b.getPopCountAndUnsetBatch s e) := by
  obtain ⟨first,hfirst⟩ := h.block hs
  have hlen := h.length_eq
  have hn : b.arraySize ≠ 0 := by omega
  obtain ⟨hmem₁,hcard₁⟩ := clear_spec hfirst (startMask (s % 32))
  obtain ⟨cnt,data₂,hloop,hlen₂,hmem₂,hcard₂⟩ := clearBlocks_spec (n := b.arraySize)
    (e := e / 32) (by omega) b.arraySize ((s / 32 + 1) % b.arraySize)
    (countOnes (first &&& startMask (s % 32)))
    (b.data.set (s / 32) (first &&& ~~~startMask (s % 32))) (by simpa using hlen)
    (Nat.mod_lt _ (by omega))
    (by
      have hr := Nat.mod_lt (s / 32 + 1) (show b.arraySize > 0 by omega)
      split_ifs <;> omega)
  have hlast : data₂[e / 32]? = some data₂[e / 32] := List.getElem?_eq_getElem (by omega)
  obtain ⟨hmem₃,hcard₃⟩ := clear_spec hlast (endMask (e % 32))
  generalize hdata : data₂.set (e / 32) (data₂[e / 32] &&& ~~~endMask (e % 32)) = data₃
    at hmem₃ hcard₃
  have harc : ∀ j, j / 32 < b.arraySize → (OnArc s e j ↔
      (j / 32 = s / 32 ∧ s % 32 ≤ j % 32) ∨
        OnHalfArc ((s / 32 + 1) % b.arraySize) (e / 32) (j / 32) ∨
        (j / 32 = e / 32 ∧ j % 32 ≤ e % 32)) := by
    intro j hj
    rw [succ_slot (by omega)]
    unfold OnArc OnHalfArc
    split_ifs <;> omega
  have hbits : ∀ j, j ∈ bitsOf data₃ ↔ j ∈ b.bits ∧ ¬ OnArc s e j := by
    intro j
    have hlt : j % 32 < 32 := Nat.mod_lt _ (by omega)
    rw [hmem₃,hmem₂,hmem₁,startMask_bit hlt,endMask_bit (Nat.mod_lt _ (by omega)),and_assoc,
      and_assoc,← not_or,← not_or]
    simp only [decide_eq_true_eq]
    refine and_congr_right fun hj => ?_
    rw [harc j (hlen ▸ block_lt_of_mem hj)]
  refine ⟨cnt + countOnes (data₂[e / 32] &&& endMask (e % 32)),{ b with data := data₃ },?_,
    ⟨?_,h.size_eq⟩,rfl,hbits,?_⟩
  · simp only [getPopCountAndUnsetBatch,hfirst,if_neg hne,if_neg hn,hloop,hlast,hdata]
  · simpa [← hdata] using hlen₂
  · change cnt + _ + (bitsOf data₃).card = (bitsOf b.data).card
    omega

theorem Sized.batch_spec (h : b.Sized) {s e : ℕ} (hs : s < 32 * b.arraySize)
    (he : e < 32 * b.arraySize) (hw : ¬ WrapsInsideBlock s e) :
    Cleared b (OnArc s e) (b.getPopCountAndUnsetBatch s e) := by
  by_cases hsame : s / 32 = e / 32
  · exact batch_sameBlock h hs hsame (by
      by_contra hlt
      exact hw ⟨hsame,by omega⟩)
  · exact batch_acrossBlocks h hs he hsame

theorem batch_spec (h : b.WF) {s e : ℕ} (hs : s < 32 * b.arraySize) (he : e < 32 * b.arraySize)
    (hw : ¬ WrapsInsideBlock s e) : BatchCleared b s e (b.getPopCountAndUnsetBatch s e) :=
  (h.sized.batch_spec hs he hw).batchCleared h

/-- Whatever the range is, every bit that a call clears was counted. -/
theorem batch_counts (h : b.WF) {s e : ℕ} (hs : s < b.elementCapacity) (he : e < b.elementCapacity) :
    ∃ cnt b', b.getPopCountAndUnsetBatch s e = .ok (cnt,b') ∧ b'.WF ∧
      b'.elementCapacity = b.elementCapacity ∧ cnt + b'.bits.card = b.bits.card := by
  by_cases hw : WrapsInsideBlock s e
  · exact ⟨0,b,batch_wrapsInsideBlock h.sized (h.inside hs) hw,h,rfl,by omega⟩
  · obtain ⟨cnt,b',hrun,hwf,hcap,-,hsum⟩ := batch_spec h (h.inside hs) (h.inside he) hw
    exact ⟨cnt,b',hrun,hwf,hcap,hsum⟩

end Bitmap
end Minnow
