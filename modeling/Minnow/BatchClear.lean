import Minnow.Bitmap

/-! `getPopCountAndUnsetBatch` on every range and every content, against the loop over single bits
that it replaced. -/
namespace Minnow
namespace Bitmap

open Library

/-- The older loop of `Reassembler::insert`, over the elements from `i` on, going round. -/
def unsetEach (size : ℕ) : ℕ → ℕ → ℕ → Bitmap → Except Fault (ℕ × Bitmap)
  | 0, _, cnt, b => .ok (cnt,b)
  | rounds+1, i, cnt, b => do
    let windowIndex := i % size
    if ← b.get windowIndex then
      let b ← b.unset windowIndex
      unsetEach size rounds (i+1) (cnt+1) b
    else unsetEach size rounds (i+1) cnt b

/-- From `start` to `end`, both included. -/
def getPopCountAndUnsetEach (b : Bitmap) (startElementIndex endElementIndex : ℕ) :
    Except Fault (ℕ × Bitmap) :=
  let size := b.elementCapacity
  unsetEach size ((endElementIndex + size - startElementIndex) % size + 1) startElementIndex 0 b

/-- The call returns the number of set bits where `P` holds; it clears these and leaves every other
bit as it was. -/
def ClearsExactly (b : Bitmap) (P : ℕ → Prop) [DecidablePred P] (r : Except Fault (ℕ × Bitmap)) :
    Prop :=
  ∃ b', r = .ok (((Finset.range b.elementCapacity).filter fun i => b.get i = .ok true ∧ P i).card,b') ∧
    b'.elementCapacity = b.elementCapacity ∧
    ∀ i < b.elementCapacity, b'.get i = if P i then .ok false else b.get i

variable {b b' : Bitmap} {s e : ℕ} {r r' : Except Fault (ℕ × Bitmap)} {P Q : ℕ → Prop}

theorem Sized.eq_of_bits (h : b.Sized) (h' : b'.Sized)
    (hcap : b'.elementCapacity = b.elementCapacity) (hbits : b'.bits = b.bits) : b' = b := by
  have hsize : b'.arraySize = b.arraySize := by rw [h'.size_eq,h.size_eq,hcap]
  have hdata : b'.data = b.data := by
    apply List.ext_getElem
    · rw [h'.length_eq,h.length_eq,hsize]
    · intro k hk' hk
      apply BitVec.eq_of_getLsbD_eq
      intro i hi
      -- bit `i` of block `k` is element `32*k+i`
      have hdiv : (32*k + i) / 32 = k := by omega
      have hmod : (32*k + i) % 32 = i := by omega
      have hmem := Finset.ext_iff.mp hbits (32*k + i)
      simp only [bits,mem_bitsOf,hdiv,hmod,List.getElem?_eq_getElem hk,List.getElem?_eq_getElem hk',
        Option.some.injEq,exists_eq_left'] at hmem
      exact Bool.eq_iff_iff.mpr hmem
  cases b
  cases b'
  simp_all

theorem Cleared.count [DecidablePred P] (h : Cleared b P r) : ∃ b', r = .ok ((b.bits.filter P).card,b') ∧
    b'.Sized ∧ b'.elementCapacity = b.elementCapacity ∧
    b'.bits = b.bits.filter fun j => ¬ P j := by
  obtain ⟨cnt,b',hrun,hsized,hcap,hbits,hsum⟩ := h
  have hkept : b'.bits = b.bits.filter fun j => ¬ P j := by
    ext j
    rw [hbits,Finset.mem_filter]
  have hsplit := Finset.card_filter_add_card_filter_not (s := b.bits) P
  have hcnt : cnt = (b.bits.filter P).card := by
    rw [hkept] at hsum
    omega
  exact ⟨b',by rw [hrun,hcnt],hsized,hcap,hkept⟩

theorem Cleared.unique (h : Cleared b P r) (h' : Cleared b Q r') (hsame : ∀ j ∈ b.bits, P j ↔ Q j) :
    r = r' := by
  classical
  obtain ⟨c,hr,hc,hcap,hbits⟩ := h.count
  obtain ⟨c',hr',hc',hcap',hbits'⟩ := h'.count
  have hcleared : b.bits.filter P = b.bits.filter Q := Finset.filter_congr hsame
  have hkept : c.bits = c'.bits := by
    rw [hbits,hbits']
    exact Finset.filter_congr fun j hj => not_congr (hsame j hj)
  rw [hr,hr',hcleared,hc'.eq_of_bits hc (hcap.trans hcap'.symm) hkept]

theorem Cleared.clearsExactly_iff [DecidablePred P] (h : b.Sized) (hr : Cleared b Q r) :
    ClearsExactly b P r ↔ ∀ j ∈ b.bits, Q j ↔ j < b.elementCapacity ∧ P j := by
  classical
  obtain ⟨c,hr,hc,hcap,hbits⟩ := hr.count
  have hget : ∀ i < b.elementCapacity, (c.get i = if P i then .ok false else b.get i) ↔
      (i ∈ b.bits → (Q i ↔ P i)) := by
    intro i hi
    rw [hc.get_ok (hcap.symm ▸ hi),h.get_ok hi,hbits]
    by_cases hP : P i <;> by_cases hQ : Q i <;> simp [hP,hQ]
  have hfilter : ((Finset.range b.elementCapacity).filter fun i => b.get i = .ok true ∧ P i) =
      b.bits.filter fun j => j < b.elementCapacity ∧ P j := by
    ext i
    simp only [Finset.mem_filter,Finset.mem_range]
    constructor
    · rintro ⟨hi,hset,hP⟩
      rw [h.get_ok hi] at hset
      exact ⟨by simpa using hset,hi,hP⟩
    · rintro ⟨hset,hi,hP⟩
      exact ⟨hi,by rw [h.get_ok hi]; simpa using hset,hP⟩
  rw [ClearsExactly,hfilter]
  constructor
  · rintro ⟨c',hrun,-,hall⟩
    obtain ⟨hcard,rfl⟩ := Prod.mk.inj (Except.ok.inj (hr.symm.trans hrun))
    have hsub : (b.bits.filter fun j => j < b.elementCapacity ∧ P j) ⊆ b.bits.filter Q := by
      intro j hj
      obtain ⟨hset,hi,hP⟩ := Finset.mem_filter.mp hj
      exact Finset.mem_filter.mpr ⟨hset,((hget j hi).mp (hall j hi) hset).mpr hP⟩
    have heq := Finset.eq_of_subset_of_card_le hsub hcard.le
    intro j hj
    have hmem := Finset.ext_iff.mp heq j
    simpa [hj] using hmem.symm
  · intro hall
    refine ⟨c,?_,hcap,fun i hi => (hget i hi).mpr fun hset => ?_⟩
    · rw [hr,Finset.filter_congr hall]
    · rw [hall i hset]
      exact and_iff_right hi

theorem unsetEach_spec {n : ℕ} (hn : 0 < n) (rounds i cnt : ℕ) (h : b.Sized)
    (hcap : b.elementCapacity = n) : ∃ cnt' b', unsetEach n rounds i cnt b = .ok (cnt',b') ∧
      b'.Sized ∧ b'.elementCapacity = n ∧
      (∀ j, j ∈ b'.bits ↔ j ∈ b.bits ∧ ¬ ∃ d < rounds, (i + d) % n = j) ∧
      cnt' + b'.bits.card = cnt + b.bits.card := by
  induction rounds generalizing i cnt b with
  | zero => exact ⟨cnt,b,rfl,h,hcap,by simp,rfl⟩
  | succ rounds ih =>
    have hi : i % n < b.elementCapacity := hcap.symm ▸ Nat.mod_lt _ hn
    have hnext : ∀ j, (∃ d < rounds + 1, (i + d) % n = j) ↔
        i % n = j ∨ ∃ d < rounds, (i + 1 + d) % n = j := by
      intro j
      rw [Nat.exists_lt_succ_left]
      simp only [Nat.add_zero,Nat.add_assoc,Nat.add_comm 1]
    by_cases hset : i % n ∈ b.bits
    · obtain ⟨c,hunset,hsized,hcap',hbits⟩ := h.unset_ok hi
      obtain ⟨cnt',b',hrun,hsized',hcap'',hbits',hsum⟩ := ih (i + 1) (cnt + 1) hsized
        (hcap'.trans hcap)
      refine ⟨cnt',b',?_,hsized',hcap'',?_,?_⟩
      · simp only [unsetEach,h.get_ok hi,decide_eq_true hset,hunset,bind,Except.bind,if_true,hrun]
      · intro j
        rw [hbits',hbits,Finset.mem_erase,hnext,not_or,and_comm (a := j ≠ i % n),and_assoc,
          ne_comm]
      · have hpos := Finset.card_pos.mpr ⟨_,hset⟩
        rw [hsum,hbits,Finset.card_erase_of_mem hset]
        omega
    · obtain ⟨cnt',b',hrun,hsized,hcap',hbits,hsum⟩ := ih (i + 1) cnt h hcap
      refine ⟨cnt',b',?_,hsized,hcap',?_,hsum⟩
      · simp only [unsetEach,h.get_ok hi,decide_eq_false hset,bind,Except.bind,hrun]
        rfl
      · intro j
        rw [hbits,hnext,not_or]
        constructor
        · rintro ⟨hj,hrest⟩
          exact ⟨hj,fun heq => hset (heq ▸ hj),hrest⟩
        · rintro ⟨hj,-,hrest⟩
          exact ⟨hj,hrest⟩

theorem exists_round_iff {n : ℕ} (hs : s < n) (he : e < n) (j : ℕ) :
    (∃ d < (e + n - s) % n + 1, (s + d) % n = j) ↔ j < n ∧ OnArc s e j := by
  have hrounds : (e + n - s) % n = if s ≤ e then e - s else e + n - s := by
    split_ifs with hle
    · rw [show e + n - s = e - s + n by omega,Nat.add_mod_right,Nat.mod_eq_of_lt (by omega)]
    · exact Nat.mod_eq_of_lt (by omega)
  have hmod : ∀ d < n, (s + d) % n = if s + d < n then s + d else s + d - n := by
    intro d hd
    rw [mod_window hd,Nat.mod_eq_of_lt hs]
  rw [hrounds]
  constructor
  · rintro ⟨d,hd,rfl⟩
    have hdn : d < n := by
      split_ifs at hd <;> omega
    rw [hmod d hdn]
    unfold OnArc
    split_ifs at hd ⊢ <;> omega
  · rintro ⟨hj,harc⟩
    unfold OnArc at harc
    by_cases hle : s ≤ j
    · refine ⟨j - s,?_,?_⟩
      · split_ifs at harc ⊢ <;> omega
      · rw [hmod _ (by omega),if_pos (by omega)]
        omega
    · refine ⟨j + n - s,?_,?_⟩
      · split_ifs at harc ⊢ <;> omega
      · rw [hmod _ (by omega),if_neg (by omega)]
        omega

theorem each_cleared (h : b.Sized) (hs : s < b.elementCapacity) (he : e < b.elementCapacity) :
    Cleared b (fun j => j < b.elementCapacity ∧ OnArc s e j) (b.getPopCountAndUnsetEach s e) := by
  obtain ⟨cnt,b',hrun,hsized,hcap,hbits,hsum⟩ := unsetEach_spec (Nat.zero_lt_of_lt hs)
    ((e + b.elementCapacity - s) % b.elementCapacity + 1) s 0 h rfl
  refine ⟨cnt,b',hrun,hsized,hcap,?_,by omega⟩
  intro j
  rw [hbits,exists_round_iff hs he]

/-- What the batch call leaves behind where it ends: nothing is cleared in a range that wraps inside
one block, and the whole arc, blocks included that reach past the capacity, in every other one. -/
theorem batch_cleared (h : b.Sized) (hs : s < 32 * b.arraySize) (he : e < 32 * b.arraySize) :
    Cleared b (fun j => OnArc s e j ∧ ¬ WrapsInsideBlock s e) (b.getPopCountAndUnsetBatch s e) := by
  by_cases hw : WrapsInsideBlock s e
  · rw [batch_wrapsInsideBlock h hs hw]
    exact ⟨0,b,rfl,h,rfl,by simp [hw],by omega⟩
  · simpa [hw] using h.batch_spec hs he hw

/-- The range wraps inside one block with a bit set on it, or over several blocks while a bit is set
behind the last element. -/
def WrapsWrong (b : Bitmap) (s e : ℕ) : Prop :=
  e < s ∧ if s / 32 = e / 32 then ∃ i ∈ b.bits, i < b.elementCapacity ∧ OnArc s e i
    else ∃ i ∈ b.bits, b.elementCapacity ≤ i

instance (b : Bitmap) (s e : ℕ) : Decidable (WrapsWrong b s e) := by
  unfold WrapsWrong; infer_instance

theorem same_bits_iff (hs : s < b.elementCapacity) (he : e < b.elementCapacity) :
    (∀ j ∈ b.bits, OnArc s e j ∧ ¬ WrapsInsideBlock s e ↔ j < b.elementCapacity ∧ OnArc s e j) ↔
      ¬ WrapsWrong b s e := by
  unfold WrapsWrong WrapsInsideBlock
  by_cases hwrap : e < s
  · have hbehind : ∀ j, b.elementCapacity ≤ j → OnArc s e j := by
      intro j hj
      unfold OnArc
      split_ifs <;> omega
    by_cases hblock : s / 32 = e / 32
    · simp [hwrap,hblock]
    · simp only [hwrap,hblock,not_false_eq_true,and_true,true_and,if_false,not_exists,
        not_and,not_le]
      constructor
      · intro hall j hj
        by_contra hge
        exact hge ((hall j hj).mp (hbehind j (Nat.le_of_not_lt hge))).1
      · intro hall j hj
        exact (and_iff_right (hall j hj)).symm
  · have hinside : ∀ j, OnArc s e j → j < b.elementCapacity := by
      intro j hj
      rw [OnArc,if_pos (Nat.le_of_not_lt hwrap)] at hj
      omega
    simp only [hwrap,and_false,false_and,not_false_eq_true,and_true,iff_true]
    intro j hj
    exact ⟨fun harc => ⟨hinside j harc,harc⟩,And.right⟩

/-- The batch call clears a circular range exactly, and is the loop over its bits, if and only if the
range does not wrap wrong. -/
theorem batch_equals_loop_iff (h : b.Sized) (hs : s < b.elementCapacity) (he : e < b.elementCapacity) :
    (ClearsExactly b (OnArc s e) (b.getPopCountAndUnsetBatch s e) ∧
      b.getPopCountAndUnsetBatch s e = b.getPopCountAndUnsetEach s e) ↔ ¬ WrapsWrong b s e := by
  have hbatch := batch_cleared h (h.inside hs) (h.inside he)
  have heach := each_cleared h hs he
  rw [hbatch.clearsExactly_iff h,same_bits_iff hs he]
  refine and_iff_left_of_imp fun hright => ?_
  exact hbatch.unique heach ((same_bits_iff hs he).mpr hright)

theorem batch_equals_loop_iff_wrapped :
    let b : Bitmap := ⟨[0x18,0x1,0x21],70,3⟩
    ClearsExactly b (OnArc 65 3) (b.getPopCountAndUnsetBatch 65 3) ∧
      b.getPopCountAndUnsetBatch 65 3 = b.getPopCountAndUnsetEach 65 3 :=
  (batch_equals_loop_iff ⟨rfl,rfl⟩ (by decide) (by decide)).mpr (by decide +kernel)

/-- Round the bitmap inside of its first block: the loop clears bit 5, the batch call nothing. -/
theorem wrapped_block_not_cleared :
    let b : Bitmap := ⟨[0x20,0],64,2⟩
    b.getPopCountAndUnsetBatch 10 5 = .ok (0,b) ∧
      b.getPopCountAndUnsetEach 10 5 = .ok (1,⟨[0,0],64,2⟩) ∧
      ¬ ClearsExactly b (OnArc 10 5) (b.getPopCountAndUnsetBatch 10 5) := by
  have hbatch : (⟨[0x20,0],64,2⟩ : Bitmap).getPopCountAndUnsetBatch 10 5 = .ok (0,⟨[0x20,0],64,2⟩) := by
    decide +kernel
  refine ⟨hbatch,by decide +kernel,?_⟩
  rintro ⟨b',hrun,-,hall⟩
  obtain ⟨-,rfl⟩ := Prod.mk.inj (Except.ok.inj (hbatch.symm.trans hrun))
  exact absurd (hall 5 (by decide)) (by decide +kernel)

/-- An end behind the last block is never reached. -/
theorem clearBlocks_endless {n e : ℕ} (he : n ≤ e) (fuel i cnt : ℕ) (data : List (BitVec 32))
    (hlen : data.length = n) (hi : i < n) :
    clearBlocks n e fuel i cnt data = .error .nontermination := by
  induction fuel generalizing i cnt data with
  | zero => rw [clearBlocks,if_neg (by omega)]
  | succ fuel ih =>
    rw [clearBlocks,if_neg (by omega),List.getElem?_eq_getElem (by omega)]
    exact ih _ _ _ (by simpa using hlen) (Nat.mod_lt _ (by omega))

theorem batch_endless (h : b.Sized) (hs : s < b.elementCapacity) (he : 32 * b.arraySize ≤ e) :
    b.getPopCountAndUnsetBatch s e = .error .nontermination := by
  have hin := h.inside hs
  obtain ⟨first,hfirst⟩ := h.block hin
  have hloop := clearBlocks_endless (n := b.arraySize) (e := e / 32) (by omega) b.arraySize
    ((s / 32 + 1) % b.arraySize) (countOnes (first &&& startMask (s % 32)))
    (b.data.set (s / 32) (first &&& ~~~startMask (s % 32))) (by simpa using h.length_eq)
    (Nat.mod_lt _ (by omega))
  simp only [getPopCountAndUnsetBatch,hfirst,if_neg (show ¬ s / 32 = e / 32 by omega),
    if_neg (show ¬ b.arraySize = 0 by omega),hloop]

/-- The batch call clears a range that may run past the end exactly, if and only if it ends inside
of the last block and no bit is set between the last element and its end. -/
theorem batch_past_end_iff (h : b.Sized) (hs : s < b.elementCapacity) (hse : s ≤ e) :
    ClearsExactly b (fun i => s ≤ i ∧ i ≤ min e (b.elementCapacity - 1))
        (b.getPopCountAndUnsetBatch s e) ↔
      e < 32 * b.arraySize ∧ ∀ i ∈ b.bits, b.elementCapacity ≤ i → e < i := by
  by_cases he : e < 32 * b.arraySize
  · have hwrap : ¬ WrapsInsideBlock s e := fun hw => by
      have := hw.2
      omega
    have harc : ∀ j, OnArc s e j ↔ s ≤ j ∧ j ≤ e := fun j => by rw [OnArc,if_pos hse]
    rw [(h.batch_spec (h.inside hs) he hwrap).clearsExactly_iff h,and_iff_right he]
    simp only [harc]
    constructor
    · intro hall i hi hbehind
      have hiff := hall i hi
      omega
    · intro hall i hi
      have hbehind := hall i hi
      omega
  · rw [batch_endless h hs (Nat.le_of_not_lt he)]
    constructor
    · rintro ⟨b',hrun,-⟩
      cases hrun
    · exact fun hin => absurd hin.1 he

theorem batch_past_end_iff_last :
    let b : Bitmap := ⟨[0x18,0x1,0x21],70,3⟩
    ClearsExactly b (fun i => 40 ≤ i ∧ i ≤ min 95 (b.elementCapacity - 1))
      (b.getPopCountAndUnsetBatch 40 95) :=
  (batch_past_end_iff ⟨rfl,rfl⟩ (by decide) (by decide)).mpr (by decide +kernel)

/-- 64 elements of which 50 and 60 are set, and the range up to 70: however many rounds the loop
makes, it has not reached its end. -/
theorem past_end_endless :
    let b : Bitmap := ⟨[0,0x10040000],64,2⟩
    (∀ fuel, clearBlocks 2 (70 / 32) fuel ((50 / 32 + 1) % 2) 2 [0,0] =
      .error .nontermination) ∧
    b.getPopCountAndUnsetBatch 50 70 = .error .nontermination ∧
    ¬ ClearsExactly b (fun i => 50 ≤ i ∧ i ≤ min 70 (b.elementCapacity - 1))
      (b.getPopCountAndUnsetBatch 50 70) := by
  have hbatch : (⟨[0,0x10040000],64,2⟩ : Bitmap).getPopCountAndUnsetBatch 50 70 =
      .error .nontermination := batch_endless ⟨rfl,rfl⟩ (by decide) (by decide)
  refine ⟨fun fuel => clearBlocks_endless (by decide) fuel _ _ _ rfl (by decide),hbatch,?_⟩
  rintro ⟨b',hrun,-⟩
  rw [hbatch] at hrun
  cases hrun

end Bitmap
end Minnow
