import Minnow.Reassembler

/-! The reassembler against the growing set of indices it has received inside its
window: what is assembled is the prefix below the first gap, what is pending lies above. -/
namespace Minnow
namespace Reassembler

open Library

/-- What every call keeps: ring and bitmap have the size of the buffer, and the counter is the
number of set bits. -/
structure Sound (r : Reassembler) : Prop where
  length_eq : r.slidingWindow.length = r.bufferSize
  capacity_eq : r.bitmap.elementCapacity = r.bufferSize
  bitmap : r.bitmap.WF
  pending_eq : r.bytesPending = r.bitmap.bits.card
  size_lt : r.bufferSize < 2^64

variable {D : List Byte} {C k : ℕ} {S : Finset ℕ} {r : Reassembler}

theorem Sound.card_le (h : r.Sound) : r.bitmap.bits.card ≤ r.bufferSize := by
  rw [← h.capacity_eq]
  exact h.bitmap.card_le

theorem windowIndex_ok (hpos : 0 < r.bufferSize) (i : ℕ) : r.windowIndex i = .ok (i % r.bufferSize) := by
  rw [windowIndex,if_neg (by omega)]

theorem Sound.get_ok (h : r.Sound) (hpos : 0 < r.bufferSize) (i : ℕ) :
    r.bitmap.get (i % r.bufferSize) = .ok (decide (i % r.bufferSize ∈ r.bitmap.bits)) := by
  apply Bitmap.get_ok h.bitmap
  rw [h.capacity_eq]
  exact Nat.mod_lt _ hpos

theorem Sound.emptied (h : r.Sound) {bitmap : Bitmap} {cnt : ℕ} (hwf : bitmap.WF)
    (hcap : bitmap.elementCapacity = r.bitmap.elementCapacity)
    (hsum : cnt + bitmap.bits.card = r.bitmap.bits.card) (t : ℕ) :
    cnt ≤ r.bytesPending ∧ u64Sub r.bytesPending cnt = r.bytesPending - cnt ∧
      Sound { r with
        bytesPending := r.bytesPending - cnt
        bitmap := bitmap
        firstUnassembledGlobalIndex := t } := by
  have hpend := h.pending_eq
  have hle := h.card_le
  have hsize := h.size_lt
  have hcount : r.bytesPending - cnt = bitmap.bits.card := by omega
  exact ⟨by omega,u64Sub_of_le (by omega) (by omega),
    ⟨h.length_eq,hcap.trans h.capacity_eq,hwf,hcount,hsize⟩⟩

theorem Sound.filled (h : r.Sound) {bitmap : Bitmap} {ring : List Byte} (hwf : bitmap.WF)
    (hcap : bitmap.elementCapacity = r.bitmap.elementCapacity)
    (hcard : bitmap.bits.card = r.bitmap.bits.card + 1)
    (hlen : ring.length = r.slidingWindow.length) :
    u64 (r.bytesPending + 1) = r.bytesPending + 1 ∧
      Sound { r with
        bytesPending := r.bytesPending + 1
        bitmap := bitmap
        slidingWindow := ring } := by
  have hpend := h.pending_eq
  have hle := hwf.card_le
  have hcapacity := h.capacity_eq
  have hsize := h.size_lt
  have hcount : r.bytesPending + 1 = bitmap.bits.card := by omega
  exact ⟨u64_of_lt (by omega),⟨hlen.trans h.length_eq,hcap.trans hcapacity,hwf,hcount,hsize⟩⟩

/-- The ring holds exactly the indices of `S` in the window `[k,k+C)`, each with its byte
of `D`, and counts them. -/
structure Window (D : List Byte) (C k : ℕ) (S : Finset ℕ) (r : Reassembler) : Prop where
  size_eq : r.bufferSize = C
  length_eq : r.slidingWindow.length = C
  bitmap : r.bitmap.WF
  capacity_eq : r.bitmap.elementCapacity = C
  pending_eq : r.bytesPending = r.bitmap.bits.card
  bit : ∀ j, k ≤ j → j < k + C → (j % C ∈ r.bitmap.bits ↔ j ∈ S)
  byte : ∀ j ∈ S, k ≤ j → r.slidingWindow[j % C]? = D[j]?
  bound : ∀ j ∈ S, j < k + C

theorem Window.sound (h : Window D C k S r) (hC64 : C < 2^64) : r.Sound :=
  ⟨h.length_eq.trans h.size_eq.symm,h.capacity_eq.trans h.size_eq.symm,h.bitmap,h.pending_eq,
    h.size_eq.trans_lt hC64⟩

theorem Window.windowIndex_ok (h : Window D C k S r) (hC : 0 < C) (i : ℕ) :
    r.windowIndex i = .ok (i % C) := by
  obtain rfl := h.size_eq
  exact Reassembler.windowIndex_ok hC i

theorem Window.slot_lt (h : Window D C k S r) (hC : 0 < C) (j : ℕ) :
    j % C < r.bitmap.elementCapacity := by
  rw [h.capacity_eq]
  exact Nat.mod_lt _ hC

theorem Window.exists_held (h : Window D C k S r) {w : ℕ} (hw : w ∈ r.bitmap.bits) :
    ∃ j ∈ S, k ≤ j ∧ j < k + C ∧ j % C = w := by
  have hlt := h.bitmap.small w hw
  rw [h.capacity_eq] at hlt
  obtain ⟨j,hk,hj,rfl⟩ := window_surjective k hlt
  exact ⟨j,(h.bit j hk hj).mp hw,hk,hj,rfl⟩

theorem Window.get_ok (h : Window D C k S r) (hC : 0 < C) {j : ℕ} (hk : k ≤ j) (hj : j < k + C) :
    r.bitmap.get (j % C) = .ok (decide (j ∈ S)) := by
  rw [Bitmap.get_ok h.bitmap (h.slot_lt hC j)]
  congr 1
  exact Bool.eq_iff_iff.mpr (by simp [h.bit j hk hj])

/-- The bits that are set are the slots of the indices held. -/
theorem Window.card_bits (h : Window D C k S r) :
    r.bitmap.bits.card = (S.filter fun j => k ≤ j).card := by
  symm
  apply Finset.card_bij (fun j _ => j % C)
  · intro j hj
    obtain ⟨hS,hk⟩ := Finset.mem_filter.mp hj
    exact (h.bit j hk (h.bound j hS)).mpr hS
  · intro i hi j hj heq
    obtain ⟨hSi,hki⟩ := Finset.mem_filter.mp hi
    obtain ⟨hSj,hkj⟩ := Finset.mem_filter.mp hj
    exact window_injective hki (h.bound i hSi) hkj (h.bound j hSj) heq
  · intro w hw
    obtain ⟨j,hS,hk,-,rfl⟩ := h.exists_held hw
    exact ⟨j,Finset.mem_filter.mpr ⟨hS,hk⟩,rfl⟩

theorem Window.pending_le (h : Window D C k S r) : r.bytesPending ≤ C := by
  rw [h.pending_eq,← h.capacity_eq]
  exact h.bitmap.card_le

/-- Where the bits of the indices below `t` are cleared the window can start at `t`: a slot of a new
index was the slot of a cleared one. -/
theorem Window.moved (h : Window D C k S r) (hC64 : C < 2^64) {t cnt : ℕ} {bitmap : Bitmap}
    (hkt : k ≤ t) (ht : t ≤ k + C) (hwf : bitmap.WF)
    (hcap : bitmap.elementCapacity = r.bitmap.elementCapacity)
    (hbits : ∀ j, k ≤ j → j < k + C → (j % C ∈ bitmap.bits ↔ j % C ∈ r.bitmap.bits ∧ t ≤ j))
    (hsum : cnt + bitmap.bits.card = r.bitmap.bits.card) (first : ℕ) :
    Window D C t S
      { r with
        bytesPending := u64Sub r.bytesPending cnt
        bitmap := bitmap
        firstUnassembledGlobalIndex := first } := by
  obtain ⟨-,hsub,hsound⟩ := (h.sound hC64).emptied hwf hcap hsum first
  refine ⟨h.size_eq,h.length_eq,hwf,hcap.trans h.capacity_eq,?_,?_,?_,?_⟩
  · change u64Sub r.bytesPending cnt = bitmap.bits.card
    rw [hsub]
    exact hsound.pending_eq
  · intro j hj hjC
    change j % C ∈ bitmap.bits ↔ j ∈ S
    by_cases hold : j < k + C
    · rw [hbits j (by omega) hold,h.bit j (by omega) hold]
      exact and_iff_left hj
    · obtain ⟨i,rfl⟩ := Nat.exists_eq_add_of_le' (show C ≤ j by omega)
      have hout : i + C ∉ S := fun hS => by have := h.bound _ hS; omega
      have hbelow : ¬ t ≤ i := by omega
      rw [Nat.add_mod_right,hbits i (by omega) (by omega)]
      simp [hbelow,hout]
  · intro j hS hj
    exact h.byte j hS (by omega)
  · intro j hS
    have := h.bound j hS
    omega

theorem Window.advance (h : Window D C k S r) (hC : 0 < C) (hC64 : C < 2^64) (hk : k ∈ S) :
    ∃ bitmap, r.bitmap.unset (k % C) = .ok bitmap ∧
      Window D C (k+1) S
        { r with
          bytesPending := u64Sub r.bytesPending 1
          bitmap := bitmap
          firstUnassembledGlobalIndex := r.firstUnassembledGlobalIndex + 1 } ∧
      bitmap.bits.card + 1 = r.bitmap.bits.card := by
  have hset : k % C ∈ r.bitmap.bits := (h.bit k le_rfl (by omega)).mpr hk
  obtain ⟨bitmap,hunset,hwf,hcap,hbits⟩ := Bitmap.unset_ok h.bitmap (h.slot_lt hC k)
  have hcard : bitmap.bits.card + 1 = r.bitmap.bits.card := by
    rw [hbits]
    exact Finset.card_erase_add_one hset
  have hslot : ∀ j, k ≤ j → j < k + C → (j % C ≠ k % C ↔ k + 1 ≤ j) := by
    intro j hj hjC
    have hinj : j % C = k % C ↔ j = k :=
      ⟨window_injective hj hjC le_rfl (by omega),fun heq => heq ▸ rfl⟩
    rw [ne_eq,hinj]
    omega
  refine ⟨bitmap,hunset,h.moved hC64 (by omega) (by omega) hwf hcap ?_ (by omega) _,hcard⟩
  intro j hj hjC
  rw [hbits,Finset.mem_erase,hslot j hj hjC,and_comm]

/-- The drain moves the run of indices that starts at `k`, and stops at the first gap. -/
theorem drain_spec (hC : 0 < C) (hC64 : C < 2^64) (hD : ∀ j ∈ S, j < D.length) (fuel : ℕ)
    (h : Window D C k S r) (hfuel : r.bitmap.bits.card ≤ fuel)
    (hfirst : r.firstUnassembledGlobalIndex = k) (data : List Byte) :
    ∃ n r', drain fuel r k data = .ok (r',data ++ slice D k n) ∧ Window D C (k+n) S r' ∧
      r'.firstUnassembledGlobalIndex = k + n ∧ r'.reachEnd = r.reachEnd ∧
      (∀ j, k ≤ j → j < k + n → j ∈ S) ∧ k + n ∉ S := by
  induction fuel generalizing k r data with
  | zero =>
    have hempty : r.bitmap.bits = ∅ := Finset.card_eq_zero.mp (by omega)
    have hk : k ∉ S := by
      rw [← h.bit k le_rfl (by omega),hempty]
      simp
    refine ⟨0,r,?_,h,hfirst,rfl,by omega,hk⟩
    simp [drain,h.windowIndex_ok hC,h.get_ok hC le_rfl (show k < k + C by omega),hk,bind,Except.bind]
  | succ fuel ih =>
    by_cases hk : k ∈ S
    · obtain ⟨bitmap,hunset,hwin,hcard⟩ := h.advance hC hC64 hk
      have hkD := hD k hk
      have hbyte : r.slidingWindow[k % C]? = some D[k] := by
        rw [h.byte k hk le_rfl]
        exact List.getElem?_eq_getElem hkD
      obtain ⟨n,r',hrun,hwin',hfirst',hend,hall,hgap⟩ := ih hwin
        (by change bitmap.bits.card ≤ fuel; omega) (by change _ + 1 = _; omega) (data ++ [D[k]])
      have hstep : k + 1 + n = k + (n+1) := by omega
      have hbytes : slice D k (n+1) = [D[k]] ++ slice D (k+1) n := by
        rw [Nat.add_comm n 1,slice_add]
        simp [slice,List.take_one,List.head?_drop,List.getElem?_eq_getElem hkD]
      rw [hstep] at hwin' hfirst' hgap
      refine ⟨n+1,r',?_,hwin',hfirst',hend,?_,hgap⟩
      · rw [hbytes,← List.append_assoc,← hrun]
        conv_lhs => unfold drain
        simp only [h.windowIndex_ok hC,h.get_ok hC le_rfl (show k < k + C by omega),hk,hunset,
          hbyte,bind,Except.bind,decide_true,if_true]
      · intro j hj hjn
        by_cases heq : j = k
        · exact heq ▸ hk
        · exact hall j (by omega) (by omega)
    · refine ⟨0,r,?_,h,hfirst,rfl,by omega,hk⟩
      simp [drain,h.windowIndex_ok hC,h.get_ok hC le_rfl (show k < k + C by omega),hk,bind,Except.bind]

theorem Window.congr (h : Window D C k S r) {S' : Finset ℕ} (hmem : ∀ j, k ≤ j → (j ∈ S ↔ j ∈ S'))
    (hbound : ∀ j ∈ S', j < k + C) : Window D C k S' r :=
  { h with
    bit := fun j hk hj => (h.bit j hk hj).trans (hmem j hk)
    byte := fun j hS hk => h.byte j ((hmem j hk).mpr hS) hk
    bound := hbound }

theorem Window.put (h : Window D C k S r) (hC : 0 < C) (hC64 : C < 2^64) {j : ℕ} (hk : k ≤ j)
    (hj : j < k + C) (hjD : j < D.length) (hfree : j ∉ S) :
    ∃ bitmap, r.bitmap.set (j % C) = .ok bitmap ∧
      Window D C k (Insert.insert j S)
        { r with
          bytesPending := u64 (r.bytesPending + 1)
          bitmap := bitmap
          slidingWindow := r.slidingWindow.set (j % C) D[j] } := by
  have hmod : j % C < C := Nat.mod_lt _ hC
  obtain ⟨bitmap,hset,hwf,hcap,hbits⟩ := Bitmap.set_ok h.bitmap (h.slot_lt hC j)
  have hunset : j % C ∉ r.bitmap.bits := fun hb => hfree ((h.bit j hk hj).mp hb)
  have hcard : bitmap.bits.card = r.bitmap.bits.card + 1 := by
    rw [hbits,Finset.card_insert_of_notMem hunset]
  have hring : (r.slidingWindow.set (j % C) D[j]).length = r.slidingWindow.length := by simp
  obtain ⟨hadd,hsound⟩ := (h.sound hC64).filled hwf hcap hcard hring
  have hother : ∀ i, k ≤ i → i < k + C → i ≠ j → i % C ≠ j % C := by
    intro i hki hi hne heq
    exact hne (window_injective hki hi hk hj heq)
  refine ⟨bitmap,hset,⟨h.size_eq,?_,hwf,hcap.trans h.capacity_eq,?_,?_,?_,?_⟩⟩
  · exact hring.trans h.length_eq
  · change u64 (r.bytesPending + 1) = bitmap.bits.card
    rw [hadd]
    exact hsound.pending_eq
  · intro i hki hi
    change i % C ∈ bitmap.bits ↔ _
    rw [hbits,Finset.mem_insert,Finset.mem_insert,h.bit i hki hi]
    by_cases hij : i = j
    · simp [hij]
    · simp [hij,hother i hki hi hij]
  · intro i hi hki
    change (r.slidingWindow.set (j % C) D[j])[i % C]? = D[i]?
    rw [List.getElem?_set]
    rcases Finset.mem_insert.mp hi with rfl | hS
    · have hl := h.length_eq
      simp [hl,hmod,hjD]
    · have hne : i ≠ j := by rintro rfl; exact hfree hS
      rw [if_neg (Ne.symm (hother i hki (h.bound i hS) hne))]
      exact h.byte i hS hki
  · intro i hi
    rcases Finset.mem_insert.mp hi with rfl | hS
    · exact hj
    · exact h.bound i hS

theorem store_spec (hC : 0 < C) (hC64 : C < 2^64) (n j : ℕ) (h : Window D C k S r) (hk : k ≤ j)
    (hj : j + n ≤ k + C) (hjD : j + n ≤ D.length) :
    ∃ r', store (slice D j n) j r = .ok r' ∧ Window D C k (S ∪ Finset.Ico j (j+n)) r' ∧
      r'.firstUnassembledGlobalIndex = r.firstUnassembledGlobalIndex ∧
      r'.reachEnd = r.reachEnd := by
  induction n generalizing j S r with
  | zero => exact ⟨r,by simp [store],by simpa using h,rfl,rfl⟩
  | succ n ih =>
    have hlt : j < D.length := by omega
    have hbytes : slice D j (n+1) = D[j] :: slice D (j+1) n := by
      rw [Nat.add_comm n 1,slice_add]
      simp [slice,List.take_one,List.head?_drop,List.getElem?_eq_getElem hlt]
    have hsplit : Finset.Ico j (j+(n+1)) = Insert.insert j (Finset.Ico (j+1) (j+1+n)) := by
      ext x
      simp only [Finset.mem_Ico,Finset.mem_insert]
      omega
    by_cases hmem : j ∈ S
    · obtain ⟨r',hrun,hwin,hfirst,hend⟩ := ih (j+1) h (by omega) (by omega) (by omega)
      refine ⟨r',?_,?_,hfirst,hend⟩
      · rw [hbytes,store]
        simp only [h.windowIndex_ok hC,h.get_ok hC hk (show j < k + C by omega),hmem,bind,Except.bind,
          decide_true,if_true]
        exact hrun
      · rw [hsplit,Finset.union_insert,← Finset.insert_union,Finset.insert_eq_of_mem hmem]
        exact hwin
    · obtain ⟨bitmap,hset,hput⟩ := h.put hC hC64 hk (show j < k + C by omega) hlt hmem
      obtain ⟨r',hrun,hwin,hfirst,hend⟩ := ih (j+1) hput (by omega) (by omega) (by omega)
      refine ⟨r',?_,?_,hfirst,hend⟩
      · have hslot : j % C < r.slidingWindow.length := by
          rw [h.length_eq]
          exact Nat.mod_lt _ hC
        rw [hbytes,store]
        simp only [h.windowIndex_ok hC,h.get_ok hC hk (show j < k + C by omega),hmem,bind,Except.bind,
          decide_false,Bool.false_eq_true,if_false,hset,hslot,if_true]
        exact hrun
      · rw [hsplit,Finset.union_insert,← Finset.insert_union]
        exact hwin

/-- The invariant that ties the reassembler and its output to the set `S` of received indices. -/
structure Inv (D : List Byte) (C : ℕ) (S : Finset ℕ) (r : Reassembler) (output : ByteStream) :
    Prop where
  window : Window D C r.firstUnassembledGlobalIndex S r
  stream : output.WF
  capacity_eq : output.capacity = C
  pushed_eq : output.bytesPushed = r.firstUnassembledGlobalIndex
  content : output.peek = slice D output.bytesPopped output.bytesBuffered
  below : ∀ j < r.firstUnassembledGlobalIndex, j ∈ S
  gap : r.firstUnassembledGlobalIndex ∉ S
  inside : ∀ j ∈ S, j < D.length ∧ j < output.bytesPopped + C

variable {output : ByteStream}

theorem Inv.first_le (h : Inv D C S r output) : r.firstUnassembledGlobalIndex ≤ D.length := by
  by_contra hlt
  have hmem := h.below D.length (by omega)
  have := (h.inside _ hmem).1
  omega

theorem Inv.popped_eq (h : Inv D C S r output) :
    output.bytesPopped + output.bytesBuffered = r.firstUnassembledGlobalIndex ∧
      output.bytesBuffered ≤ C := by
  have hp := h.stream.pushed_eq
  have hq := h.pushed_eq
  have hf := h.stream.fits
  have hc := h.capacity_eq
  omega

theorem Inv.available (h : Inv D C S r output) :
    r.firstUnassembledGlobalIndex + output.availableCapacity = output.bytesPopped + C := by
  obtain ⟨hp,hle⟩ := h.popped_eq
  have ha := h.stream.available
  have hc := h.capacity_eq
  omega

def Holds (r : Reassembler) (j : ℕ) : Prop := j % r.bufferSize ∈ r.bitmap.bits

instance (r : Reassembler) (j : ℕ) : Decidable (r.Holds j) := by unfold Holds; infer_instance

/-- An insert that reaches the first unassembled index with a range that wraps inside one
block of the bitmap and already holds a byte: that byte's bit is not cleared. -/
def LeavesStaleBits (r : Reassembler) (firstIndex : ℕ) (data : List Byte) (output : ByteStream) :
    Prop :=
  firstIndex ≤ r.firstUnassembledGlobalIndex ∧
  Bitmap.WrapsInsideBlock (r.firstUnassembledGlobalIndex % r.bufferSize)
    ((r.dataTailIndex firstIndex data output - 1) % r.bufferSize) ∧
  ∃ j ∈ Finset.Ico r.firstUnassembledGlobalIndex (r.dataTailIndex firstIndex data output), r.Holds j

instance (r : Reassembler) (firstIndex : ℕ) (data : List Byte) (output : ByteStream) :
    Decidable (r.LeavesStaleBits firstIndex data output) := by
  unfold LeavesStaleBits; infer_instance

/-- The batch clear of `[k,t)` moves the window from `k` to `t`. -/
theorem Window.clear (h : Window D C k S r) (hC64 : C < 2^64) {t : ℕ} (hkt : k < t)
    (ht : t ≤ k + C)
    (hclean : ¬ (Bitmap.WrapsInsideBlock (k % C) ((t-1) % C) ∧ ∃ j ∈ Finset.Ico k t, r.Holds j)) :
    ∃ cnt bitmap, r.bitmap.getPopCountAndUnsetBatch (k % C) ((t-1) % C) = .ok (cnt,bitmap) ∧
      Window D C t S
        { r with
          bytesPending := u64Sub r.bytesPending cnt
          bitmap := bitmap
          firstUnassembledGlobalIndex := t } := by
  have hC : 0 < C := by omega
  have hin : ∀ i, i % C < 32 * r.bitmap.arraySize := fun i => h.bitmap.inside (h.slot_lt hC i)
  have hcleared : Bitmap.BatchCleared r.bitmap (k % C) ((t-1) % C)
      (r.bitmap.getPopCountAndUnsetBatch (k % C) ((t-1) % C)) := by
    by_cases hwrap : Bitmap.WrapsInsideBlock (k % C) ((t-1) % C)
    · -- nothing is cleared, and nothing was there to clear
      refine ⟨0,r.bitmap,Bitmap.batch_wrapsInsideBlock h.bitmap.sized (hin k) hwrap,h.bitmap,rfl,?_,by omega⟩
      intro w
      refine ⟨fun hw => ⟨hw,?_⟩,fun hw => hw.1⟩
      intro harc
      obtain ⟨j,-,hkj,hj,rfl⟩ := h.exists_held hw
      have hjt := (onArc_iff hkt ht hkj hj).mp harc
      apply hclean
      refine ⟨hwrap,j,Finset.mem_Ico.mpr ⟨hkj,hjt⟩,?_⟩
      rw [Holds,h.size_eq]
      exact hw
    · exact Bitmap.batch_spec h.bitmap (hin k) (hin _) hwrap
  obtain ⟨cnt,bitmap,hrun,hwf,hcap,hbits,hsum⟩ := hcleared
  refine ⟨cnt,bitmap,hrun,h.moved hC64 hkt.le ht hwf hcap ?_ hsum t⟩
  intro j hj hjC
  rw [hbits,onArc_iff hkt ht hj hjC,Nat.not_lt]

def delivered (firstIndex len limit : ℕ) : Finset ℕ :=
  (Finset.Ico firstIndex (firstIndex + len)).filter (· < limit)

theorem mem_delivered {firstIndex len limit j : ℕ} :
    j ∈ delivered firstIndex len limit ↔
      firstIndex ≤ j ∧ j < firstIndex + len ∧ j < limit := by
  simp [delivered]

theorem Inv.dataTailIndex_eq (h : Inv D C S r output) (hfit : D.length + C < 2^64) {i len : ℕ}
    (hi : i + len ≤ D.length) :
    r.dataTailIndex i (slice D i len) output = min (i + len) (output.bytesPopped + C) := by
  have hav := h.available
  have hp := h.popped_eq
  have hf := h.first_le
  rw [dataTailIndex,slice_length hi,u64_of_lt (by omega),u64_of_lt (by omega),hav]

theorem Inv.not_leavesStaleBits (h : Inv D C S r output) (hfit : D.length + C < 2^64) {i len : ℕ}
    (hi : i + len ≤ D.length)
    (hnone : i ≤ r.firstUnassembledGlobalIndex →
      ∀ j, r.firstUnassembledGlobalIndex ≤ j → j < i + len → j ∉ S) :
    ¬ r.LeavesStaleBits i (slice D i len) output := by
  rintro ⟨hle,-,j,hj,hh⟩
  have hp := h.popped_eq
  rw [Finset.mem_Ico,h.dataTailIndex_eq hfit hi] at hj
  apply hnone hle j hj.1 (by omega)
  rw [Holds,h.window.size_eq] at hh
  exact (h.window.bit j hj.1 (by omega)).mp hh

theorem pushed_bytes {i len f t n avail : ℕ} (hif : i ≤ f) (hft : f < t)
    (ht : t = min (i + len) (f + avail)) (hi : i + len ≤ D.length) (hn : t + n ≤ f + avail) :
    f - i ≤ (slice D i len ++ slice D t n).length ∧
      ((slice D i len ++ slice D t n).drop (f - i)).take avail = slice D f (t + n - f) := by
  have hlen : (slice D i len).length = len := slice_length hi
  refine ⟨by rw [List.length_append]; omega,?_⟩
  rw [List.drop_append_of_le_length (by omega),slice_drop,show i + (f - i) = f by omega]
  by_cases hfull : i + len ≤ f + avail
  · have hte : t = f + (len - (f - i)) := by omega
    have hsplit : t + n - f = (len - (f - i)) + n := by omega
    rw [hsplit,slice_add,← hte,List.take_of_length_le]
    have h₁ : (slice D f (len - (f - i))).length ≤ len - (f - i) := by simp [slice]
    have h₂ : (slice D t n).length ≤ n := by simp [slice]
    rw [List.length_append]
    omega
  · have hn0 : n = 0 := by omega
    subst n
    rw [slice_zero,List.append_nil,slice_take]
    congr 1
    omega

/-- The call succeeds, the received set is `S` then, and only the pushed bytes have changed
in the output. -/
def Absorbed (D : List Byte) (C : ℕ) (S : Finset ℕ) (r : Reassembler) (output : ByteStream)
    (result : Except Fault (Reassembler × ByteStream)) : Prop :=
  ∃ r' output', result = .ok (r',output') ∧ Inv D C S r' output' ∧ r'.reachEnd = r.reachEnd ∧
    output'.bytesPopped = output.bytesPopped ∧ output'.isClosed = output.isClosed

theorem Inv.inside_delivered (h : Inv D C S r output) {i len : ℕ} (hi : i + len ≤ D.length) :
    ∀ j ∈ S ∪ delivered i len (output.bytesPopped + C),
      j < D.length ∧ j < output.bytesPopped + C := by
  intro j hj
  rcases Finset.mem_union.mp hj with hS | hN
  · exact h.inside j hS
  · have := mem_delivered.mp hN
    omega

/-- Nothing of the data lies in the window above the first unassembled index. -/
theorem Inv.assemble_discard (h : Inv D C S r output) (hfit : D.length + C < 2^64) {i len : ℕ}
    (hi : i + len ≤ D.length)
    (hdiscard : min (i + len) (output.bytesPopped + C) ≤ i ∨
      min (i + len) (output.bytesPopped + C) ≤ r.firstUnassembledGlobalIndex) :
    Absorbed D C (S ∪ delivered i len (output.bytesPopped + C)) r output
      (r.assemble i (slice D i len) output) := by
  have hsame : S ∪ delivered i len (output.bytesPopped + C) = S := by
    apply Finset.union_eq_left.mpr
    intro j hj
    have := mem_delivered.mp hj
    exact h.below j (by omega)
  refine ⟨r,output,?_,?_,rfl,rfl,rfl⟩
  · simp only [assemble,h.dataTailIndex_eq hfit hi,if_pos hdiscard]
  · rw [hsame]
    exact h

theorem Inv.push (h : Inv D C S r output) {S' : Finset ℕ} {r' : Reassembler} {k : ℕ}
    {bytes : List Byte} (hfk : r.firstUnassembledGlobalIndex ≤ k) (hkD : k ≤ D.length)
    (hbytes : bytes.take output.availableCapacity =
      slice D r.firstUnassembledGlobalIndex (k - r.firstUnassembledGlobalIndex))
    (hwin : Window D C k S' r') (hfirst : r'.firstUnassembledGlobalIndex = k)
    (hbelow : ∀ j < k, j ∈ S') (hgap : k ∉ S')
    (hinside : ∀ j ∈ S', j < D.length ∧ j < output.bytesPopped + C) :
    Inv D C S' r' (output.push bytes) := by
  obtain ⟨hpop,-⟩ := h.popped_eq
  have hwf := ByteStream.push_wf h.stream bytes
  have hcount : min bytes.length output.availableCapacity = k - r.firstUnassembledGlobalIndex := by
    have hl := congrArg List.length hbytes
    rw [List.length_take,slice_length (by omega)] at hl
    omega
  have hpushed : (output.push bytes).bytesPushed = k := by
    rw [ByteStream.push_bytesPushed,h.pushed_eq,hcount]
    omega
  have hbuffered : (output.push bytes).bytesBuffered =
      output.bytesBuffered + (k - r.firstUnassembledGlobalIndex) := by
    have := hwf.pushed_eq
    rw [hpushed,ByteStream.push_bytesPopped] at this
    omega
  subst hfirst
  refine ⟨hwin,hwf,h.capacity_eq,hpushed,?_,hbelow,hgap,hinside⟩
  rw [ByteStream.push_peek h.stream,hbytes,h.content,hbuffered,ByteStream.push_bytesPopped,slice_add,
    hpop]

/-- The data reaches the first unassembled index: it goes to the output, and what was held right
behind it too. -/
theorem Inv.assemble_push (hC : 0 < C) (hfit : D.length + C < 2^64) (h : Inv D C S r output)
    {i len : ℕ} (hi : i + len ≤ D.length)
    (hclean : ¬ r.LeavesStaleBits i (slice D i len) output)
    (hnew : r.firstUnassembledGlobalIndex < min (i + len) (output.bytesPopped + C))
    (hpush : i ≤ r.firstUnassembledGlobalIndex) :
    Absorbed D C (S ∪ delivered i len (output.bytesPopped + C)) r output
      (r.assemble i (slice D i len) output) := by
  have hav := h.available
  have htail := h.dataTailIndex_eq hfit hi
  have hsize := h.window.size_eq
  have hmem : ∀ j, j ∈ delivered i len (output.bytesPopped + C) ↔
      i ≤ j ∧ j < min (i + len) (output.bytesPopped + C) := by
    intro j
    rw [mem_delivered]
    omega
  obtain ⟨hpop,hbuf⟩ := h.popped_eq
  generalize hT : min (i + len) (output.bytesPopped + C) = T at htail hmem hnew
  obtain ⟨cnt,bitmap,hbatch,hclear⟩ := h.window.clear (by omega) hnew (by omega) (by
    rintro ⟨hwrap,j,hj,hh⟩
    apply hclean
    refine ⟨hpush,?_,j,?_,hh⟩
    · rw [htail,hsize]
      exact hwrap
    · rw [htail]
      exact hj)
  obtain ⟨n,r',hdrain,hwin,hfirst,hend,hrun,hgap⟩ := drain_spec hC (by omega)
    (fun j hj => (h.inside j hj).1) C hclear
    (by
      rw [← hclear.pending_eq]
      exact hclear.pending_le) rfl (slice D i len)
  rw [hsize] at hdrain
  have hTn : T + n ≤ D.length ∧ T + n ≤ output.bytesPopped + C := by
    by_cases hn : n = 0
    · omega
    · have := h.inside _ (hrun (T + n - 1) (by omega) (by omega))
      omega
  obtain ⟨hstart,hbytes⟩ := pushed_bytes (D := D) hpush hnew (by omega) hi
    (show T + n ≤ r.firstUnassembledGlobalIndex + output.availableCapacity by omega)
  refine ⟨r',output.push ((slice D i len ++ slice D T n).drop (r.firstUnassembledGlobalIndex - i)),
    ?_,?_,hend,rfl,rfl⟩
  · have hmod : (T + C - 1) % C = (T - 1) % C := by
      rw [show T + C - 1 = T - 1 + C by omega,Nat.add_mod_right]
    have hnot : ¬ (T ≤ i ∨ T ≤ r.firstUnassembledGlobalIndex) := by omega
    simp only [assemble,htail,if_neg hnot,if_pos hpush,h.window.windowIndex_ok hC,hsize,
      u64_of_lt (show T + C - 1 < 2^64 by omega),hmod,hbatch,hdrain,if_pos hstart,bind,Except.bind]
  · refine h.push (by omega) hTn.1 hbytes ?_ hfirst ?_ ?_ (h.inside_delivered hi)
    · apply hwin.congr
      · intro j hj
        rw [Finset.mem_union,hmem]
        constructor
        · exact Or.inl
        · rintro (hS | hN)
          · exact hS
          · omega
      · intro j hj
        have := h.inside_delivered hi j hj
        omega
    · intro j hj
      rw [Finset.mem_union,hmem]
      by_cases h₁ : j < r.firstUnassembledGlobalIndex
      · exact Or.inl (h.below j h₁)
      · by_cases h₂ : j < T
        · exact Or.inr ⟨by omega,h₂⟩
        · exact Or.inl (hrun j (by omega) hj)
    · rw [Finset.mem_union,hmem]
      rintro (hS | hN)
      · exact hgap hS
      · omega

/-- The data starts above the first unassembled index: it is held. -/
theorem Inv.assemble_store (hC : 0 < C) (hfit : D.length + C < 2^64) (h : Inv D C S r output)
    {i len : ℕ} (hi : i + len ≤ D.length)
    (hnew : i < min (i + len) (output.bytesPopped + C))
    (hstore : r.firstUnassembledGlobalIndex < i) :
    Absorbed D C (S ∪ delivered i len (output.bytesPopped + C)) r output
      (r.assemble i (slice D i len) output) := by
  have htail := h.dataTailIndex_eq hfit hi
  obtain ⟨hpop,hbuf⟩ := h.popped_eq
  have hset : Finset.Ico i (i + (min (i + len) (output.bytesPopped + C) - i)) =
      delivered i len (output.bytesPopped + C) := by
    ext j
    rw [mem_delivered,Finset.mem_Ico]
    omega
  generalize hT : min (i + len) (output.bytesPopped + C) = T at htail hset hnew
  obtain ⟨r',hrun,hwin,hfirst,hend⟩ := store_spec hC (by omega) (T - i) i h.window (by omega)
    (by omega) (by omega)
  rw [hset] at hwin
  have htake : (slice D i len).take (T - i) = slice D i (T - i) := by
    rw [slice_take]
    congr 1
    omega
  refine ⟨r',output,?_,?_,hend,rfl,rfl⟩
  · have hnot : ¬ (T ≤ i ∨ T ≤ r.firstUnassembledGlobalIndex) := by omega
    simp only [assemble,htail,if_neg hnot,if_neg hstore.not_ge,htake,hrun,bind,Except.bind]
  · rw [← hfirst] at hwin
    refine ⟨hwin,h.stream,h.capacity_eq,?_,h.content,?_,?_,h.inside_delivered hi⟩
    · rw [hfirst,h.pushed_eq]
    · intro j hj
      exact Finset.mem_union_left _ (h.below j (hfirst ▸ hj))
    · rw [hfirst,Finset.mem_union,mem_delivered]
      rintro (hS | hN)
      · exact h.gap hS
      · omega

/-- Between the preparation of the window and the scope guard: the received set grows by
what was delivered inside the window. -/
theorem assemble_spec (hC : 0 < C) (hfit : D.length + C < 2^64) (h : Inv D C S r output)
    {i len : ℕ} (hi : i + len ≤ D.length)
    (hclean : ¬ r.LeavesStaleBits i (slice D i len) output) :
    ∃ r' output', r.assemble i (slice D i len) output = .ok (r',output') ∧
      Inv D C (S ∪ delivered i len (output.bytesPopped + C)) r' output' ∧
      r'.reachEnd = r.reachEnd ∧ output'.bytesPopped = output.bytesPopped ∧
      output'.isClosed = output.isClosed := by
  by_cases hdiscard : min (i + len) (output.bytesPopped + C) ≤ i ∨
      min (i + len) (output.bytesPopped + C) ≤ r.firstUnassembledGlobalIndex
  · exact h.assemble_discard hfit hi hdiscard
  · rw [not_or,Nat.not_le,Nat.not_le] at hdiscard
    by_cases hpush : i ≤ r.firstUnassembledGlobalIndex
    · exact h.assemble_push hC hfit hi hclean hdiscard.2 hpush
    · exact h.assemble_store hC hfit hi hdiscard.1 (Nat.lt_of_not_le hpush)

@[simp] theorem prepare_firstUnassembledGlobalIndex (r : Reassembler) (output : ByteStream) :
    (r.prepare output).firstUnassembledGlobalIndex = r.firstUnassembledGlobalIndex := by
  unfold prepare
  split <;> rfl

theorem prepare_withReachEnd (r : Reassembler) (output : ByteStream) (b : Bool) :
    ({ r with reachEnd := b } : Reassembler).prepare output =
      { r.prepare output with reachEnd := b } := by
  unfold prepare
  split <;> rfl

theorem Inv.withReachEnd (h : Inv D C S r output) (b : Bool) :
    Inv D C S { r with reachEnd := b } output :=
  { h with window := { h.window with } }

theorem Inv.prepare_eq (hC : 0 < C) (h : Inv D C S r output) : r.prepare output = r := by
  have hne : r.slidingWindow ≠ [] := by
    intro hnil
    have hl := h.window.length_eq
    simp [hnil] at hl
    omega
  simp [prepare,hne]

theorem prepare_new (D : List Byte) (C : ℕ) :
    Inv D C ∅ (new.prepare (ByteStream.new C)) (ByteStream.new C) := by
  obtain ⟨hwf,hbits,hcap⟩ := Bitmap.resize_empty C
  have hav : (ByteStream.new C).availableCapacity = C := rfl
  refine ⟨⟨?_,?_,?_,?_,?_,?_,by simp,by simp⟩,ByteStream.new_wf C,rfl,?_,?_,?_,by simp,by simp⟩
  · simp [prepare,new,hav]
  · simp [prepare,new,hav]
  · simpa [prepare,new,hav] using hwf
  · simpa [prepare,new,hav] using hcap
  · simp [prepare,new,hav,hbits]
  · intro j _ _
    simp [prepare,new,hav,hbits]
  · simp [ByteStream.new,new]
  · simp [ByteStream.new,ByteStream.bytesBuffered,ByteStream.Buffer.new,
      ByteStream.Buffer.bytesBuffered]
    rfl
  · simp [new]

/-- The invariant, or the state before the first insert. -/
def Tracks (D : List Byte) (C : ℕ) (S : Finset ℕ) (r : Reassembler) (output : ByteStream) : Prop :=
  Inv D C S r output ∨ r = new ∧ output = ByteStream.new C ∧ S = ∅

theorem Tracks.prepare (hC : 0 < C) (h : Tracks D C S r output) :
    Inv D C S (r.prepare output) output := by
  rcases h with h | ⟨rfl,rfl,rfl⟩
  · rw [h.prepare_eq hC]
    exact h
  · exact prepare_new D C

/-- One insert of a true substring: it never faults, the received set grows by what lies in
the window, and the guard closes the output when nothing is pending. -/
theorem insert_spec (hC : 0 < C) (hfit : D.length + C < 2^64) (h : Tracks D C S r output)
    {i len : ℕ} (hi : i + len ≤ D.length) (isLastSubstring : Bool)
    (hclean : ¬ (r.prepare output).LeavesStaleBits i (slice D i len) output) :
    ∃ r' output', r.insert i (slice D i len) isLastSubstring output = .ok (r',output') ∧
      Inv D C (S ∪ delivered i len (output.bytesPopped + C)) r' output' ∧
      r'.reachEnd = (r.reachEnd || isLastSubstring) ∧
      output'.bytesPopped = output.bytesPopped ∧
      output'.isClosed = (output.isClosed || (r'.reachEnd && r'.bytesPending == 0)) := by
  have hinv := (h.prepare hC).withReachEnd (r.reachEnd || isLastSubstring)
  obtain ⟨r',output',hrun,hinv',hend,hpop,hclosed⟩ := assemble_spec hC hfit hinv hi hclean
  refine ⟨r',r'.closeOutput output',?_,?_,hend,?_,?_⟩
  · simp only [insert,prepare_withReachEnd,hrun,bind,Except.bind]
  · unfold closeOutput
    split_ifs
    · exact { hinv' with stream := ByteStream.close_wf hinv'.stream }
    · exact hinv'
  · rw [← hpop]
    unfold closeOutput
    split_ifs <;> rfl
  · rw [← hclosed]
    unfold closeOutput
    split_ifs with hclose
    · simp [hclose]
    · rw [Bool.not_eq_true] at hclose
      simp [hclose]

theorem Inv.pop (h : Inv D C S r output) (len : ℕ) : Inv D C S r (output.pop len) := by
  have hwf := ByteStream.pop_wf h.stream len
  have hpushed := h.stream.pushed_eq
  have hpushed' := hwf.pushed_eq
  rw [ByteStream.pop_bytesPushed] at hpushed'
  have hpopped : (output.pop len).bytesPopped =
      output.bytesPopped + min len output.bytesBuffered := rfl
  refine ⟨h.window,hwf,h.capacity_eq,h.pushed_eq,ByteStream.pop_content h.stream h.content len,
    h.below,h.gap,?_⟩
  intro j hj
  have := h.inside j hj
  omega

theorem new_pop (C len : ℕ) : (ByteStream.new C).pop len = ByteStream.new C := by
  simp [ByteStream.pop,ByteStream.new,ByteStream.bytesBuffered,ByteStream.Buffer.pop,
    ByteStream.Buffer.new,ByteStream.Buffer.bytesBuffered]

theorem Tracks.pop (h : Tracks D C S r output) (len : ℕ) : Tracks D C S r (output.pop len) := by
  rcases h with h | ⟨rfl,rfl,rfl⟩
  · exact Or.inl (h.pop len)
  · exact Or.inr ⟨rfl,new_pop C len,rfl⟩

theorem Tracks.content (h : Tracks D C S r output) :
    output.peek = slice D output.bytesPopped output.bytesBuffered := by
  rcases h with h | ⟨-,rfl,-⟩
  · exact h.content
  · simp

theorem Tracks.stream (h : Tracks D C S r output) : output.WF := by
  rcases h with h | ⟨-,rfl,-⟩
  · exact h.stream
  · exact ByteStream.new_wf C

theorem Tracks.capacity_eq (h : Tracks D C S r output) : output.capacity = C := by
  rcases h with h | ⟨-,rfl,-⟩
  · exact h.capacity_eq
  · rfl

theorem Tracks.pushed_eq (h : Tracks D C S r output) :
    output.bytesPushed = r.firstUnassembledGlobalIndex := by
  rcases h with h | ⟨rfl,rfl,-⟩
  · exact h.pushed_eq
  · rfl

theorem Tracks.below (h : Tracks D C S r output) {j : ℕ}
    (hj : j < r.firstUnassembledGlobalIndex) : j ∈ S := by
  rcases h with h | ⟨rfl,-,-⟩
  · exact h.below j hj
  · simp [new] at hj

theorem Tracks.gap (h : Tracks D C S r output) : r.firstUnassembledGlobalIndex ∉ S := by
  rcases h with h | ⟨-,-,rfl⟩
  · exact h.gap
  · simp

theorem Tracks.first_le (h : Tracks D C S r output) : r.firstUnassembledGlobalIndex ≤ D.length := by
  rcases h with h | ⟨rfl,-,-⟩
  · exact h.first_le
  · exact Nat.zero_le _

theorem Tracks.kept (h : Tracks D C S r output) {j : ℕ} (hj : j ∈ S) :
    j < r.firstUnassembledGlobalIndex ∨
      r.Holds j ∧ r.slidingWindow[j % r.bufferSize]? = D[j]? := by
  rcases h with h | ⟨-,-,rfl⟩
  · by_cases hlt : j < r.firstUnassembledGlobalIndex
    · exact Or.inl hlt
    · have hle : r.firstUnassembledGlobalIndex ≤ j := by omega
      rw [Holds,h.window.size_eq]
      exact Or.inr ⟨(h.window.bit j hle (h.window.bound j hj)).mpr hj,h.window.byte j hj hle⟩
  · simp at hj

theorem Tracks.holds_iff (h : Tracks D C S r output) {j : ℕ}
    (hlo : r.firstUnassembledGlobalIndex ≤ j) (hhi : j < output.bytesPopped + C) :
    r.Holds j ↔ j ∈ S := by
  rcases h with h | ⟨rfl,-,rfl⟩
  · have hp := h.popped_eq
    rw [Holds,h.window.size_eq]
    exact h.window.bit j hlo (by omega)
  · simp [Holds,new,Bitmap.bits,Bitmap.bitsOf,Bitmap.empty]

theorem Tracks.pending_eq (h : Tracks D C S r output) :
    r.bytesPending = (S.filter fun j => r.firstUnassembledGlobalIndex < j).card := by
  rcases h with h | ⟨rfl,rfl,rfl⟩
  · rw [h.window.pending_eq,h.window.card_bits]
    congr 1
    ext j
    simp only [Finset.mem_filter]
    constructor
    · rintro ⟨hS,hle⟩
      refine ⟨hS,?_⟩
      rcases Nat.eq_or_lt_of_le hle with heq | hlt
      · exact absurd (heq ▸ hS) h.gap
      · exact hlt
    · rintro ⟨hS,hlt⟩
      exact ⟨hS,by omega⟩
  · rw [Finset.filter_empty]
    rfl

theorem Tracks.mem_iff_of_idle (h : Tracks D C S r output) (hidle : r.bytesPending = 0) {j : ℕ} :
    j ∈ S ↔ j < r.firstUnassembledGlobalIndex := by
  have hnone := h.pending_eq
  rw [hidle,eq_comm,Finset.card_eq_zero,Finset.filter_eq_empty_iff] at hnone
  constructor
  · intro hj
    have hne : j ≠ r.firstUnassembledGlobalIndex := fun heq => h.gap (heq ▸ hj)
    have := hnone hj
    omega
  · exact h.below

/-- The more has been received, the more has been assembled. -/
theorem Tracks.first_mono (h : Tracks D C S r output) {S' : Finset ℕ} {r' : Reassembler}
    {output' : ByteStream} (h' : Tracks D C S' r' output') (hsub : S ⊆ S') :
    r.firstUnassembledGlobalIndex ≤ r'.firstUnassembledGlobalIndex := by
  by_contra hlt
  exact h'.gap (hsub (h.below (Nat.lt_of_not_le hlt)))

theorem Tracks.fits (h : Tracks D C S r output) : output.bytesBuffered + r.bytesPending ≤ C := by
  rw [h.pending_eq]
  rcases h with h | ⟨rfl,rfl,rfl⟩
  · obtain ⟨hpop,hbuf⟩ := h.popped_eq
    have hsub : (S.filter fun j => r.firstUnassembledGlobalIndex < j) ⊆
        Finset.Ico r.firstUnassembledGlobalIndex (output.bytesPopped + C) := by
      intro j hj
      obtain ⟨hS,hlt⟩ := Finset.mem_filter.mp hj
      have := (h.inside j hS).2
      exact Finset.mem_Ico.mpr ⟨by omega,this⟩
    have hcard := Finset.card_le_card hsub
    rw [Nat.card_Ico] at hcard
    omega
  · simp

theorem Tracks.pending_zero (h : Tracks D C S r output)
    (hall : r.firstUnassembledGlobalIndex = D.length) : r.bytesPending = 0 := by
  rw [h.pending_eq,Finset.card_eq_zero,Finset.filter_eq_empty_iff]
  intro j hj hlt
  rcases h with h | ⟨rfl,rfl,rfl⟩
  · have := (h.inside j hj).1
    omega
  · simp at hj

end Reassembler
end Minnow
