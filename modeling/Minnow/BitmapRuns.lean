import Minnow.Library.Run
import Minnow.BatchClear

/-! The bitmap of blocks against the bitmap with an entry for every element. -/
namespace Minnow

open Library

structure BitmapNaive where
  data : List Int8
  deriving DecidableEq

namespace BitmapNaive

def new (elementCapacity : ℕ) : BitmapNaive := ⟨List.replicate elementCapacity 0⟩

def set (q : BitmapNaive) (elementIndex : ℕ) : Except Fault BitmapNaive :=
  if elementIndex < q.data.length then .ok ⟨q.data.set elementIndex 1⟩ else .error .assertion

def unset (q : BitmapNaive) (elementIndex : ℕ) : Except Fault BitmapNaive :=
  if elementIndex < q.data.length then .ok ⟨q.data.set elementIndex 0⟩ else .error .assertion

def get (q : BitmapNaive) (elementIndex : ℕ) : Except Fault Bool :=
  if elementIndex < q.data.length then .ok (q.data.getD elementIndex 0 != 0) else .error .assertion

def unsetEach (size : ℕ) : ℕ → ℕ → ℕ → BitmapNaive → Except Fault (ℕ × BitmapNaive)
  | 0, _, cnt, q => .ok (cnt,q)
  | rounds+1, i, cnt, q => do
    let windowIndex := i % size
    if ← q.get windowIndex then
      let q ← q.unset windowIndex
      unsetEach size rounds (i+1) (cnt+1) q
    else unsetEach size rounds (i+1) cnt q

end BitmapNaive

inductive BitmapOp
  | set (elementIndex : ℕ)
  | unset (elementIndex : ℕ)
  | get (elementIndex : ℕ)
  | clear (startElementIndex endElementIndex : ℕ)
  deriving DecidableEq, Repr

inductive BitmapOut
  | done
  | bit (b : Bool)
  | count (n : ℕ)
  deriving DecidableEq, Repr

namespace Bitmap

/-- `clear` is `getPopCountAndUnsetBatch`. -/
def step (b : Bitmap) : BitmapOp → Except Fault (Bitmap × BitmapOut)
  | .set i => (b.set i).map fun b => (b,.done)
  | .unset i => (b.unset i).map fun b => (b,.done)
  | .get i => (b.get i).map fun v => (b,.bit v)
  | .clear s e => (b.getPopCountAndUnsetBatch s e).map fun r => (r.2,.count r.1)

end Bitmap

namespace BitmapNaive

/-- `clear` goes through the elements of the range. -/
def step (q : BitmapNaive) : BitmapOp → Except Fault (BitmapNaive × BitmapOut)
  | .set i => (q.set i).map fun q => (q,.done)
  | .unset i => (q.unset i).map fun q => (q,.done)
  | .get i => (q.get i).map fun v => (q,.bit v)
  | .clear s e =>
    let size := q.data.length
    (unsetEach size ((e + size - s) % size + 1) s 0 q).map fun r => (r.2,.count r.1)

end BitmapNaive

namespace Bitmap

structure Shows (b : Bitmap) (q : BitmapNaive) : Prop where
  wf : b.WF
  length : q.data.length = b.elementCapacity
  bit : ∀ i < b.elementCapacity, (q.data.getD i 0 ≠ 0 ↔ i ∈ b.bits)

variable {b b' : Bitmap} {q q' : BitmapNaive} {n s e : ℕ}

theorem new_shows (n : ℕ) : (empty.resize n).Shows (BitmapNaive.new n) := by
  obtain ⟨hwf,hbits,hcap⟩ := resize_empty n
  refine ⟨hwf,?_,?_⟩
  · rw [hcap,BitmapNaive.new,List.length_replicate]
  · intro i hi
    rw [hcap] at hi
    simp [hbits,BitmapNaive.new,hi]

theorem Shows.get (h : b.Shows q) (i : ℕ) : b.get i = q.get i := by
  by_cases hi : i < b.elementCapacity
  · have hbit := h.bit i hi
    rw [get_ok h.wf hi,BitmapNaive.get,if_pos (h.length.symm ▸ hi)]
    congr 1
    exact Bool.eq_iff_iff.mpr (by simpa using hbit.symm)
  · rw [Bitmap.get,if_neg hi,BitmapNaive.get,if_neg (h.length.symm ▸ hi)]

theorem Shows.write (h : b.Shows q) {i : ℕ} (hi : i < b.elementCapacity) (hwf : b'.WF)
    (hcap : b'.elementCapacity = b.elementCapacity) {x : Int8}
    (hbits : ∀ j, j ∈ b'.bits ↔ if j = i then x ≠ 0 else j ∈ b.bits) :
    b'.Shows ⟨q.data.set i x⟩ := by
  have hlen := h.length
  refine ⟨hwf,by rw [hcap,List.length_set,hlen],?_⟩
  intro j hj
  rw [hcap] at hj
  rw [hbits]
  split_ifs with hji
  · subst hji
    rw [List.getD_eq_getElem?_getD,List.getElem?_set_self (by omega),Option.getD_some]
  · rw [← h.bit j hj,List.getD_eq_getElem?_getD,List.getElem?_set_ne (Ne.symm hji),
      ← List.getD_eq_getElem?_getD]

theorem Shows.unset (h : b.Shows q) {i : ℕ} (hi : i < b.elementCapacity) :
    ∃ b' q', b.unset i = .ok b' ∧ q.unset i = .ok q' ∧ b'.Shows q' ∧
      b'.elementCapacity = b.elementCapacity := by
  obtain ⟨b',hrun,hwf,hcap,hbits⟩ := unset_ok h.wf hi
  refine ⟨b',⟨q.data.set i 0⟩,hrun,if_pos (h.length.symm ▸ hi),h.write hi hwf hcap ?_,hcap⟩
  intro j
  by_cases hj : j = i <;> simp [hbits,hj]

theorem Shows.set (h : b.Shows q) {i : ℕ} (hi : i < b.elementCapacity) :
    ∃ b' q', b.set i = .ok b' ∧ q.set i = .ok q' ∧ b'.Shows q' ∧
      b'.elementCapacity = b.elementCapacity := by
  obtain ⟨b',hrun,hwf,hcap,hbits⟩ := set_ok h.wf hi
  refine ⟨b',⟨q.data.set i 1⟩,hrun,if_pos (h.length.symm ▸ hi),h.write hi hwf hcap ?_,hcap⟩
  intro j
  by_cases hj : j = i <;> simp [hbits,hj]

theorem Shows.unsetEach (h : b.Shows q) (hcap : b.elementCapacity = n) (hn : 0 < n)
    (rounds i cnt : ℕ) : ∃ cnt' b' q', Bitmap.unsetEach n rounds i cnt b = .ok (cnt',b') ∧
      BitmapNaive.unsetEach n rounds i cnt q = .ok (cnt',q') ∧ b'.Shows q' ∧
        b'.elementCapacity = n := by
  induction rounds generalizing b q i cnt with
  | zero => exact ⟨cnt,b,q,rfl,rfl,h,hcap⟩
  | succ rounds ih =>
    have hi : i % n < b.elementCapacity := hcap.symm ▸ Nat.mod_lt _ hn
    have hget := h.get (i % n)
    have hbit := get_ok h.wf hi
    have hbit' := hget.symm.trans hbit
    by_cases hset : i % n ∈ b.bits
    · obtain ⟨c,p,hc,hp,hshows,hcap'⟩ := h.unset hi
      obtain ⟨cnt',b',q',hb',hq',hshows'⟩ := ih hshows (hcap'.trans hcap) (i + 1) (cnt + 1)
      refine ⟨cnt',b',q',?_,?_,hshows'⟩
      · simp only [Bitmap.unsetEach,hbit,decide_eq_true hset,hc,bind,Except.bind,if_true,hb']
      · simp only [BitmapNaive.unsetEach,hbit',decide_eq_true hset,hp,bind,Except.bind,if_true,hq']
    · obtain ⟨cnt',b',q',hb',hq',hshows'⟩ := ih h hcap (i + 1) cnt
      refine ⟨cnt',b',q',?_,?_,hshows'⟩
      · simp only [Bitmap.unsetEach,hbit,decide_eq_false hset,bind,Except.bind,hb',
          Bool.false_eq_true,if_false]
      · simp only [BitmapNaive.unsetEach,hbit',decide_eq_false hset,bind,Except.bind,hq',
          Bool.false_eq_true,if_false]

theorem WF.batch_eq_each (h : b.WF) (hs : s < b.elementCapacity) (he : e < b.elementCapacity)
    (hw : ¬ WrapsInsideBlock s e) :
    b.getPopCountAndUnsetBatch s e = b.getPopCountAndUnsetEach s e := by
  refine (batch_cleared h.sized (h.inside hs) (h.inside he)).unique (each_cleared h.sized hs he) ?_
  intro j hj
  have hsmall := h.small j hj
  tauto

/-- The ranges that are cleared lie inside of a bitmap with `n` elements, and none of them starts
behind its end in the same block. -/
def Inside (n : ℕ) : BitmapOp → Prop
  | .clear s e => s < n ∧ e < n ∧ ¬ WrapsInsideBlock s e
  | _ => True

instance (n : ℕ) : (op : BitmapOp) → Decidable (Inside n op)
  | .clear s e => inferInstanceAs (Decidable (s < n ∧ e < n ∧ ¬ WrapsInsideBlock s e))
  | .set _ | .unset _ | .get _ => isTrue trivial

theorem Shows.step (h : b.Shows q) (hcap : b.elementCapacity = n) {op : BitmapOp}
    (hop : Inside n op) :
    Agree (fun b q => b.Shows q ∧ b.elementCapacity = n) (b.step op) (q.step op) := by
  have hlen := h.length
  cases op with
  | set i =>
    by_cases hi : i < b.elementCapacity
    · obtain ⟨b',q',hb,hq,hshows,hcap'⟩ := h.set hi
      simp only [Bitmap.step,BitmapNaive.step,hb,hq,Except.map]
      exact ⟨⟨hshows,hcap'.trans hcap⟩,rfl⟩
    · simp only [Bitmap.step,BitmapNaive.step,Bitmap.set,BitmapNaive.set,hlen,if_neg hi,Except.map]
      rfl
  | unset i =>
    by_cases hi : i < b.elementCapacity
    · obtain ⟨b',q',hb,hq,hshows,hcap'⟩ := h.unset hi
      simp only [Bitmap.step,BitmapNaive.step,hb,hq,Except.map]
      exact ⟨⟨hshows,hcap'.trans hcap⟩,rfl⟩
    · simp only [Bitmap.step,BitmapNaive.step,Bitmap.unset,BitmapNaive.unset,hlen,if_neg hi,
        Except.map]
      rfl
  | get i =>
    by_cases hi : i < b.elementCapacity
    · have hbit := get_ok h.wf hi
      have hbit' := (h.get i).symm.trans hbit
      simp only [Bitmap.step,BitmapNaive.step,hbit,hbit',Except.map]
      exact ⟨⟨h,hcap⟩,rfl⟩
    · simp only [Bitmap.step,BitmapNaive.step,Bitmap.get,BitmapNaive.get,hlen,if_neg hi,Except.map]
      rfl
  | clear s e =>
    obtain ⟨hs,he,hw⟩ := hop
    subst hcap
    have hbatch := h.wf.batch_eq_each hs he hw
    obtain ⟨cnt,b',q',hb,hq,hshows,hcap'⟩ := h.unsetEach rfl (Nat.zero_lt_of_lt hs)
      ((e + b.elementCapacity - s) % b.elementCapacity + 1) s 0
    simp only [Bitmap.step,BitmapNaive.step,hbatch,getPopCountAndUnsetEach,hb,hlen,hq,Except.map]
    exact ⟨⟨hshows,hcap'⟩,rfl⟩

/-- Over any run the bitmap gives the answers of the naive one, and it fails where the naive one
fails, as long as it is not asked to clear a range that lies outside or starts behind its end in the
same block. -/
theorem answers_naive {ops : List BitmapOp} (hops : ∀ op ∈ ops, Inside n op) :
    answers Bitmap.step (empty.resize n) ops =
      answers BitmapNaive.step (BitmapNaive.new n) ops := by
  obtain ⟨-,-,hcap⟩ := resize_empty n
  exact answers_eq (fun b q => b.Shows q ∧ b.elementCapacity = n) (Inside n)
    (fun hR hop => hR.1.step hR.2 hop) ⟨new_shows n,hcap⟩ hops

/-- Three blocks, a range that wraps over all of them, and an index that is too large. -/
theorem answers_naive_wrapped : answers Bitmap.step (empty.resize 70)
    [.set 3,.set 40,.set 69,.clear 66 40,.get 3,.set 70,.get 3] =
      ([.done,.done,.done,.count 3,.bit false],some .assertion) := by
  rw [answers_naive (n := 70) (by decide)]
  decide +kernel

end Bitmap
end Minnow
