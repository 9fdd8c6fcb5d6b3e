import Mathlib.Data.Nat.Bitwise
import Minnow.Machine

/-! 32-bit sequence numbers that wrap around a zero point, and their absolute
64-bit numbers. Absolute numbers are naturals; `unwrap` computes modulo `2^64`. -/
namespace Minnow

structure Wrap32 where
  rawValue : UInt32
  deriving DecidableEq, Repr

namespace Wrap32

def add (w : Wrap32) (n : UInt32) : Wrap32 := ⟨w.rawValue + n⟩

def wrap (n : ℕ) (zeroPoint : Wrap32) : Wrap32 := zeroPoint.add (UInt32.ofNat n)

/-- The high bit of `diff` makes it negative as an `int32_t`; the first branch keeps
it unsigned when the result would otherwise fall below zero. -/
def unwrap (w zeroPoint : Wrap32) (checkpoint : ℕ) : ℕ :=
  let wrapCheckpoint := wrap checkpoint zeroPoint
  let diff : UInt32 := w.rawValue - wrapCheckpoint.rawValue
  if diff &&& 0x80000000 ≠ 0 ∧ u64 (diff.toNat + checkpoint) ≤ 0xffffffff then
    u64 (checkpoint + diff.toNat)
  else
    (((checkpoint : ℤ) + diff.toInt32.toInt) % 2^64).toNat

theorem highBit_iff (d : UInt32) : d &&& 0x80000000 ≠ 0 ↔ 2^31 ≤ d.toNat := by
  have hd := d.toNat_lt
  have hbit : (d &&& 0x80000000).toNat = (d.toNat.testBit 31).toNat * 2^31 := by
    rw [UInt32.toNat_and]
    exact Nat.and_two_pow d.toNat 31
  rw [Ne,← UInt32.toNat_inj,hbit,Nat.testBit_eq_decide_div_mod_eq]
  by_cases h : d.toNat / 2^31 % 2 = 1
  · simp only [h,decide_true]
    simp
    omega
  · simp only [h,decide_false]
    simp
    omega

theorem toInt32_toInt (d : UInt32) :
    d.toInt32.toInt = if d.toNat < 2^31 then (d.toNat : ℤ) else d.toNat - 2^32 := by
  change d.toInt32.toBitVec.toInt = _
  rw [BitVec.toInt_eq_toNat_cond]
  have hd := d.toNat_lt
  simp only [UInt32.toBitVec_toInt32,UInt32.toNat_toBitVec]
  split <;> split <;> omega

@[simp] theorem wrap_rawValue (n : ℕ) (z : Wrap32) :
    (wrap n z).rawValue.toNat = (z.rawValue.toNat + n) % 2^32 := by
  simp [wrap,add]

theorem ext_toNat {w v : Wrap32} (h : w.rawValue.toNat = v.rawValue.toNat) : w = v := by
  cases w
  cases v
  simpa [UInt32.toNat_inj] using h

@[simp] theorem wrap_zero (z : Wrap32) : wrap 0 z = z := by
  apply ext_toNat
  have hz := z.rawValue.toNat_lt
  rw [wrap_rawValue]
  omega

theorem wrap_add_one (n : ℕ) (z : Wrap32) : (wrap n z).add 1 = wrap (n+1) z := by
  apply ext_toNat
  have hz := z.rawValue.toNat_lt
  simp only [add,UInt32.toNat_add,wrap_rawValue]
  simp
  omega

/-- How far the number lies above the checkpoint, modulo `2^32`. -/
def offset (w z : Wrap32) (c : ℕ) : ℕ := (w.rawValue - (wrap c z).rawValue).toNat

theorem offset_eq (w z : Wrap32) (c : ℕ) :
    offset w z c = (2^32 - (z.rawValue.toNat + c) % 2^32 + w.rawValue.toNat) % 2^32 := by
  simp [offset,UInt32.toNat_sub]

theorem unwrap_eq (w z : Wrap32) (c : ℕ) (hc : c + 2^32 ≤ 2^64) :
    unwrap w z c =
      if offset w z c < 2^31 ∨ c + offset w z c < 2^32 then c + offset w z c
      else c + offset w z c - 2^32 := by
  have hd : offset w z c < 2^32 := UInt32.toNat_lt _
  simp only [unwrap,highBit_iff,toInt32_toInt,u64]
  change (if 2^31 ≤ offset w z c ∧ _ then _ else _) = _
  change (if 2^31 ≤ offset w z c ∧ (offset w z c + c) % 2^64 ≤ 0xffffffff then
    (c + offset w z c) % 2^64 else
    (((c : ℤ) + if offset w z c < 2^31 then (offset w z c : ℤ) else offset w z c - 2^32) % 2^64).toNat) = _
  split_ifs <;> omega

theorem wrap_unwrap (w z : Wrap32) (c : ℕ) (hc : c + 2^32 ≤ 2^64) : wrap (unwrap w z c) z = w := by
  apply ext_toNat
  have hw := w.rawValue.toNat_lt
  have ho := offset_eq w z c
  rw [wrap_rawValue,unwrap_eq w z c hc]
  split_ifs <;> omega

theorem offset_wrap (n : ℕ) (z : Wrap32) (c : ℕ) :
    offset (wrap n z) z c = (n + (2^32 - c % 2^32)) % 2^32 := by
  rw [offset_eq,wrap_rawValue]
  omega

theorem unwrap_wrap {n c : ℕ} (z : Wrap32) (hc : c + 2^32 ≤ 2^64) (hlo : c < n + 2^31)
    (hhi : n < c + 2^31) : unwrap (wrap n z) z c = n := by
  rw [unwrap_eq _ _ _ hc,offset_wrap]
  split_ifs <;> omega

theorem le_unwrap_wrap {n c : ℕ} (z : Wrap32) (hc : c + 2^32 ≤ 2^64) (hn : n ≤ c) :
    n ≤ unwrap (wrap n z) z c := by
  rw [unwrap_eq _ _ _ hc,offset_wrap]
  split_ifs <;> omega

theorem unwrap_lt (w z : Wrap32) {c : ℕ} (hc : c + 2^32 ≤ 2^64) : unwrap w z c < c + 2^32 := by
  have hd : offset w z c < 2^32 := UInt32.toNat_lt _
  rw [unwrap_eq _ _ _ hc]
  split_ifs <;> omega

theorem exists_turns {m : ℕ} {w z : Wrap32} (c : ℕ) (hm : wrap m z = w) :
    ∃ k : ℤ, (m : ℤ) = c + offset w z c + 2^32 * k := by
  have hoffset := offset_wrap m z c
  rw [hm] at hoffset
  have hturn : m % 2^32 = (c + offset w z c) % 2^32 := by omega
  exact ⟨m / 2^32 - (c + offset w z c) / 2^32,by omega⟩

/-- Among the absolute numbers of a sequence number the closest to the checkpoint: below the
checkpoint only when it lies less than half a turn away and not below zero. -/
theorem unwrap_le_dist {w z : Wrap32} {c m : ℕ} (hc : c + 2^32 ≤ 2^64) (hm : wrap m z = w) :
    |(unwrap w z c : ℤ) - c| ≤ |(m : ℤ) - c| := by
  have hd : offset w z c < 2^32 := UInt32.toNat_lt _
  obtain ⟨k,hk⟩ := exists_turns c hm
  rw [unwrap_eq w z c hc]
  rcases le_or_gt 0 k with hup | hdown
  · -- at or above the checkpoint by the offset and more
    rw [abs_of_nonneg (a := (m : ℤ) - c) (by omega),abs_le]
    split_ifs <;> omega
  · rw [abs_of_nonpos (a := (m : ℤ) - c) (by omega),abs_le]
    split_ifs <;> omega

/-- The result is an absolute number of the sequence number, it is the closest to the checkpoint
of all of them, and so every number less than half a turn away comes back. -/
theorem unwrap_closest (w z : Wrap32) (c : ℕ) (hc : c + 2^32 ≤ 2^64) :
    unwrap w z c < 2^64 ∧ wrap (unwrap w z c) z = w ∧
      (∀ m : ℕ, wrap m z = w → |(unwrap w z c : ℤ) - c| ≤ |(m : ℤ) - c|) ∧
      ∀ m : ℕ, |(m : ℤ) - c| < 2^31 → unwrap (wrap m z) z c = m := by
  refine ⟨?_,wrap_unwrap w z c hc,fun m hm => unwrap_le_dist hc hm,?_⟩
  · have hlt := unwrap_lt w z hc
    omega
  · intro m hnear
    obtain ⟨hlo,hhi⟩ := abs_lt.mp hnear
    exact unwrap_wrap z hc (by omega) (by omega)

/-- Half a turn away in both directions, next to zero and after a whole turn. -/
theorem unwrap_closest_tie :
    (unwrap ⟨0x80000007⟩ ⟨7⟩ 0 = 2^31 ∧ wrap (unwrap ⟨0x80000007⟩ ⟨7⟩ 0) ⟨7⟩ = ⟨0x80000007⟩) ∧
    unwrap ⟨0x80000007⟩ ⟨7⟩ (2^32) = 2^31 ∧
      wrap (unwrap ⟨0x80000007⟩ ⟨7⟩ (2^32)) ⟨7⟩ = ⟨0x80000007⟩ :=
  ⟨⟨by decide,(unwrap_closest ⟨0x80000007⟩ ⟨7⟩ 0 (by decide)).2.1⟩,
    by decide,(unwrap_closest ⟨0x80000007⟩ ⟨7⟩ (2^32) (by decide)).2.1⟩

end Wrap32
end Minnow
