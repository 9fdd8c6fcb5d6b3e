import Mathlib.Tactic

/-! Sums with end-around carry: what folding the carries back into `w` bits keeps of a
number is its residue modulo `2^w-1`. -/
namespace Minnow
namespace Library
namespace OnesComplement

variable (w : ℕ)

/-- Add what overflows `w` bits to the low bits. -/
def carry (n : ℕ) : ℕ := (n >>> w) + n % 2^w

/-- Fold the carries while there are any, at most `k` times. -/
def fold : ℕ → ℕ → ℕ
  | 0, n => n
  | k+1, n => if 2^w ≤ n then fold k (carry w n) else n

variable {w} {n : ℕ}

theorem carry_add_mul (w n : ℕ) : carry w n + (2^w - 1)*(n >>> w) = n := by
  have hpow := Nat.one_le_two_pow (n := w)
  have hdiv := Nat.div_add_mod n (2^w)
  rw [carry,Nat.shiftRight_eq_div_pow]
  calc n / 2^w + n % 2^w + (2^w - 1)*(n / 2^w)
      = (2^w - 1 + 1)*(n / 2^w) + n % 2^w := by ring
    _ = n := by rw [Nat.sub_add_cancel hpow,hdiv]

theorem carry_modEq (w n : ℕ) : carry w n ≡ n [MOD 2^w-1] := by
  have hsum := carry_add_mul w n
  calc carry w n ≡ carry w n + (2^w - 1)*(n >>> w) [MOD 2^w-1] := by
        simp [Nat.ModEq]
    _ = n := hsum

theorem fold_modEq (w k n : ℕ) : fold w k n ≡ n [MOD 2^w-1] := by
  induction k generalizing n with
  | zero => rfl
  | succ k ih =>
    rw [fold]
    split_ifs
    · exact (ih _).trans (carry_modEq w n)
    · rfl

/-- Two sums that fold to one number agree modulo `2^w-1`. -/
theorem modEq_of_fold_eq {k a b : ℕ} (h : fold w k a = fold w k b) : a ≡ b [MOD 2^w-1] :=
  ((fold_modEq w k a).symm.trans (by rw [h])).trans (fold_modEq w k b)

theorem fold_pos {k : ℕ} (h : 0 < n) : 0 < fold w k n := by
  induction k generalizing n with
  | zero => exact h
  | succ k ih =>
    rw [fold]
    split_ifs with hn
    · refine ih (Nat.add_pos_left ?_ _)
      rw [Nat.shiftRight_eq_div_pow]
      exact Nat.div_pos hn (Nat.two_pow_pos w)
    · exact h

theorem fold_two_lt (hw : 0 < w) (h : n < 2^(2*w)) : fold w 2 n < 2^w := by
  have hpow : 1 < 2^w := Nat.one_lt_two_pow hw.ne'
  have hhigh : n >>> w < 2^w := by
    rw [Nat.shiftRight_eq_div_pow]
    exact Nat.div_lt_of_lt_mul (by rwa [← pow_add,← two_mul])
  have hlow := Nat.mod_lt n (Nat.two_pow_pos w)
  simp only [fold]
  split_ifs with hn hc
  · -- the first folding leaves one carry at most, and no room for a second one
    have hlt : carry w n < 2*2^w - 1 := by
      unfold carry
      omega
    have hone : carry w n >>> w = 1 := by
      rw [Nat.shiftRight_eq_div_pow]
      exact Nat.div_eq_of_lt_le (by omega) (by omega)
    have hmod := Nat.div_add_mod (carry w n) (2^w)
    rw [← Nat.shiftRight_eq_div_pow,hone] at hmod
    rw [show carry w (carry w n) = (carry w n >>> w) + carry w n % 2^w from rfl,hone]
    omega
  · omega
  · omega

theorem two_pow_modEq (w : ℕ) : 2^w ≡ 1 [MOD 2^w-1] := by
  have hpow := Nat.one_le_two_pow (n := w)
  calc 2^w = 2^w - 1 + 1 := (Nat.sub_add_cancel hpow).symm
    _ ≡ 1 [MOD 2^w-1] := by simp [Nat.ModEq]

theorem modEq_of_mul {k a b : ℕ} (hw : 0 < w) (h : 2^k*a ≡ 2^k*b [MOD 2^w-1]) :
    a ≡ b [MOD 2^w-1] := by
  refine Nat.ModEq.cancel_left_of_coprime ?_ h
  have hodd : Odd (2^w - 1) :=
    Nat.Even.sub_odd Nat.one_le_two_pow (even_two.pow_of_ne_zero hw.ne') odd_one
  exact hodd.coprime_two_right.pow_right k

theorem modEq_cases {a b : ℕ} (ha : a < 2^w) (hb : b < 2^w) (h : a ≡ b [MOD 2^w-1]) :
    a = b ∨ a = 0 ∧ b = 2^w - 1 ∨ a = 2^w - 1 ∧ b = 0 := by
  by_cases hmax : a = 2^w - 1
  · have hzero : b % (2^w - 1) = 0 := by rw [← h,hmax,Nat.mod_self]
    by_cases hb' : b = 2^w - 1
    · exact Or.inl (hmax.trans hb'.symm)
    · rw [Nat.mod_eq_of_lt (by omega)] at hzero
      exact Or.inr (Or.inr ⟨hmax,hzero⟩)
  · have hlt : a % (2^w - 1) = a := Nat.mod_eq_of_lt (by omega)
    by_cases hb' : b = 2^w - 1
    · have hzero : a % (2^w - 1) = 0 := by rw [h,hb',Nat.mod_self]
      exact Or.inr (Or.inl ⟨hlt.symm.trans hzero,hb'⟩)
    · exact Or.inl (Nat.ModEq.eq_of_lt_of_lt h (by omega) (by omega))

def window (w k n : ℕ) : ℕ := n / 2^k % 2^w

theorem window_split (w k n : ℕ) : n % 2^k + 2^k*window w k n + 2^(k+w)*(n / 2^(k+w)) = n := by
  rw [window,← Nat.mod_mul,← pow_add,Nat.mod_add_div]

/-- Two numbers that agree modulo `2^w-1`, and outside of `w` neighbouring bits, are equal, or these
bits are all zero in one of them and all one in the other. -/
theorem eq_or_window {k m n : ℕ} (hw : 0 < w) (hmod : m ≡ n [MOD 2^w-1])
    (hhigh : m / 2^(k+w) = n / 2^(k+w)) (hlow : m % 2^k = n % 2^k) :
    m = n ∨ window w k m = 0 ∧ window w k n = 2^w - 1 ∨
      window w k m = 2^w - 1 ∧ window w k n = 0 := by
  have hm := window_split w k m
  have hn := window_split w k n
  rw [hhigh,hlow] at hm
  have hbits : window w k m ≡ window w k n [MOD 2^w-1] := by
    refine modEq_of_mul (k := k) hw (Nat.ModEq.add_left_cancel' (n % 2^k) ?_)
    refine Nat.ModEq.add_right_cancel' (2^(k+w)*(n / 2^(k+w))) ?_
    rwa [hm,hn]
  have hlt : ∀ x, window w k x < 2^w := fun x => Nat.mod_lt _ (Nat.two_pow_pos w)
  rcases modEq_cases (hlt m) (hlt n) hbits with heq | hzero
  · left
    rw [heq] at hm
    exact hm.symm.trans hn
  · exact Or.inr hzero

end OnesComplement
end Library
end Minnow
