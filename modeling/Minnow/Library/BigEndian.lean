import Mathlib.Tactic

/-! Fixed-width big-endian byte strings of natural numbers, written from the most
significant byte down and read back by shifting. -/
namespace Minnow
namespace Library
namespace BigEndian

/-- The `n` low bytes of `v`, the most significant one first. -/
def bytes : ℕ → ℕ → List UInt8
  | 0, _ => []
  | n+1, v => UInt8.ofNat (v >>> (n*8)) :: bytes n v

def shiftIn (v : ℕ) (bs : List UInt8) : ℕ := bs.foldl (fun out b => (out <<< 8) ||| b.toNat) v

def value (bs : List UInt8) : ℕ := shiftIn 0 bs

@[simp] theorem shiftIn_nil (v : ℕ) : shiftIn v [] = v := rfl

@[simp] theorem shiftIn_cons (v : ℕ) (b : UInt8) (bs : List UInt8) :
    shiftIn v (b::bs) = shiftIn ((v <<< 8) ||| b.toNat) bs := rfl

@[simp] theorem bytes_length (n v : ℕ) : (bytes n v).length = n := by
  induction n with
  | zero => rfl
  | succ n ih => simp [bytes,ih]

theorem shiftIn_byte (v : ℕ) (b : UInt8) : (v <<< 8) ||| b.toNat = v*256 + b.toNat := by
  rw [Nat.shiftLeft_eq,mul_comm,← Nat.two_pow_add_eq_or_of_lt b.toNat_lt]

/-- Reading what was written continues the accumulator with the low bytes of the number. -/
theorem shiftIn_bytes (n v acc : ℕ) : shiftIn acc (bytes n v) = acc*256^n + v % 256^n := by
  induction n generalizing acc with
  | zero => simp [bytes,Nat.mod_one]
  | succ n ih =>
    have hbyte : (UInt8.ofNat (v >>> (n*8))).toNat = v / 256^n % 256 := by
      rw [UInt8.toNat_ofNat',Nat.shiftRight_eq_div_pow,mul_comm n 8,pow_mul]
      norm_num
    rw [bytes,shiftIn_cons,ih,shiftIn_byte,hbyte,pow_succ,Nat.mod_mul]
    ring

theorem value_bytes (n v : ℕ) : value (bytes n v) = v % 256^n := by
  simp [value,shiftIn_bytes]

theorem value_bytes_of_lt {n v : ℕ} (h : v < 256^n) : value (bytes n v) = v := by
  rw [value_bytes,Nat.mod_eq_of_lt h]

theorem shiftIn_eq (v : ℕ) (bs : List UInt8) : shiftIn v bs = v*256^bs.length + value bs := by
  induction bs generalizing v with
  | nil => simp [value]
  | cons b bs ih =>
    rw [value,shiftIn_cons,shiftIn_cons,ih,ih ((0 <<< 8) ||| b.toNat),shiftIn_byte,shiftIn_byte,
      List.length_cons,pow_succ]
    ring

theorem value_cons (b : UInt8) (bs : List UInt8) :
    value (b::bs) = b.toNat*256^bs.length + value bs := by
  rw [value,shiftIn_cons,shiftIn_eq,shiftIn_byte,Nat.zero_mul,Nat.zero_add]

theorem value_lt (bs : List UInt8) : value bs < 256^bs.length := by
  induction bs with
  | nil => simp [value]
  | cons b bs ih =>
    have hb : b.toNat + 1 ≤ 256 := b.toNat_lt
    calc value (b::bs) = b.toNat*256^bs.length + value bs := value_cons b bs
      _ < (b.toNat + 1)*256^bs.length := by rw [Nat.add_mul,Nat.one_mul]; omega
      _ ≤ 256*256^bs.length := Nat.mul_le_mul_right _ hb
      _ = 256^(b::bs).length := by rw [List.length_cons,pow_succ,mul_comm]

theorem value_inj {xs ys : List UInt8} (hlen : xs.length = ys.length) (h : value xs = value ys) :
    xs = ys := by
  induction xs generalizing ys with
  | nil => exact (List.length_eq_zero_iff.mp hlen.symm).symm
  | cons x xs ih =>
    cases ys with
    | nil => cases hlen
    | cons y ys =>
      have hrest : xs.length = ys.length := Nat.succ.inj hlen
      rw [value_cons,value_cons,hrest] at h
      have hx := value_lt xs
      have hy := value_lt ys
      rw [hrest] at hx
      have hpos : 0 < 256^ys.length := Nat.pos_of_ne_zero (by simp)
      have hdiv := congrArg (· / 256^ys.length) h
      have hmod := congrArg (· % 256^ys.length) h
      simp only [Nat.mul_add_mod_self_right,Nat.mod_eq_of_lt hx,Nat.mod_eq_of_lt hy] at hmod
      simp only [Nat.add_div_of_dvd_right (Nat.dvd_mul_left _ _),Nat.mul_div_cancel _ hpos,
        Nat.div_eq_of_lt hx,Nat.div_eq_of_lt hy,Nat.add_zero] at hdiv
      rw [UInt8.toNat_inj.mp hdiv,ih hrest hmod]

theorem bytes_value {n : ℕ} {bs : List UInt8} (h : bs.length = n) : bytes n (value bs) = bs := by
  refine value_inj (by rw [bytes_length,h]) ?_
  exact value_bytes_of_lt (h ▸ value_lt bs)

end BigEndian
end Library
end Minnow
