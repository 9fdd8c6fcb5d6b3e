import Mathlib.Tactic

/-! What the modelled code takes from its machine: bytes, 64-bit arithmetic on
counters, and the ways in which an execution can go wrong. -/
namespace Minnow

abbrev Byte := UInt8

/-- An IPv4 address, as `ipv4_numeric()` gives it. -/
abbrev Address := UInt32

/-- What 64-bit arithmetic keeps of a number. -/
def u64 (n : ℕ) : ℕ := n % 2^64

theorem u64_of_lt {n : ℕ} (h : n < 2^64) : u64 n = n := Nat.mod_eq_of_lt h

def u64Sub (a b : ℕ) : ℕ := u64 (a + (2^64 - u64 b))

theorem u64Sub_of_le {a b : ℕ} (ha : a < 2^64) (h : b ≤ a) : u64Sub a b = a - b := by
  simp only [u64Sub,u64]
  omega

theorem bind_ok {ε α β : Type} {x : Except ε α} {f : α → Except ε β} {r : β} :
    x >>= f = .ok r ↔ ∃ a, x = .ok a ∧ f a = .ok r := by
  cases x <;> simp [bind,Except.bind]

/-- Executions after which the code promises nothing. -/
inductive Fault
  /-- a failed `assert` -/
  | assertion
  /-- an element outside of its container: an index, the front of an empty deque,
  the first character of an empty view, a dangling pointer -/
  | outOfRange
  /-- `%` by zero, or a shift by more than the width -/
  | arithmetic
  /-- a loop that never ends -/
  | nontermination
  deriving DecidableEq, Repr

/-- A `std::runtime_error` with its text. -/
structure RuntimeError where
  what : String
  deriving DecidableEq, Repr

end Minnow
