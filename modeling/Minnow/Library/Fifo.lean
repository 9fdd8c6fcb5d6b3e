import Mathlib.Tactic

/-! A bounded queue of elements, first in first out: what a buffer is for. -/
namespace Minnow
namespace Library
namespace Fifo

universe u

variable {α : Type u}

inductive Op (α : Type u)
  | push (data : List α)
  | pop (n : ℕ)
  | peek
  | read (n : ℕ)
  deriving DecidableEq, Repr

/-- A push keeps what there is room for; `pop` and `read` take from the front what there is. -/
def step (capacity : ℕ) (q : List α) : Op α → List α × List α
  | .push data => (q ++ data.take (capacity - q.length),[])
  | .pop n => (q.drop n,[])
  | .peek => (q,q)
  | .read n => (q.drop n,q.take n)

end Fifo
end Library
end Minnow
