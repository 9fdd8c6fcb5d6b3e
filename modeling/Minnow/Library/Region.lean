import Mathlib.Tactic

/-! A list as flat memory: reading and overwriting a region of cells. -/
namespace Minnow
namespace Library

variable {α : Type*}

/-- The `n` cells from index `i` on. -/
def slice (xs : List α) (i n : ℕ) : List α := (xs.drop i).take n

/-- Copy `ys` over the cells from index `i` on. -/
def overwrite (xs : List α) (i : ℕ) (ys : List α) : List α :=
  xs.take i ++ ys ++ xs.drop (i + ys.length)

/-- Copy `n` cells down by `d`, one after the other, lowest first. -/
def shiftDown (xs : List α) (d : ℕ) : ℕ → List α
  | 0 => xs
  | n+1 =>
    let ys := shiftDown xs d n
    match ys[n+d]? with
    | some y => ys.set n y
    | none => ys

@[simp] theorem slice_zero (xs : List α) (i : ℕ) : slice xs i 0 = [] := by simp [slice]

theorem slice_length {xs : List α} {i n : ℕ} (h : i + n ≤ xs.length) :
    (slice xs i n).length = n := by
  simp [slice]
  omega

theorem slice_getElem? (xs : List α) (i n k : ℕ) :
    (slice xs i n)[k]? = if k < n then xs[i+k]? else none := by
  simp [slice,List.getElem?_take]

theorem slice_add (xs : List α) (i m n : ℕ) :
    slice xs i (m+n) = slice xs i m ++ slice xs (i+m) n := by
  simp [slice,List.take_add,List.drop_drop]

theorem slice_drop (xs : List α) (i n k : ℕ) :
    (slice xs i n).drop k = slice xs (i+k) (n-k) := by
  simp [slice,List.drop_take,List.drop_drop]

theorem slice_take (xs : List α) (i n k : ℕ) :
    (slice xs i n).take k = slice xs i (min k n) := by
  simp [slice,List.take_take]

theorem overwrite_length {xs ys : List α} {i : ℕ} (h : i + ys.length ≤ xs.length) :
    (overwrite xs i ys).length = xs.length := by
  simp [overwrite]
  omega

theorem overwrite_getElem? {xs ys : List α} {i : ℕ} (h : i + ys.length ≤ xs.length) (k : ℕ) :
    (overwrite xs i ys)[k]? =
      if i ≤ k ∧ k < i + ys.length then ys[k-i]? else xs[k]? := by
  simp only [overwrite,List.getElem?_append,List.length_append,List.length_take,
    List.getElem?_take,List.getElem?_drop]
  split_ifs <;> first | rfl | omega | (congr 1; omega)

theorem slice_overwrite (xs ys : List α) (i : ℕ) (h : i + ys.length ≤ xs.length) :
    slice (overwrite xs i ys) i ys.length = ys := by
  apply List.ext_getElem?
  intro k
  rw [slice_getElem?,overwrite_getElem? h]
  split_ifs with hk hin
  · congr 1
    omega
  · omega
  · rw [List.getElem?_eq_none (by omega)]

theorem slice_overwrite_below {xs ys : List α} {i j n : ℕ} (h : i + ys.length ≤ xs.length)
    (hj : j + n ≤ i) : slice (overwrite xs i ys) j n = slice xs j n := by
  apply List.ext_getElem?
  intro k
  rw [slice_getElem?,slice_getElem?,overwrite_getElem? h]
  split_ifs with hk hin
  · omega
  · rfl
  · rfl

/-- Copying lowest first moves a region down even where source and target overlap. -/
theorem shiftDown_eq (xs : List α) (d n : ℕ) (h : n + d ≤ xs.length) :
    shiftDown xs d n = overwrite xs 0 (slice xs d n) := by
  induction n with
  | zero => simp [shiftDown,overwrite]
  | succ n ih =>
    have hlen : (slice xs d n).length = n := slice_length (by omega)
    have hlen' : (slice xs d (n+1)).length = n+1 := slice_length (by omega)
    have hread : (overwrite xs 0 (slice xs d n))[n+d]? = xs[n+d]? := by
      rw [overwrite_getElem? (by omega)]
      split_ifs
      · omega
      · rfl
    simp only [shiftDown,ih (by omega),hread]
    rw [List.getElem?_eq_getElem (show n+d < xs.length by omega)]
    apply List.ext_getElem?
    intro k
    rw [List.getElem?_set,overwrite_getElem? (by omega),overwrite_getElem? (by omega),
      overwrite_length (by omega),slice_getElem?,slice_getElem?,hlen,hlen']
    have hd : xs[d+n]? = some (xs[n+d]) := by
      rw [Nat.add_comm d n]
      exact List.getElem?_eq_getElem _
    split_ifs <;> first | rfl | omega | skip
    subst k
    simpa using hd.symm

end Library
end Minnow
