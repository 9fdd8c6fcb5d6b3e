import Mathlib.Tactic

/-! Sums of weights over lists, compared by parts: by counting, by groups with a key, and by drawing
from a list without drawing anything twice. -/
namespace Minnow
namespace Library

universe u v w

variable {α : Type u} {β : Type v} {κ : Type w}

theorem sum_le_of_count_le [BEq α] [LawfulBEq α] (f : α → ℕ) {xs ys : List α}
    (h : ∀ x, xs.count x ≤ ys.count x) : (xs.map f).sum ≤ (ys.map f).sum := by
  obtain ⟨zs,hperm,hsub⟩ := List.subperm_ext_iff.mpr fun x _ => h x
  rw [← (hperm.map f).sum_eq]
  exact (hsub.map f).sum_le_sum fun _ _ => Nat.zero_le _

theorem sum_eq_sum_groups [DecidableEq κ] (key : α → κ) (f : α → ℕ) (xs : List α) {K : Finset κ}
    (hK : ∀ x ∈ xs, key x ∈ K) :
    (xs.map f).sum = ∑ k ∈ K, ((xs.filter fun x => key x = k).map f).sum := by
  induction xs with
  | nil => simp
  | cons x xs ih =>
    have hrest := ih fun y hy => hK y (List.mem_cons_of_mem _ hy)
    have hcons : ∀ k, (((x::xs).filter fun x => key x = k).map f).sum =
        (if key x = k then f x else 0) + ((xs.filter fun x => key x = k).map f).sum := by
      intro k
      by_cases hk : key x = k
      · simp [hk]
      · simp [hk]
    have hx : ∑ k ∈ K, (if key x = k then f x else 0) = f x := by
      rw [Finset.sum_ite_eq K (key x),if_pos (hK x List.mem_cons_self)]
    rw [List.map_cons,List.sum_cons,Finset.sum_congr rfl fun k _ => hcons k,
      Finset.sum_add_distrib,hx,hrest]

theorem sum_le_of_groups [DecidableEq κ] (keyx : α → κ) (keyy : β → κ) (f : α → ℕ) (g : β → ℕ)
    {xs : List α} {ys : List β}
    (h : ∀ k, ((xs.filter fun x => keyx x = k).map f).sum ≤
      ((ys.filter fun y => keyy y = k).map g).sum) : (xs.map f).sum ≤ (ys.map g).sum := by
  let K : Finset κ := (xs.map keyx ++ ys.map keyy).toFinset
  have hx : ∀ x ∈ xs, keyx x ∈ K := by
    intro x hx
    simp only [K,List.mem_toFinset,List.mem_append,List.mem_map]
    exact Or.inl ⟨x,hx,rfl⟩
  have hy : ∀ y ∈ ys, keyy y ∈ K := by
    intro y hy
    simp only [K,List.mem_toFinset,List.mem_append,List.mem_map]
    exact Or.inr ⟨y,hy,rfl⟩
  rw [sum_eq_sum_groups keyx f xs hx,sum_eq_sum_groups keyy g ys hy]
  exact Finset.sum_le_sum fun k _ => h k

/-- Each of `xs` is drawn from another place of `ys`, where it weighs as much at least. -/
theorem sum_le_of_draws (place : α → ℕ) (f : α → ℕ) (g : β → ℕ) {xs : List α} {ys : List β}
    (hnodup : (xs.map place).Nodup) (h : ∀ x ∈ xs, ∃ y, ys[place x]? = some y ∧ f x ≤ g y) :
    (xs.map f).sum ≤ (ys.map g).sum := by
  let G : ℕ → ℕ := fun k => (ys[k]?.map g).getD 0
  have hle : (xs.map f).sum ≤ (xs.map fun x => G (place x)).sum := by
    refine List.sum_le_sum fun x hx => ?_
    obtain ⟨y,hy,hf⟩ := h x hx
    simpa [G,hy] using hf
  have hsub : ∀ k, (xs.map place).count k ≤ (List.range ys.length).count k := by
    refine List.subperm_iff_count.mp (hnodup.subperm ?_)
    intro k hk
    obtain ⟨x,hx,rfl⟩ := List.mem_map.mp hk
    obtain ⟨y,hy,-⟩ := h x hx
    exact List.mem_range.mpr (List.getElem?_eq_some_iff.mp hy).1
  have hall : (List.range ys.length).map G = ys.map g := by
    apply List.ext_getElem
    · simp
    · intro k hk _
      have hlt : k < ys.length := by simpa using hk
      simp [G,List.getElem?_eq_getElem hlt]
  calc (xs.map f).sum ≤ (xs.map fun x => G (place x)).sum := hle
    _ = ((xs.map place).map G).sum := by rw [List.map_map]; rfl
    _ ≤ ((List.range ys.length).map G).sum := sum_le_of_count_le G hsub
    _ = (ys.map g).sum := by rw [hall]

theorem sum_filter_add (b : α → Bool) (f : α → ℕ) (xs : List α) :
    ((xs.filter b).map f).sum + ((xs.filter fun x => !b x).map f).sum = (xs.map f).sum := by
  rw [← ((List.filter_append_perm b xs).map f).sum_eq,List.map_append,List.sum_append]

end Library
end Minnow
