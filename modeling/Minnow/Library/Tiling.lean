import Mathlib.Tactic

/-! Intervals of indices that never overlap partially, and a growing set that fills each of
them from its lower end. -/
namespace Minnow
namespace Library

structure Interval where
  start : ℕ
  len : ℕ
  deriving DecidableEq, Repr

namespace Interval

def stop (a : Interval) : ℕ := a.start + a.len

end Interval

/-- Any two intervals of `T` are equal or apart, and `S` meets each of them in an initial part;
all lie below `next`. -/
structure Tiling (T : List Interval) (S : Finset ℕ) (next : ℕ) : Prop where
  aligned : ∀ a ∈ T, ∀ b ∈ T, a = b ∨ a.stop ≤ b.start ∨ b.stop ≤ a.start
  initial : ∀ a ∈ T, ∀ j ∈ S, a.start ≤ j → j < a.stop → ∀ k, a.start ≤ k → k ≤ j → k ∈ S
  below : ∀ a ∈ T, a.stop ≤ next
  filled : ∀ j ∈ S, j < next

namespace Tiling

variable {T T' : List Interval} {S : Finset ℕ} {next next' : ℕ}

theorem empty (next : ℕ) : Tiling [] ∅ next := ⟨by simp,by simp,by simp,by simp⟩

theorem mono (h : Tiling T S next) (hT : ∀ a ∈ T', a ∈ T) (hn : next ≤ next') :
    Tiling T' S next' :=
  ⟨fun a ha b hb => h.aligned a (hT a ha) b (hT b hb),fun a ha => h.initial a (hT a ha),
    fun a ha => (h.below a (hT a ha)).trans hn,fun j hj => (h.filled j hj).trans_le hn⟩

theorem cons (h : Tiling T S next) {a : Interval} (ha : next ≤ a.start) :
    Tiling (a::T) S (max next a.stop) := by
  have hle : ∀ b ∈ T, b.stop ≤ a.start := fun b hb => (h.below b hb).trans ha
  refine ⟨?_,?_,?_,?_⟩
  · intro b hb c hc
    rcases List.mem_cons.mp hb with hba | hbT
    · rcases List.mem_cons.mp hc with hca | hcT
      · exact Or.inl (hba.trans hca.symm)
      · exact Or.inr (Or.inr (hba ▸ hle c hcT))
    · rcases List.mem_cons.mp hc with hca | hcT
      · exact Or.inr (Or.inl (hca ▸ hle b hbT))
      · exact h.aligned b hbT c hcT
  · intro b hb j hj hlo hhi
    rcases List.mem_cons.mp hb with rfl | hb
    · have := h.filled j hj
      omega
    · exact h.initial b hb j hj hlo hhi
  · intro b hb
    rcases List.mem_cons.mp hb with rfl | hb
    · exact Nat.le_max_right _ _
    · exact (h.below b hb).trans (Nat.le_max_left _ _)
  · intro j hj
    exact (h.filled j hj).trans_le (Nat.le_max_left _ _)

/-- What one interval contributes below a limit is an initial part of it. -/
theorem fill (h : Tiling T S next) {a : Interval} (ha : a ∈ T) (limit : ℕ) {S' : Finset ℕ}
    (hS' : ∀ j, j ∈ S' ↔ j ∈ S ∨ a.start ≤ j ∧ j < a.stop ∧ j < limit) : Tiling T S' next := by
  refine ⟨h.aligned,?_,h.below,?_⟩
  · intro b hb j hj hlo hhi k hk hkj
    rw [hS'] at hj ⊢
    rcases hj with hj | ⟨h₁,h₂,h₃⟩
    · exact Or.inl (h.initial b hb j hj hlo hhi k hk hkj)
    · rcases h.aligned a ha b hb with rfl | hlt | hlt
      · exact Or.inr ⟨hk,by omega,by omega⟩
      · omega
      · omega
  · intro j hj
    rw [hS'] at hj
    rcases hj with hj | ⟨-,h₂,-⟩
    · exact h.filled j hj
    · exact h₂.trans_le (h.below a ha)

theorem notMem_of_gap (h : Tiling T S next) {a : Interval} (ha : a ∈ T) {f j : ℕ} (hf : f ∉ S)
    (hlo : a.start ≤ f) (hfj : f ≤ j) (hj : j < a.stop) : j ∉ S :=
  fun hS => hf (h.initial a ha j hS (by omega) hj f hlo hfj)

end Tiling
end Library
end Minnow
