import Mathlib.Tactic

/-! Windows of consecutive indices on a circle of `C` slots. -/
namespace Minnow
namespace Library

/-- The slots from `s` to `e` inclusive, going round past the end when `e < s`. -/
def OnArc (s e j : ℕ) : Prop := if s ≤ e then s ≤ j ∧ j ≤ e else s ≤ j ∨ j ≤ e

instance (s e j : ℕ) : Decidable (OnArc s e j) := by unfold OnArc; infer_instance

/-- The slots from `s` up to but not including `e`; none when they are equal. -/
def OnHalfArc (s e j : ℕ) : Prop := if s ≤ e then s ≤ j ∧ j < e else s ≤ j ∨ j < e

theorem mod_window {C f d : ℕ} (hd : d < C) :
    (f + d) % C = if f % C + d < C then f % C + d else f % C + d - C := by
  have hr : f % C < C := Nat.mod_lt _ (by omega)
  rw [← Nat.mod_add_mod]
  split_ifs with h
  · exact Nat.mod_eq_of_lt h
  · rw [Nat.mod_eq_sub_mod (by omega)]
    exact Nat.mod_eq_of_lt (by omega)

theorem window_injective {C f i j : ℕ} (hi : f ≤ i) (hiC : i < f + C) (hj : f ≤ j)
    (hjC : j < f + C) (h : i % C = j % C) : i = j := by
  obtain ⟨a,rfl⟩ := Nat.exists_eq_add_of_le hi
  obtain ⟨b,rfl⟩ := Nat.exists_eq_add_of_le hj
  have hr : f % C < C := Nat.mod_lt _ (by omega)
  rw [mod_window (by omega),mod_window (by omega)] at h
  split_ifs at h <;> omega

theorem window_surjective {C w : ℕ} (f : ℕ) (hw : w < C) :
    ∃ j, f ≤ j ∧ j < f + C ∧ j % C = w := by
  have hr : f % C < C := Nat.mod_lt _ (by omega)
  by_cases h : f % C ≤ w
  · refine ⟨f + (w - f % C),by omega,by omega,?_⟩
    rw [mod_window (by omega)]
    split_ifs <;> omega
  · refine ⟨f + (w + C - f % C),by omega,by omega,?_⟩
    rw [mod_window (by omega)]
    split_ifs <;> omega

/-- The part `[f,t)` of the window covers the arc from the slot of `f` to that of `t-1`. -/
theorem onArc_iff {C f t j : ℕ} (hft : f < t) (htC : t ≤ f + C) (hj : f ≤ j)
    (hjC : j < f + C) : OnArc (f % C) ((t-1) % C) (j % C) ↔ j < t := by
  obtain ⟨d,rfl⟩ := Nat.exists_eq_add_of_le hj
  obtain ⟨n,rfl⟩ := Nat.exists_eq_add_of_lt hft
  have hr : f % C < C := Nat.mod_lt _ (by omega)
  have he : (f + n + 1 - 1) % C = if f % C + n < C then f % C + n else f % C + n - C :=
    mod_window (by omega)
  rw [he,mod_window (by omega)]
  unfold OnArc
  split_ifs <;> omega

theorem succ_slot {C i : ℕ} (hi : i < C) : (i + 1) % C = if i + 1 < C then i + 1 else 0 := by
  split_ifs with hlt
  · exact Nat.mod_eq_of_lt hlt
  · rw [show i + 1 = C by omega,Nat.mod_self]

theorem not_onHalfArc_self (i j : ℕ) : ¬ OnHalfArc i i j := by
  unfold OnHalfArc
  split_ifs <;> omega

theorem onHalfArc_step {C i e j : ℕ} (hi : i < C) (he : e < C) (hj : j < C) (hie : i ≠ e) :
    OnHalfArc i e j ↔ j = i ∨ OnHalfArc ((i + 1) % C) e j := by
  rw [succ_slot hi]
  unfold OnHalfArc
  split_ifs <;> omega

end Library
end Minnow
