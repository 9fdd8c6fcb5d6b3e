import Mathlib.Tactic

/-! A sequence that lies in chunks, some of which may be empty: reading on through it, and
the offsets of the empty chunks. -/
namespace Minnow
namespace Library
namespace Chunks

variable {α : Type*}

/-- Go on by `n` cells. Chunks that are used up on the way are dropped, but no chunk behind the
last cell. -/
def advance : List (List α) → ℕ → List (List α)
  | [], _ => []
  | c::cs, n =>
    if n = 0 then c::cs
    else if c.length ≤ n then advance cs (n - c.length)
    else c.drop n::cs

/-- The offsets of the cells, or the end, in front of which an empty chunk lies. -/
def gaps : List (List α) → List ℕ
  | [] => []
  | c::cs => (if c.isEmpty then [0] else []) ++ (gaps cs).map (c.length + ·)

variable {c : List α} {cs : List (List α)} {n q : ℕ}

@[simp] theorem advance_zero (cs : List (List α)) : advance cs 0 = cs := by
  cases cs <;> simp [advance]

theorem flatten_advance (cs : List (List α)) (n : ℕ) :
    (advance cs n).flatten = cs.flatten.drop n := by
  induction cs generalizing n with
  | nil => simp [advance]
  | cons c cs ih =>
    rw [advance,List.flatten_cons,List.drop_append]
    split_ifs with hzero hle
    · simp [hzero]
    · rw [ih,List.drop_eq_nil_of_le hle,List.nil_append]
    · rw [List.flatten_cons,Nat.sub_eq_zero_of_le (Nat.le_of_not_le hle),List.drop_zero]

theorem advance_add (cs : List (List α)) (m n : ℕ) :
    advance cs (m + n) = advance (advance cs m) n := by
  induction cs generalizing m with
  | nil => simp [advance]
  | cons c cs ih =>
    by_cases hm : m = 0
    · rw [hm,Nat.zero_add,advance_zero]
    · have hsum : m + n ≠ 0 := by omega
      rw [advance,if_neg hsum,advance,if_neg hm]
      by_cases hle : c.length ≤ m
      · rw [if_pos (by omega),if_pos hle,← ih,Nat.sub_add_comm hle]
      · rw [if_neg hle,advance,List.length_drop,List.drop_drop]
        by_cases hn : n = 0
        · rw [if_pos hn,hn,Nat.add_zero,if_neg hle]
        · have hiff : c.length - m ≤ n ↔ c.length ≤ m + n := by omega
          have hsub : n - (c.length - m) = m + n - c.length := by omega
          simp only [if_neg hn,hiff,hsub]

theorem advance_append (ds : List (List α)) (h : n ≤ cs.flatten.length) :
    advance (cs ++ ds) n = advance cs n ++ ds := by
  induction cs generalizing n with
  | nil =>
    obtain rfl := Nat.le_zero.mp h
    simp [advance]
  | cons c cs ih =>
    rw [List.flatten_cons,List.length_append] at h
    rw [List.cons_append,advance,advance]
    split_ifs with hzero hle
    · rfl
    · exact ih (by omega)
    · rfl

theorem advance_full (h : ∀ c ∈ cs, c ≠ []) (n : ℕ) : ∀ c ∈ advance cs n, c ≠ [] := by
  induction cs generalizing n with
  | nil => simp [advance]
  | cons c cs ih =>
    have hrest := (List.forall_mem_cons.mp h).2
    rw [advance]
    split_ifs with hzero hle
    · exact h
    · exact ih hrest _
    · refine List.forall_mem_cons.mpr ⟨?_,hrest⟩
      rw [ne_eq,List.drop_eq_nil_iff]
      exact hle

theorem mem_gaps_cons : q ∈ gaps (c::cs) ↔ c = [] ∧ q = 0 ∨ ∃ g ∈ gaps cs, c.length + g = q := by
  simp only [gaps,List.mem_append,List.mem_map,List.isEmpty_iff]
  split_ifs with hc <;> simp [hc]

theorem zero_mem_gaps : 0 ∈ gaps (c::cs) ↔ c = [] := by
  rw [mem_gaps_cons]
  constructor
  · rintro (⟨hc,-⟩ | ⟨g,-,hg⟩)
    · exact hc
    · exact List.length_eq_zero_iff.mp (by omega)
  · exact fun hc => Or.inl ⟨hc,rfl⟩

theorem mem_gaps_advance (cs : List (List α)) (n q : ℕ) :
    q ∈ gaps (advance cs n) ↔ n + q ∈ gaps cs := by
  induction cs generalizing n with
  | nil => simp [advance,gaps]
  | cons c cs ih =>
    rw [advance]
    split_ifs with hzero hle
    · rw [hzero,Nat.zero_add]
    · rw [ih,mem_gaps_cons]
      constructor
      · exact fun hq => Or.inr ⟨_,hq,by omega⟩
      · rintro (⟨-,hq⟩ | ⟨g,hg,hq⟩)
        · omega
        · rwa [show n - c.length + q = g by omega]
    · have hdrop : c.drop n ≠ [] := by
        rw [ne_eq,List.drop_eq_nil_iff]
        exact hle
      have hc : c ≠ [] := by
        rintro rfl
        exact hle (Nat.zero_le n)
      simp only [mem_gaps_cons,hdrop,hc,false_and,false_or,List.length_drop]
      constructor
      · rintro ⟨g,hg,hq⟩
        exact ⟨g,hg,by omega⟩
      · rintro ⟨g,hg,hq⟩
        exact ⟨g,hg,by omega⟩

end Chunks
end Library
end Minnow
