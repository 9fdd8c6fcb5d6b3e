import Mathlib.Tactic

/-! Double-ended queues with references to their elements. A reference stays good while
elements are added at the back and taken from the front, until its own element is taken:
it is the number of the element, counted over everything the queue ever held. -/
namespace Minnow
namespace Library

universe u v

variable {α : Type u} {κ : Type v}

structure Deque (α : Type u) where
  popped : ℕ
  nodes : List α
  deriving DecidableEq, Repr

namespace Deque

variable {q : Deque α} {x : α} {i : ℕ}

def empty : Deque α := ⟨0,[]⟩

def next (q : Deque α) : ℕ := q.popped + q.nodes.length

def pushBack (q : Deque α) (x : α) : Deque α := { q with nodes := q.nodes ++ [x] }

def popFront (q : Deque α) : Deque α := ⟨q.popped + 1,q.nodes.tail⟩

/-- What a reference points at; nothing once the element is gone. -/
def deref (q : Deque α) (i : ℕ) : Option α :=
  if i < q.popped then none else q.nodes[i - q.popped]?

@[simp] theorem deref_empty (i : ℕ) : (empty : Deque α).deref i = none := rfl

theorem deref_of_lt (h : i < q.popped) : q.deref i = none := by rw [deref,if_pos h]

theorem deref_of_le (h : q.popped ≤ i) : q.deref i = q.nodes[i - q.popped]? := by
  rw [deref,if_neg (by omega)]

theorem deref_of_next_le (h : q.next ≤ i) : q.deref i = none := by
  unfold next at h
  rw [deref_of_le (by omega)]
  exact List.getElem?_eq_none (by omega)

theorem deref_pushBack (q : Deque α) (x : α) (i : ℕ) :
    (q.pushBack x).deref i = if i = q.next then some x else q.deref i := by
  unfold next
  rcases Nat.lt_or_ge i q.popped with hlow | hlow
  · rw [deref_of_lt hlow,deref_of_lt (q := q.pushBack x) hlow,if_neg (by omega)]
  · rw [deref_of_le hlow,deref_of_le (q := q.pushBack x) hlow]
    change (q.nodes ++ [x])[i - q.popped]? = _
    rw [List.getElem?_append]
    split_ifs with hin heq heq
    · omega
    · rfl
    · simp [heq]
    · rw [List.getElem?_eq_none (by simp; omega),List.getElem?_eq_none (by omega)]

theorem deref_popFront (h : q.nodes ≠ []) (i : ℕ) :
    q.popFront.deref i = if i = q.popped then none else q.deref i := by
  obtain ⟨x,xs,hx⟩ := List.exists_cons_of_ne_nil h
  rcases Nat.lt_or_ge q.popped i with hgt | hle
  · obtain ⟨d,rfl⟩ := Nat.exists_eq_add_of_lt hgt
    rw [if_neg (by omega),deref_of_le hgt.le,deref_of_le (q := q.popFront) hgt]
    change q.nodes.tail[q.popped + d + 1 - (q.popped + 1)]? = _
    rw [hx,show q.popped + d + 1 - (q.popped + 1) = d by omega,
      show q.popped + d + 1 - q.popped = d + 1 by omega,List.tail_cons,List.getElem?_cons_succ]
  · rw [deref_of_lt (q := q.popFront) (Nat.lt_succ_of_le hle)]
    split_ifs with heq
    · rfl
    · rw [deref_of_lt (by omega)]

theorem deref_popped {xs : List α} (h : q.nodes = x::xs) : q.deref q.popped = some x := by
  simp [deref,h]

theorem mem_of_deref (h : q.deref i = some x) : x ∈ q.nodes := by
  unfold deref at h
  split_ifs at h
  exact List.mem_of_getElem? h

theorem deref_add (q : Deque α) (j : ℕ) : q.deref (q.popped + j) = q.nodes[j]? := by
  rw [deref_of_le (by omega),Nat.add_sub_cancel_left]

end Deque

/-- `ref` is an index of the queue by the keys of its elements: it refers to exactly
the elements that are there. In particular there is one element for each key at most. -/
def Indexes (key : α → κ) (q : Deque α) (ref : κ → Option ℕ) : Prop :=
  ∀ k i, ref k = some i ↔ ∃ x, q.deref i = some x ∧ key x = k

namespace Indexes

variable {key : α → κ} {q : Deque α} {ref : κ → Option ℕ} {k : κ} {i : ℕ}

theorem empty (key : α → κ) : Indexes key Deque.empty fun _ => none := by
  intro k i
  simp

theorem deref (h : Indexes key q ref) (hk : ref k = some i) :
    ∃ x, q.deref i = some x ∧ key x = k := (h k i).mp hk

theorem ne_none_iff (h : Indexes key q ref) (k : κ) : ref k ≠ none ↔ ∃ x ∈ q.nodes, key x = k := by
  constructor
  · intro hk
    obtain ⟨i,hi⟩ := Option.ne_none_iff_exists'.mp hk
    obtain ⟨x,hx,hkey⟩ := h.deref hi
    exact ⟨x,Deque.mem_of_deref hx,hkey⟩
  · rintro ⟨x,hx,hkey⟩
    obtain ⟨j,hj⟩ := List.getElem?_of_mem hx
    have href := (h k (q.popped + j)).mpr ⟨x,(q.deref_add j).trans hj,hkey⟩
    simp [href]

theorem unique (h : Indexes key q ref) {x y : α} (hx : x ∈ q.nodes) (hy : y ∈ q.nodes)
    (hkey : key x = key y) : x = y := by
  obtain ⟨i,hi⟩ := List.getElem?_of_mem hx
  obtain ⟨j,hj⟩ := List.getElem?_of_mem hy
  have hri := (h (key x) (q.popped + i)).mpr ⟨x,(q.deref_add i).trans hi,rfl⟩
  have hrj := (h (key x) (q.popped + j)).mpr ⟨y,(q.deref_add j).trans hj,hkey.symm⟩
  rw [hri,Option.some.injEq] at hrj
  obtain rfl : i = j := by omega
  exact Option.some.inj (hi.symm.trans hj)

theorem nodup_keys (h : Indexes key q ref) : (q.nodes.map key).Nodup := by
  rw [List.nodup_iff_getElem?_ne_getElem?]
  intro i j hij hj heq
  rw [List.length_map] at hj
  rw [List.getElem?_map,List.getElem?_map,List.getElem?_eq_getElem (by omega),
    List.getElem?_eq_getElem hj,Option.map_some,Option.map_some,Option.some.injEq] at heq
  have hri := (h (key q.nodes[j]) (q.popped + i)).mpr
    ⟨_,(q.deref_add i).trans (List.getElem?_eq_getElem (by omega)),heq⟩
  have hrj := (h (key q.nodes[j]) (q.popped + j)).mpr
    ⟨_,(q.deref_add j).trans (List.getElem?_eq_getElem hj),rfl⟩
  rw [hri,Option.some.injEq] at hrj
  omega

variable [DecidableEq κ]

theorem pushBack (h : Indexes key q ref) (x : α) (hx : ref (key x) = none) :
    Indexes key (q.pushBack x) (Function.update ref (key x) (some q.next)) := by
  intro k i
  rw [Deque.deref_pushBack]
  by_cases hk : k = key x
  · subst hk
    rw [Function.update_self]
    constructor
    · intro hi
      rw [if_pos (Option.some.inj hi).symm]
      exact ⟨x,rfl,rfl⟩
    · rintro ⟨y,hy,hkey⟩
      split_ifs at hy with hi
      · rw [hi]
      · have hold := (h (key x) i).mpr ⟨y,hy,hkey⟩
        rw [hx] at hold
        cases hold
  · rw [Function.update_of_ne hk,h k i]
    constructor
    · rintro ⟨y,hy,hkey⟩
      refine ⟨y,?_,hkey⟩
      rw [if_neg,hy]
      rintro rfl
      rw [Deque.deref_of_next_le le_rfl] at hy
      cases hy
    · rintro ⟨y,hy,hkey⟩
      split_ifs at hy
      · rw [← hkey,Option.some.inj hy] at hk
        exact absurd rfl hk
      · exact ⟨y,hy,hkey⟩

theorem popFront (h : Indexes key q ref) {x : α} {xs : List α} (hx : q.nodes = x::xs) :
    Indexes key q.popFront (Function.update ref (key x) none) := by
  have hfront := Deque.deref_popped hx
  have href : ref (key x) = some q.popped := (h _ _).mpr ⟨x,hfront,rfl⟩
  intro k i
  rw [Deque.deref_popFront (by simp [hx])]
  by_cases hk : k = key x
  · subst hk
    rw [Function.update_self]
    constructor
    · intro hi
      cases hi
    · rintro ⟨y,hy,hkey⟩
      split_ifs at hy with hi
      have hold := (h _ i).mpr ⟨y,hy,hkey⟩
      exact absurd (Option.some.inj (hold.symm.trans href)) hi
  · rw [Function.update_of_ne hk,h k i]
    constructor
    · rintro ⟨y,hy,hkey⟩
      refine ⟨y,?_,hkey⟩
      rw [if_neg,hy]
      rintro rfl
      exact hk (hkey.symm.trans (congrArg key (Option.some.inj (hy.symm.trans hfront))))
    · rintro ⟨y,hy,hkey⟩
      split_ifs at hy
      exact ⟨y,hy,hkey⟩

end Indexes
end Library
end Minnow
