import Mathlib.Data.List.TakeWhile
import Mathlib.Tactic

/-! Queues whose elements expire, against the history of the events that made the elements.
An event takes some time; the age of an event is the time that the events after it take. -/
namespace Minnow
namespace Library

universe u v w

variable {E : Type u} {α : Type v} {κ : Type w}

def elapsed (duration : E → ℕ) (tr : List E) : ℕ := (tr.map duration).sum

@[simp] theorem elapsed_nil (duration : E → ℕ) : elapsed duration [] = 0 := rfl

@[simp] theorem elapsed_append (duration : E → ℕ) (tr tr' : List E) :
    elapsed duration (tr ++ tr') = elapsed duration tr + elapsed duration tr' := by
  simp [elapsed]

@[simp] theorem elapsed_singleton (duration : E → ℕ) (e : E) : elapsed duration [e] = duration e := by
  simp [elapsed]

/-- An event with `q` lies `age` back, and none with `p` came after it. -/
def Since (duration : E → ℕ) (q p : E → Prop) (age : ℕ) (tr : List E) : Prop :=
  ∃ before e after, tr = before ++ e::after ∧ q e ∧ (∀ e' ∈ after, ¬ p e') ∧
    elapsed duration after = age

def Ago (duration : E → ℕ) (q : E → Prop) (age : ℕ) (tr : List E) : Prop :=
  Since duration q (fun _ => False) age tr

section history

variable {duration : E → ℕ} {p q : E → Prop} {age : ℕ} {tr : List E}

theorem not_since_nil : ¬ Since duration q p age [] := by
  rintro ⟨before,e,after,hnil,-⟩
  simp at hnil

theorem since_snoc (e : E) : Since duration q p age (tr ++ [e]) ↔
    q e ∧ age = 0 ∨ ¬ p e ∧ ∃ age', Since duration q p age' tr ∧ age = age' + duration e := by
  constructor
  · rintro ⟨before,e₀,after,htr,hq,hp,rfl⟩
    rcases List.eq_nil_or_concat after with rfl | ⟨init,last,rfl⟩
    · obtain ⟨-,he⟩ := List.append_inj' htr rfl
      obtain rfl := (List.cons.inj he).1
      exact Or.inl ⟨hq,rfl⟩
    · have hcut : tr ++ [e] = (before ++ e₀::init) ++ [last] := by
        simpa [List.concat_eq_append] using htr
      obtain ⟨rfl,he⟩ := List.append_inj' hcut rfl
      obtain rfl := (List.cons.inj he).1
      rw [List.concat_eq_append] at hp ⊢
      refine Or.inr ⟨hp e (by simp),_,⟨before,e₀,init,rfl,hq,?_,rfl⟩,by simp⟩
      exact fun e' he' => hp e' (List.mem_append_left _ he')
  · rintro (⟨hq,rfl⟩ | ⟨hpe,_,⟨before,e₀,after,rfl,hq,hp,rfl⟩,rfl⟩)
    · exact ⟨tr,e,[],rfl,hq,by simp,rfl⟩
    · refine ⟨before,e₀,after ++ [e],by simp,hq,?_,by simp⟩
      intro e' he'
      rcases List.mem_append.mp he' with he' | he'
      · exact hp e' he'
      · rwa [List.mem_singleton.mp he']

theorem Since.same {q' : E → Prop} {age' : ℕ} (h : Since duration q p age tr)
    (h' : Since duration q' p age' tr) (hq : ∀ e, q e → p e) (hq' : ∀ e, q' e → p e) :
    ∃ e ∈ tr, q e ∧ q' e := by
  induction tr using List.reverseRecOn generalizing age age' with
  | nil => exact absurd h not_since_nil
  | append_singleton tr e ih =>
    rcases (since_snoc e).mp h with ⟨hqe,-⟩ | ⟨hpe,a,ha,-⟩
    · rcases (since_snoc e).mp h' with ⟨hqe',-⟩ | ⟨hpe,-⟩
      · exact ⟨e,by simp,hqe,hqe'⟩
      · exact absurd (hq e hqe) hpe
    · rcases (since_snoc e).mp h' with ⟨hqe',-⟩ | ⟨-,a',ha',-⟩
      · exact absurd (hq' e hqe') hpe
      · obtain ⟨e₀,he₀,hboth⟩ := ih ha ha'
        exact ⟨e₀,List.mem_append_left _ he₀,hboth⟩

theorem not_ago_nil : ¬ Ago duration q age [] := not_since_nil

theorem ago_snoc (e : E) : Ago duration q age (tr ++ [e]) ↔
    q e ∧ age = 0 ∨ ∃ age', Ago duration q age' tr ∧ age = age' + duration e := by
  rw [Ago,since_snoc]
  simp [Ago]

end history

section dropWhile

variable {stamp : α → ℕ} {timeout now : ℕ} {expired : α → Bool} {nodes : List α} {x : α}

theorem young_of_mem_dropWhile (hsorted : nodes.Pairwise fun x y => stamp x ≤ stamp y)
    (hyoung : ∀ y ∈ nodes, expired y = false → now < stamp y + timeout)
    (hx : x ∈ nodes.dropWhile expired) : now < stamp x + timeout := by
  have hsuffix := List.dropWhile_suffix (l := nodes) expired
  have hhead := List.head?_dropWhile_not expired nodes
  cases hd : nodes.dropWhile expired with
  | nil =>
    rw [hd] at hx
    simp at hx
  | cons y ys =>
    rw [hd] at hx hsuffix hhead
    have hy := hyoung y (hsuffix.subset List.mem_cons_self) (by simpa using hhead)
    rcases List.mem_cons.mp hx with rfl | hmem
    · exact hy
    · have := (List.pairwise_cons.mp (hsorted.sublist hsuffix.sublist)).1 x hmem
      omega

theorem mem_dropWhile_of_not (hx : x ∈ nodes) (hnot : expired x = false) :
    x ∈ nodes.dropWhile expired := by
  rw [← List.takeWhile_append_dropWhile (p := expired) (l := nodes)] at hx
  rcases List.mem_append.mp hx with hx | hx
  · have := List.mem_takeWhile_imp hx
    simp [hnot] at this
  · exact hx

end dropWhile

/-! The queue and its history. An element with key `k` comes from an event with `made k`. -/

/-- The elements are sorted by their time, and each was made less than `timeout` ago. -/
structure Fresh (duration : E → ℕ) (made : κ → E → Prop) (key : α → κ) (stamp : α → ℕ)
    (timeout now : ℕ) (nodes : List α) (tr : List E) : Prop where
  sorted : nodes.Pairwise fun x y => stamp x ≤ stamp y
  recent : ∀ x ∈ nodes, ∃ age < timeout, stamp x + age = now ∧ Ago duration (made (key x)) age tr

/-- What was made less than `timeout` ago is there. -/
def Retained (duration : E → ℕ) (made : κ → E → Prop) (key : α → κ) (stamp : α → ℕ)
    (timeout now : ℕ) (nodes : List α) (tr : List E) : Prop :=
  ∀ k age, Ago duration (made k) age tr → age < timeout →
    ∃ x ∈ nodes, key x = k ∧ stamp x + age = now

section queue

variable {duration : E → ℕ} {made : κ → E → Prop} {key : α → κ} {stamp : α → ℕ}
  {timeout now : ℕ} {nodes nodes' : List α} {tr : List E} {e : E} {x : α}

theorem Fresh.nil : Fresh duration made key stamp timeout now [] tr := ⟨.nil,by simp⟩

theorem Retained.nil : Retained duration made key stamp timeout now [] [] :=
  fun _ _ hago _ => absurd hago not_ago_nil

/-- Time passes, and elements leave: those that stay are young enough. -/
theorem Fresh.advance (h : Fresh duration made key stamp timeout now nodes tr)
    (hsub : nodes'.Sublist nodes)
    (hyoung : ∀ x ∈ nodes', now + duration e < stamp x + timeout) :
    Fresh duration made key stamp timeout (now + duration e) nodes' (tr ++ [e]) := by
  refine ⟨h.sorted.sublist hsub,?_⟩
  intro x hx
  obtain ⟨age,-,hnow,hago⟩ := h.recent x (hsub.subset hx)
  have := hyoung x hx
  exact ⟨age + duration e,by omega,by omega,(ago_snoc e).mpr (Or.inr ⟨age,hago,rfl⟩)⟩

theorem Retained.advance (h : Retained duration made key stamp timeout now nodes tr)
    (hnone : ∀ k, ¬ made k e)
    (hstay : ∀ x ∈ nodes, now + duration e < stamp x + timeout → x ∈ nodes') :
    Retained duration made key stamp timeout (now + duration e) nodes' (tr ++ [e]) := by
  intro k age hago hlt
  rcases (ago_snoc e).mp hago with ⟨hmade,-⟩ | ⟨age',hago',rfl⟩
  · exact absurd hmade (hnone k)
  · obtain ⟨x,hx,hkey,hnow⟩ := h k age' hago' (by omega)
    exact ⟨x,hstay x hx (by omega),hkey,by omega⟩

theorem Fresh.idle (h : Fresh duration made key stamp timeout now nodes tr)
    (hzero : duration e = 0) : Fresh duration made key stamp timeout now nodes (tr ++ [e]) := by
  refine ⟨h.sorted,?_⟩
  intro x hx
  obtain ⟨age,hlt,hnow,hago⟩ := h.recent x hx
  exact ⟨age,hlt,hnow,(ago_snoc e).mpr (Or.inr ⟨age,hago,by omega⟩)⟩

theorem Retained.idle (h : Retained duration made key stamp timeout now nodes tr)
    (hzero : duration e = 0) (hnone : ∀ k, ¬ made k e) :
    Retained duration made key stamp timeout now nodes (tr ++ [e]) := by
  have hnext : Retained duration made key stamp timeout (now + duration e) nodes (tr ++ [e]) :=
    h.advance hnone fun x hx _ => hx
  rwa [hzero,Nat.add_zero] at hnext

theorem Fresh.push (h : Fresh duration made key stamp timeout now nodes tr) (hzero : duration e = 0)
    (hpos : 0 < timeout) (hmade : made (key x) e) (hstamp : stamp x = now) :
    Fresh duration made key stamp timeout now (nodes ++ [x]) (tr ++ [e]) := by
  have hidle := h.idle (e := e) hzero
  refine ⟨List.pairwise_append.mpr ⟨h.sorted,by simp,?_⟩,?_⟩
  · intro y hy z hz
    obtain ⟨age,-,hnow,-⟩ := h.recent y hy
    rw [List.mem_singleton.mp hz]
    omega
  · intro y hy
    rcases List.mem_append.mp hy with hy | hy
    · exact hidle.recent y hy
    · rw [List.mem_singleton.mp hy]
      exact ⟨0,hpos,by omega,(ago_snoc e).mpr (Or.inl ⟨hmade,rfl⟩)⟩

theorem Retained.push (h : Retained duration made key stamp timeout now nodes tr) (hzero : duration e = 0)
    (hmade : ∀ k, made k e → k = key x) (hstamp : stamp x = now) :
    Retained duration made key stamp timeout now (nodes ++ [x]) (tr ++ [e]) := by
  intro k age hago hlt
  rcases (ago_snoc e).mp hago with ⟨hk,rfl⟩ | ⟨age',hago',rfl⟩
  · exact ⟨x,by simp,(hmade k hk).symm,by omega⟩
  · obtain ⟨y,hy,hkey,hnow⟩ := h k age' hago' (by omega)
    exact ⟨y,List.mem_append_left _ hy,hkey,by omega⟩

end queue

end Library
end Minnow
