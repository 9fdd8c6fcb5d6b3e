import Mathlib.Tactic

/-! Runs of a fallible step function. A run remembers, for every step, the state
it started from, so that conditions on the history are conditions on its events. -/
namespace Minnow
namespace Library

universe u

variable {S O M ε : Type u}

/-- One step of a run: the state before it, the operation, and what it returned. -/
structure Event (S O M : Type u) where
  before : S
  op : O
  out : M

/-- `Run step s₀ tr s`: from `s₀` the steps of `tr` all succeed, and they lead to `s`. -/
inductive Run (step : S → O → Except ε (S × M)) (s₀ : S) : List (Event S O M) → S → Prop
  | nil : Run step s₀ [] s₀
  | snoc {tr : List (Event S O M)} {s s' : S} {o : O} {m : M} :
      Run step s₀ tr s → step s o = .ok (s',m) → Run step s₀ (tr ++ [⟨s,o,m⟩]) s'

/-- Execute a list of operations, recording the events; it stops at the first fault. -/
def exec (step : S → O → Except ε (S × M)) : S → List O → Except ε (List (Event S O M) × S)
  | s, [] => .ok ([],s)
  | s, o::os =>
    match step s o with
    | .error e => .error e
    | .ok (s',m) =>
      match exec step s' os with
      | .error e => .error e
      | .ok (tr,t) => .ok (⟨s,o,m⟩::tr,t)

namespace Run

variable {step : S → O → Except ε (S × M)} {s₀ s : S} {tr : List (Event S O M)}

theorem cons {s' t : S} {o : O} {m : M} (h : step s₀ o = .ok (s',m))
    (hr : Run step s' tr t) : Run step s₀ (⟨s₀,o,m⟩::tr) t := by
  induction hr with
  | nil => exact snoc nil h
  | snoc _ hs ih => exact snoc ih hs

theorem append {t : S} {tr' : List (Event S O M)} (hr : Run step s₀ tr s)
    (hr' : Run step s tr' t) : Run step s₀ (tr ++ tr') t := by
  induction hr' with
  | nil => rwa [List.append_nil]
  | snoc _ hs ih =>
    rw [← List.append_assoc]
    exact snoc ih hs

theorem of_exec {ops : List O} (h : exec step s₀ ops = .ok (tr,s)) : Run step s₀ tr s := by
  induction ops generalizing s₀ tr with
  | nil =>
    simp only [exec,Except.ok.injEq,Prod.mk.injEq] at h
    obtain ⟨rfl,rfl⟩ := h
    exact nil
  | cons o os ih =>
    simp only [exec] at h
    split at h
    · cases h
    · rename_i s' m hs
      split at h
      · cases h
      · rename_i tr' t hx
        simp only [Except.ok.injEq,Prod.mk.injEq] at h
        obtain ⟨rfl,rfl⟩ := h
        exact cons hs (ih hx)

theorem exists_of_exec (step : S → O → Except ε (S × M)) (s₀ : S) (ops : List O)
    (P : List (Event S O M) → S → Prop) [∀ tr s, Decidable (P tr s)]
    (h : (match exec step s₀ ops with
      | .ok (tr,s) => decide (P tr s)
      | .error _ => false) = true) : ∃ tr s, Run step s₀ tr s ∧ P tr s := by
  split at h
  · rename_i tr s hx
    exact ⟨tr,s,of_exec hx,of_decide_eq_true h⟩
  · cases h

/-- An invariant of the history and the state: it holds at the start, and every
step that meets the guard keeps it. -/
theorem history_invariant (inv : List (Event S O M) → S → Prop) (guard : Event S O M → Prop)
    (hinit : inv [] s₀)
    (hstep : ∀ {tr : List (Event S O M)} {s s' : S} {o : O} {m : M}, inv tr s → guard ⟨s,o,m⟩ →
      step s o = .ok (s',m) → inv (tr ++ [⟨s,o,m⟩]) s')
    (hr : Run step s₀ tr s) (hg : ∀ e ∈ tr, guard e) : inv tr s := by
  induction hr with
  | nil => exact hinit
  | snoc _ hs ih =>
    have hprev := ih fun e he => hg e (List.mem_append_left _ he)
    exact hstep hprev (hg _ (by simp)) hs

theorem invariant (inv : S → Prop) (guard : Event S O M → Prop) (hinit : inv s₀)
    (hstep : ∀ {s s' : S} {o : O} {m : M}, inv s → guard ⟨s,o,m⟩ →
      step s o = .ok (s',m) → inv s')
    (hr : Run step s₀ tr s) (hg : ∀ e ∈ tr, guard e) : inv s :=
  history_invariant (fun _ => inv) guard hinit (fun hi hg hs => hstep hi hg hs) hr hg

theorem forall_events (inv : S → Prop) (guard good : Event S O M → Prop) (hinit : inv s₀)
    (hstep : ∀ {s s' : S} {o : O} {m : M}, inv s → guard ⟨s,o,m⟩ →
      step s o = .ok (s',m) → inv s' ∧ good ⟨s,o,m⟩)
    (hr : Run step s₀ tr s) (hg : ∀ e ∈ tr, guard e) : inv s ∧ ∀ e ∈ tr, good e := by
  refine history_invariant (fun tr s => inv s ∧ ∀ e ∈ tr, good e) guard
    ⟨hinit,by simp⟩ ?_ hr hg
  rintro tr s s' o m ⟨hi,hall⟩ hguard hs
  obtain ⟨hi',hgood⟩ := hstep hi hguard hs
  refine ⟨hi',?_⟩
  intro e he
  rcases List.mem_append.mp he with he | he
  · exact hall e he
  · rw [List.mem_singleton.mp he]
    exact hgood

theorem monotone (inv : S → Prop) (guard : Event S O M → Prop) (R : S → S → Prop)
    (htrans : ∀ {s s' s'' : S}, R s s' → R s' s'' → R s s'') (hinit : inv s₀)
    (hstep : ∀ {s s' : S} {o : O} {m : M}, inv s → guard ⟨s,o,m⟩ →
      step s o = .ok (s',m) → inv s' ∧ R s s')
    (hr : Run step s₀ tr s) (hg : ∀ e ∈ tr, guard e) :
    inv s ∧ (∀ e ∈ tr, R e.before s) ∧ tr.Pairwise fun e₁ e₂ => R e₁.before e₂.before := by
  refine history_invariant (fun tr s => inv s ∧ (∀ e ∈ tr, R e.before s) ∧
    tr.Pairwise fun e₁ e₂ => R e₁.before e₂.before) guard ⟨hinit,by simp,.nil⟩ ?_ hr hg
  rintro tr s s' o m ⟨hi,hlast,hpairs⟩ hguard hs
  obtain ⟨hi',hgrow⟩ := hstep hi hguard hs
  refine ⟨hi',?_,?_⟩
  · intro e he
    rcases List.mem_append.mp he with he | he
    · exact htrans (hlast e he) hgrow
    · rw [List.mem_singleton.mp he]
      exact hgrow
  · refine List.pairwise_append.mpr ⟨hpairs,by simp,?_⟩
    intro e he e' he'
    rw [List.mem_singleton.mp he']
    exact hlast e he

theorem unique {s' : S} (hr : Run step s₀ tr s) (hr' : Run step s₀ tr s') : s = s' := by
  cases hr with
  | nil =>
    generalize htr : [] = tr at hr'
    cases hr' with
    | nil => rfl
    | snoc _ _ => simp at htr
  | @snoc tr₁ s₁ _ o m hprev hs =>
    generalize htr : tr₁ ++ [⟨s₁,o,m⟩] = tr at hr'
    cases hr' with
    | nil => simp at htr
    | @snoc tr₂ s₂ _ o' m' _ hs' =>
      obtain ⟨-,he⟩ := List.append_inj' htr rfl
      simp only [List.cons.injEq,Event.mk.injEq,and_true] at he
      obtain ⟨rfl,rfl,rfl⟩ := he
      rw [hs] at hs'
      exact (Prod.mk.inj (Except.ok.inj hs')).1

/-- Every event of a run starts at a state that a prefix of the run reaches. -/
theorem to_event {tr₁ tr₂ : List (Event S O M)} {e : Event S O M}
    (hr : Run step s₀ (tr₁ ++ e::tr₂) s) : Run step s₀ tr₁ e.before := by
  generalize htr : tr₁ ++ e::tr₂ = tr at hr
  induction hr generalizing tr₂ with
  | nil => simp at htr
  | @snoc tr' s' _ o m hprev hs ih =>
    rcases List.eq_nil_or_concat tr₂ with rfl | ⟨init,last,rfl⟩
    · obtain ⟨rfl,he⟩ := List.append_inj' htr rfl
      simp only [List.cons.injEq,and_true] at he
      subst he
      exact hprev
    · have hcut : (tr₁ ++ e::init) ++ [last] = tr' ++ [⟨s',o,m⟩] := by
        simpa [List.concat_eq_append] using htr
      exact ih (List.append_inj' hcut rfl).1

theorem last {e : Event S O M} {s' : S} (hr : Run step s₀ (tr ++ [e]) s') :
    step e.before e.op = .ok (s',e.out) := by
  generalize htr : tr ++ [e] = tr' at hr
  cases hr with
  | nil => simp at htr
  | snoc _ hs =>
    obtain ⟨-,he⟩ := List.append_inj' htr rfl
    simp only [List.cons.injEq,and_true] at he
    subst he
    exact hs

theorem succeeds (hr : Run step s₀ tr s) :
    ∀ e ∈ tr, ∃ s', step e.before e.op = .ok (s',e.out) :=
  (forall_events (fun _ => True) (fun _ => True)
    (fun e => ∃ s', step e.before e.op = .ok (s',e.out)) trivial
    (fun _ _ hs => ⟨trivial,_,hs⟩) hr fun _ _ => trivial).2

end Run

/-- Steps that satisfy `P` lead from one state to another. -/
def Reaches (step : S → O → Except ε (S × M)) (P : S → O → Prop) (s s' : S) : Prop :=
  ∃ tr, Run step s tr s' ∧ ∀ e ∈ tr, P e.before e.op

namespace Reaches

variable {step : S → O → Except ε (S × M)} {P : S → O → Prop} {s s' s'' : S}

theorem refl (step : S → O → Except ε (S × M)) (P : S → O → Prop) (s : S) : Reaches step P s s :=
  ⟨[],.nil,by simp⟩

theorem single {o : O} {m : M} (h : step s o = .ok (s',m)) (ho : P s o) : Reaches step P s s' :=
  ⟨[⟨s,o,m⟩],.snoc .nil h,by simpa using ho⟩

theorem trans (h : Reaches step P s s') (h' : Reaches step P s' s'') : Reaches step P s s'' := by
  obtain ⟨tr,hr,hP⟩ := h
  obtain ⟨tr',hr',hP'⟩ := h'
  refine ⟨tr ++ tr',hr.append hr',?_⟩
  intro e he
  rcases List.mem_append.mp he with he | he
  · exact hP e he
  · exact hP' e he

theorem mono {Q : S → O → Prop} (h : Reaches step P s s') (himp : ∀ s o, P s o → Q s o) :
    Reaches step Q s s' := by
  obtain ⟨tr,hr,hP⟩ := h
  exact ⟨tr,hr,fun e he => himp e.before e.op (hP e he)⟩

theorem invariant (inv : S → Prop)
    (hstep : ∀ {s s' : S} {o : O} {m : M}, inv s → P s o → step s o = .ok (s',m) → inv s')
    (h : Reaches step P s s') (hs : inv s) : inv s' := by
  obtain ⟨tr,hr,hP⟩ := h
  exact hr.invariant inv (fun e => P e.before e.op) hs hstep hP

end Reaches

universe v

variable {Q : Type v}

/-- A machine that never fails, with the outputs it gives. -/
def simulate (a : Q → O → Q × M) (q₀ : Q) (ops : List O) : Q × List M :=
  ops.foldl (fun r o => ((a r.1 o).1,r.2 ++ [(a r.1 o).2])) (q₀,[])

@[simp] theorem simulate_nil (a : Q → O → Q × M) (q₀ : Q) : simulate a q₀ [] = (q₀,[]) := rfl

@[simp] theorem simulate_snoc (a : Q → O → Q × M) (q₀ : Q) (ops : List O) (o : O) :
    simulate a q₀ (ops ++ [o]) = ((a (simulate a q₀ ops).1 o).1,
      (simulate a q₀ ops).2 ++ [(a (simulate a q₀ ops).1 o).2]) := by
  simp [simulate]

/-- A run whose steps match those of an abstract machine has its outputs. -/
theorem Run.refines {step : S → O → Except ε (S × M)} {s₀ s : S} {tr : List (Event S O M)}
    (a : Q → O → Q × M) (q₀ : Q) (R : Q → S → Prop) (hinit : R q₀ s₀)
    (hstep : ∀ {q : Q} {s s' : S} {o : O} {m : M}, R q s → step s o = .ok (s',m) →
      R (a q o).1 s' ∧ m = (a q o).2)
    (hr : Run step s₀ tr s) :
    R (simulate a q₀ (tr.map Event.op)).1 s ∧
      tr.map Event.out = (simulate a q₀ (tr.map Event.op)).2 := by
  induction hr with
  | nil => exact ⟨hinit,rfl⟩
  | snoc _ hs ih =>
    obtain ⟨hR,hout⟩ := hstep ih.1 hs
    simp only [List.map_append,List.map_cons,List.map_nil,simulate_snoc]
    exact ⟨hR,by rw [ih.2,hout]⟩

/-- The outputs of a list of operations up to the first fault, and this fault. -/
def answers (step : S → O → Except ε (S × M)) : S → List O → List M × Option ε
  | _, [] => ([],none)
  | s, o::os =>
    match step s o with
    | .error e => ([],some e)
    | .ok (s',m) => (m::(answers step s' os).1,(answers step s' os).2)

/-- The two results are the same fault, or the same output with states that `R` relates. -/
def Agree {T : Type u} (R : S → T → Prop) : Except ε (S × M) → Except ε (T × M) → Prop
  | .ok (s,m), .ok (t,m') => R s t ∧ m = m'
  | .error e, .error e' => e = e'
  | _, _ => False

/-- Machines whose steps agree give the same answers. -/
theorem answers_eq {T : Type u} {step : S → O → Except ε (S × M)}
    {step' : T → O → Except ε (T × M)} (R : S → T → Prop) (good : O → Prop)
    (hstep : ∀ {s : S} {t : T} {o : O}, R s t → good o → Agree R (step s o) (step' t o))
    {s : S} {t : T} (hR : R s t) {ops : List O} (hops : ∀ o ∈ ops, good o) :
    answers step s ops = answers step' t ops := by
  induction ops generalizing s t with
  | nil => rfl
  | cons o os ih =>
    have hagree := hstep hR (hops o List.mem_cons_self)
    have hrest : ∀ o' ∈ os, good o' := fun o' ho' => hops o' (List.mem_cons_of_mem _ ho')
    cases hs : step s o with
    | error e =>
      cases ht : step' t o with
      | error e' =>
        rw [hs,ht] at hagree
        obtain rfl : e = e' := hagree
        simp only [answers,hs,ht]
      | ok r' =>
        rw [hs,ht] at hagree
        exact hagree.elim
    | ok r =>
      cases ht : step' t o with
      | error e' =>
        rw [hs,ht] at hagree
        exact hagree.elim
      | ok r' =>
        rw [hs,ht] at hagree
        obtain ⟨hR',hout⟩ : R r.1 r'.1 ∧ r.2 = r'.2 := hagree
        simp only [answers,hs,ht,ih hR' hrest,hout]

end Library
end Minnow
