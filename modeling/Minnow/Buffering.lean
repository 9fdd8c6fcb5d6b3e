import Minnow.Buffers

/-! Reading from buffers against reading plain bytes. The two agree as far as no empty buffer lies
in front of a byte that is looked at. -/
namespace Minnow
namespace Parser

open Library

/-- A call, with what the variable or the span to be filled holds before. -/
inductive Call : Type 1
  | integer {T : Type} [UnsignedIntegral T] (out : T)
  | string (out : List Byte)
  | removePrefix (n : ℕ)

inductive Value
  | number (n : ℕ)
  | chars (out : List Byte)
  | nothing
  deriving DecidableEq, Repr

def call (p : Parser) : Call → Except Stop (Value × Parser)
  | @Call.integer _ _ out =>
    match p.integer out with
    | .error e => .error e
    | .ok (x,p) => .ok (.number (UnsignedIntegral.toNat x),p)
  | .string out =>
    match p.string out with
    | .error e => .error e
    | .ok (out,p) => .ok (.chars out,p)
  | .removePrefix n => .ok (.nothing,p.removePrefix n)

def calls : List Call → Parser → Except Stop (List Value × Parser)
  | [], p => .ok ([],p)
  | x::xs, p => do
    let (value,p) ← p.call x
    let (values,p) ← calls xs p
    return (value::values,p)

/-- All that can be seen of a parser after some calls. -/
structure Outcome where
  values : List Value
  error : Bool
  remaining : List Byte
  deriving DecidableEq, Repr

def outcome (xs : List Call) (buffers : List Buffer) : Except Stop Outcome := do
  let (values,p) ← calls xs (new buffers)
  let remaining ← p.allRemaining
  return ⟨values,p.error,remaining.flatten⟩

def Call.size : Call → ℕ
  | @Call.integer T _ _ => UnsignedIntegral.size T
  | .string out => out.length
  | .removePrefix _ => 0

/-- A reader at the offset `pos` of some bytes. -/
structure Cursor where
  pos : ℕ
  error : Bool
  deriving DecidableEq, Repr

namespace Cursor

def start : Cursor := ⟨0,false⟩

def grants (c : Cursor) (total size : ℕ) : Bool := !c.error && decide (c.pos + size ≤ total)

def read (bytes : List Byte) (c : Cursor) : Call → Value × Cursor
  | @Call.integer T _ out =>
    if c.grants bytes.length (UnsignedIntegral.size T) then
      let w := (bytes.drop c.pos).take (UnsignedIntegral.size T)
      (.number (UnsignedIntegral.toNat (UnsignedIntegral.ofNat (BigEndian.value w) : T)),
        { c with pos := c.pos + UnsignedIntegral.size T })
    else (.number (UnsignedIntegral.toNat out),{ c with error := true })
  | .string out =>
    if c.grants bytes.length out.length then
      (.chars ((bytes.drop c.pos).take out.length),{ c with pos := c.pos + out.length })
    else (.chars out,{ c with error := true })
  | .removePrefix n => (.nothing,{ c with pos := min (c.pos + n) bytes.length })

def reads (bytes : List Byte) : List Call → Cursor → List Value × Cursor
  | [], c => ([],c)
  | x::xs, c =>
    let (value,c) := c.read bytes x
    let (values,c) := reads bytes xs c
    (value::values,c)

/-- The offsets of the bytes that a call looks at. -/
def looksAt (total : ℕ) (c : Cursor) (x : Call) : List ℕ :=
  if c.grants total x.size then List.range' c.pos x.size else []

def offsets (bytes : List Byte) : List Call → Cursor → List ℕ
  | [], _ => []
  | x::xs, c => c.looksAt bytes.length x ++ offsets bytes xs (c.read bytes x).2

end Cursor

def plainOutcome (xs : List Call) (bytes : List Byte) : Outcome :=
  let (values,c) := Cursor.reads bytes xs Cursor.start
  ⟨values,c.error,bytes.drop c.pos⟩

/-- No empty buffer lies directly in front of a byte that an integer or a string takes. -/
def Unobstructed (xs : List Call) (buffers : List Buffer) : Prop :=
  ∀ q ∈ Chunks.gaps buffers, q ∉ Cursor.offsets buffers.flatten xs Cursor.start

instance (xs : List Call) (buffers : List Buffer) : Decidable (Unobstructed xs buffers) := by
  unfold Unobstructed; infer_instance

variable {p p' p'' : Parser} {buffers : List Buffer} {c : Cursor} {x : Call} {k m n left fuel : ℕ}

/-- The parser has gone on by `n` bytes. -/
structure Advanced (p p' : Parser) (n : ℕ) : Prop where
  wf : p'.input.WF
  unread : p'.input.unread = Chunks.advance p.input.unread n
  error : p'.error = p.error

theorem advanced_removePrefix (h : p.input.WF) (n : ℕ) : Advanced p (p.removePrefix n) n :=
  ⟨(h.removePrefix n).1,(h.removePrefix n).2,rfl⟩

theorem Advanced.trans (h : Advanced p p' m) (h' : Advanced p' p'' n) : Advanced p p'' (m + n) :=
  ⟨h'.wf,by rw [h'.unread,h.unread,Chunks.advance_add],h'.error.trans h.error⟩

theorem Advanced.flatten (h : Advanced p p' n) :
    p'.input.unread.flatten = p.input.unread.flatten.drop n := by
  rw [h.unread,Chunks.flatten_advance]

theorem Advanced.mem_gaps (h : Advanced p p' n) (q : ℕ) :
    q ∈ Chunks.gaps p'.input.unread ↔ n + q ∈ Chunks.gaps p.input.unread := by
  rw [h.unread,Chunks.mem_gaps_advance]

theorem peek_unread (hlen : 0 < p.input.unread.flatten.length) : ∃ b rest,
    p.input.unread = b::rest ∧ p.input.peek = .ok b ∧ (b = [] ↔ 0 ∈ Chunks.gaps p.input.unread) := by
  cases hu : p.input.unread with
  | nil => simp [hu] at hlen
  | cons b rest => exact ⟨b,rest,rfl,BufferList.peek_eq hu,Chunks.zero_mem_gaps.symm⟩

theorem shiftBytes_clear (h : p.input.WF) (hlen : k ≤ p.input.unread.flatten.length)
    (hgaps : ∀ q < k, q ∉ Chunks.gaps p.input.unread) (out : ℕ) :
    ∃ p', p.shiftBytes k out = .ok (BigEndian.shiftIn out (p.input.unread.flatten.take k),p') ∧
      Advanced p p' k := by
  induction k generalizing p out with
  | zero => exact ⟨p,by simp [shiftBytes],h,by simp,rfl⟩
  | succ k ih =>
    obtain ⟨b,rest,hunread,hpeek,hempty⟩ := peek_unread (p := p) (by omega)
    obtain ⟨a,b,rfl⟩ := List.exists_cons_of_ne_nil fun hb => hgaps 0 (by omega) (hempty.mp hb)
    have hone := advanced_removePrefix h 1
    obtain ⟨p',hrun,hp'⟩ := ih hone.wf
      (by rw [hone.flatten,List.length_drop]; omega)
      (fun q hq => by rw [hone.mem_gaps]; exact hgaps (1 + q) (by omega))
      ((out <<< 8) ||| a.toNat)
    refine ⟨p',?_,by rw [Nat.add_comm]; exact hone.trans hp'⟩
    rw [shiftBytes,hpeek]
    simp only
    rw [hrun,hone.flatten,hunread]
    rfl

theorem shiftBytes_blocked (h : p.input.WF) (hlen : k ≤ p.input.unread.flatten.length) {q : ℕ}
    (hq : q < k) (hgap : q ∈ Chunks.gaps p.input.unread) (out : ℕ) :
    ∃ e, p.shiftBytes k out = .error e := by
  induction k generalizing p out q with
  | zero => omega
  | succ k ih =>
    obtain ⟨b,rest,hunread,hpeek,hempty⟩ := peek_unread (p := p) (by omega)
    cases b with
    | nil => exact ⟨_,by rw [shiftBytes,hpeek]⟩
    | cons a b =>
      have hone := advanced_removePrefix h 1
      have hpos : q ≠ 0 := by
        rintro rfl
        simp at hempty
        exact hempty hgap
      rw [shiftBytes,hpeek]
      exact ih hone.wf (by rw [hone.flatten,List.length_drop]; omega) (q := q - 1) (by omega)
        (by rw [hone.mem_gaps,show 1 + (q - 1) = q by omega]; exact hgap) _

theorem copyLoop_clear (h : p.input.WF) (hlen : left ≤ p.input.unread.flatten.length)
    (hgaps : ∀ q < left, q ∉ Chunks.gaps p.input.unread) (hfuel : left ≤ fuel) (out : List Byte) :
    ∃ p', copyLoop fuel left out p = .ok (out ++ p.input.unread.flatten.take left,p') ∧
      Advanced p p' left := by
  induction fuel generalizing p left out with
  | zero =>
    obtain rfl := Nat.le_zero.mp hfuel
    exact ⟨p,by simp [copyLoop],h,by simp,rfl⟩
  | succ fuel ih =>
    by_cases hzero : left = 0
    · subst hzero
      exact ⟨p,by simp [copyLoop],h,by simp,rfl⟩
    · obtain ⟨b,rest,hunread,hpeek,hempty⟩ := peek_unread (p := p) (by omega)
      have hb : 0 < b.length :=
        List.length_pos_iff.mpr fun hb => hgaps 0 (by omega) (hempty.mp hb)
      have hview := advanced_removePrefix h (b.take left).length
      have htake : (b.take left).length = min left b.length := List.length_take
      obtain ⟨p',hrun,hp'⟩ := ih hview.wf
        (show left - (b.take left).length ≤ _ by rw [hview.flatten,List.length_drop]; omega)
        (fun q hq => by
          rw [hview.mem_gaps]
          exact hgaps _ (by omega))
        (by omega) (out ++ b.take left)
      have hsum : (b.take left).length + (left - (b.take left).length) = left := by omega
      have hfront : b.take left = p.input.unread.flatten.take (b.take left).length := by
        rw [hunread,List.flatten_cons,List.take_append_of_le_length (by omega),htake,
          ← List.take_eq_take_min]
      refine ⟨p',?_,?_⟩
      · rw [copyLoop,if_neg hzero,hpeek]
        simp only
        rw [hrun,hview.flatten,List.append_assoc]
        nth_rewrite 1 [hfront]
        rw [← List.take_add,hsum]
      · have hadvanced := hview.trans hp'
        rwa [hsum] at hadvanced

/-- In front of an empty buffer the loop stays where it is. -/
theorem copyLoop_stuck (hpeek : p.input.peek = .ok []) (hleft : left ≠ 0) (fuel : ℕ)
    (out : List Byte) : copyLoop fuel left out p = .error (.fault .nontermination) := by
  induction fuel with
  | zero => rw [copyLoop,if_neg hleft]
  | succ fuel ih =>
    have hstay : p.removePrefix 0 = p := by
      simp only [removePrefix,BufferList.removePrefix,BufferList.removeLoop_zero]
    rw [copyLoop,if_neg hleft,hpeek]
    simpa [hstay] using ih

theorem copyLoop_blocked (h : p.input.WF) (hlen : left ≤ p.input.unread.flatten.length) {q : ℕ}
    (hq : q < left) (hgap : q ∈ Chunks.gaps p.input.unread) (fuel : ℕ) (out : List Byte) :
    ∃ e, copyLoop fuel left out p = .error e := by
  induction fuel generalizing p left out q with
  | zero => exact ⟨_,by rw [copyLoop,if_neg (by omega)]⟩
  | succ fuel ih =>
    obtain ⟨b,rest,hunread,hpeek,hempty⟩ := peek_unread (p := p) (by omega)
    by_cases hb : b = []
    · exact ⟨_,copyLoop_stuck (hb ▸ hpeek) (by omega) _ _⟩
    · have hview := advanced_removePrefix h (b.take left).length
      have htake : (b.take left).length = min left b.length := List.length_take
      -- there is no gap inside of the first buffer
      have hbehind : b.length ≤ q := by
        rw [hunread,Chunks.mem_gaps_cons] at hgap
        rcases hgap with ⟨hnil,-⟩ | ⟨g,-,hg⟩
        · exact absurd hnil hb
        · omega
      rw [copyLoop,if_neg (by omega),hpeek]
      exact ih hview.wf (by rw [hview.flatten,List.length_drop]; omega)
        (q := q - (b.take left).length) (by omega)
        (by rw [hview.mem_gaps,show (b.take left).length + (q - (b.take left).length) = q by omega]
            exact hgap) _

structure Tracks (buffers : List Buffer) (p : Parser) (c : Cursor) : Prop where
  wf : p.input.WF
  pos : c.pos ≤ buffers.flatten.length
  bytes : p.input.unread.flatten = buffers.flatten.drop c.pos
  gaps : ∀ q, c.pos + q < buffers.flatten.length →
    (q ∈ Chunks.gaps p.input.unread ↔ c.pos + q ∈ Chunks.gaps buffers)
  error : p.error = c.error

theorem new_tracks (buffers : List Buffer) : Tracks buffers (new buffers) Cursor.start := by
  have hunread := BufferList.new_unread buffers
  refine ⟨BufferList.new_wf buffers,Nat.zero_le _,?_,?_,rfl⟩
  · exact congrArg List.flatten hunread
  · intro q _
    rw [show (new buffers).input.unread = buffers from hunread,Cursor.start,Nat.zero_add]

theorem Tracks.length (h : Tracks buffers p c) :
    p.input.unread.flatten.length = buffers.flatten.length - c.pos := by
  rw [h.bytes,List.length_drop]

theorem Tracks.advanced (h : Tracks buffers p c) (hp : Advanced p p' n) :
    Tracks buffers p' { c with pos := min (c.pos + n) buffers.flatten.length } := by
  refine ⟨hp.wf,Nat.min_le_right _ _,?_,?_,hp.error.trans h.error⟩
  · rw [hp.flatten,h.bytes,List.drop_drop]
    simp only
    rcases Nat.le_total (c.pos + n) buffers.flatten.length with hle | hle
    · rw [Nat.min_eq_left hle]
    · rw [Nat.min_eq_right hle,List.drop_eq_nil_of_le hle,List.drop_length]
  · intro q hq
    simp only at hq ⊢
    rw [hp.mem_gaps,h.gaps (n + q) (by omega),show min (c.pos + n) buffers.flatten.length = c.pos + n
      by omega,Nat.add_assoc]

theorem Tracks.taken (h : Tracks buffers p c) (hp : Advanced p p' n)
    (hn : c.pos + n ≤ buffers.flatten.length) : Tracks buffers p' { c with pos := c.pos + n } := by
  have hnext := h.advanced hp
  rwa [Nat.min_eq_left hn] at hnext

theorem Tracks.granted (h : Tracks buffers p c) (hg : c.grants buffers.flatten.length k = true) :
    p.checkSize k = p ∧ p.error = false ∧ c.pos + k ≤ buffers.flatten.length := by
  simp only [Cursor.grants,Bool.and_eq_true,Bool.not_eq_true',decide_eq_true_eq] at hg
  refine ⟨?_,h.error.trans hg.1,hg.2⟩
  rw [checkSize,if_neg]
  rw [h.wf.size,h.length]
  omega

theorem Tracks.refused (h : Tracks buffers p c) (hg : ¬ c.grants buffers.flatten.length k = true) :
    (p.checkSize k).error = true ∧ Tracks buffers (p.checkSize k) { c with error := true } := by
  have herror : (p.checkSize k).error = true := by
    rw [checkSize]
    split_ifs with hshort
    · rfl
    · rw [h.wf.size,h.length] at hshort
      simp only [Cursor.grants,Bool.and_eq_true,Bool.not_eq_true',decide_eq_true_eq,not_and] at hg
      rw [h.error]
      by_contra hnone
      have := h.pos
      have := hg (by simpa using hnone)
      omega
  have hinput : (p.checkSize k).input = p.input := by
    rw [checkSize]
    split_ifs <;> rfl
  refine ⟨herror,?_,h.pos,?_,?_,herror⟩
  · rw [hinput]
    exact h.wf
  · rw [hinput]
    exact h.bytes
  · rw [hinput]
    exact h.gaps

theorem Tracks.clear (h : Tracks buffers p c) (hle : c.pos + k ≤ buffers.flatten.length)
    (hclear : ∀ q ∈ List.range' c.pos k, q ∉ Chunks.gaps buffers) :
    ∀ q < k, q ∉ Chunks.gaps p.input.unread := by
  intro q hq
  rw [h.gaps q (by omega)]
  exact hclear _ (List.mem_range'_1.mpr ⟨by omega,by omega⟩)

theorem Tracks.integer_clear {T : Type} [UnsignedIntegral T] (h : Tracks buffers p c) (out : T)
    (hclear : ∀ q ∈ c.looksAt buffers.flatten.length (.integer out), q ∉ Chunks.gaps buffers) :
    ∃ p', p.call (.integer out) = .ok ((c.read buffers.flatten (.integer out)).1,p') ∧
      Tracks buffers p' (c.read buffers.flatten (.integer out)).2 := by
  by_cases hg : c.grants buffers.flatten.length (UnsignedIntegral.size T) = true
  · obtain ⟨hcheck,herror,hle⟩ := h.granted hg
    have hlooks : c.looksAt buffers.flatten.length (.integer out) =
        List.range' c.pos (UnsignedIntegral.size T) := if_pos hg
    rw [hlooks] at hclear
    obtain ⟨p',hrun,hp'⟩ := shiftBytes_clear h.wf (by rw [h.length]; omega) (h.clear hle hclear) 0
    refine ⟨p',?_,?_⟩
    · rw [h.bytes] at hrun
      simp only [call,integer,hcheck,herror,hrun,Cursor.read,if_pos hg]
      rfl
    · simp only [Cursor.read,if_pos hg]
      exact h.taken hp' hle
  · obtain ⟨herror,hp'⟩ := h.refused hg
    refine ⟨p.checkSize (UnsignedIntegral.size T),?_,?_⟩
    · simp only [call,integer,herror,if_true,Cursor.read,if_neg hg]
    · simp only [Cursor.read,if_neg hg]
      exact hp'

theorem Tracks.string_clear (h : Tracks buffers p c) (out : List Byte)
    (hclear : ∀ q ∈ c.looksAt buffers.flatten.length (.string out), q ∉ Chunks.gaps buffers) :
    ∃ p', p.call (.string out) = .ok ((c.read buffers.flatten (.string out)).1,p') ∧
      Tracks buffers p' (c.read buffers.flatten (.string out)).2 := by
  by_cases hg : c.grants buffers.flatten.length out.length = true
  · obtain ⟨hcheck,herror,hle⟩ := h.granted hg
    have hlooks : c.looksAt buffers.flatten.length (.string out) =
        List.range' c.pos out.length := if_pos hg
    rw [hlooks] at hclear
    obtain ⟨p',hrun,hp'⟩ := copyLoop_clear h.wf (by rw [h.length]; omega) (h.clear hle hclear)
      le_rfl []
    refine ⟨p',?_,?_⟩
    · rw [h.bytes,List.nil_append] at hrun
      simp only [call,string,hcheck,herror,hrun,Cursor.read,if_pos hg]
      rfl
    · simp only [Cursor.read,if_pos hg]
      exact h.taken hp' hle
  · obtain ⟨herror,hp'⟩ := h.refused hg
    refine ⟨p.checkSize out.length,?_,?_⟩
    · simp only [call,string,herror,if_true,Cursor.read,if_neg hg]
    · simp only [Cursor.read,if_neg hg]
      exact hp'

theorem Tracks.call_clear (h : Tracks buffers p c)
    (hclear : ∀ q ∈ c.looksAt buffers.flatten.length x, q ∉ Chunks.gaps buffers) :
    ∃ p', p.call x = .ok ((c.read buffers.flatten x).1,p') ∧
      Tracks buffers p' (c.read buffers.flatten x).2 := by
  cases x with
  | integer out => exact h.integer_clear out hclear
  | string out => exact h.string_clear out hclear
  | removePrefix n => exact ⟨p.removePrefix n,rfl,h.advanced (advanced_removePrefix h.wf n)⟩

theorem Tracks.call_blocked (h : Tracks buffers p c) {q : ℕ}
    (hq : q ∈ c.looksAt buffers.flatten.length x) (hgap : q ∈ Chunks.gaps buffers) :
    ∃ e, p.call x = .error e := by
  rw [Cursor.looksAt] at hq
  split_ifs at hq with hg
  · obtain ⟨hcheck,herror,hle⟩ := h.granted hg
    obtain ⟨hlow,hhigh⟩ := List.mem_range'_1.mp hq
    have hhere : q - c.pos ∈ Chunks.gaps p.input.unread := by
      rw [h.gaps _ (by omega),show c.pos + (q - c.pos) = q by omega]
      exact hgap
    cases x with
    | @integer T _ out =>
      have hsize : (Call.integer out).size = UnsignedIntegral.size T := rfl
      rw [hsize] at hcheck hle hhigh
      obtain ⟨e,hrun⟩ := shiftBytes_blocked h.wf (by rw [h.length]; omega)
        (show q - c.pos < UnsignedIntegral.size T by omega) hhere 0
      exact ⟨e,by simp only [call,integer,hcheck,herror,hrun]; rfl⟩
    | string out =>
      have hsize : (Call.string out).size = out.length := rfl
      rw [hsize] at hcheck hle hhigh
      obtain ⟨e,hrun⟩ := copyLoop_blocked h.wf (by rw [h.length]; omega)
        (show q - c.pos < out.length by omega) hhere out.length []
      exact ⟨e,by simp only [call,string,hcheck,herror,hrun]; rfl⟩
    | removePrefix n =>
      change q < c.pos + 0 at hhigh
      omega
  · simp at hq

variable {xs : List Call}

theorem Tracks.calls_clear (h : Tracks buffers p c)
    (hclear : ∀ q ∈ Cursor.offsets buffers.flatten xs c, q ∉ Chunks.gaps buffers) :
    ∃ p', calls xs p = .ok ((Cursor.reads buffers.flatten xs c).1,p') ∧
      Tracks buffers p' (Cursor.reads buffers.flatten xs c).2 := by
  induction xs generalizing p c with
  | nil => exact ⟨p,rfl,h⟩
  | cons x xs ih =>
    simp only [Cursor.offsets,List.mem_append] at hclear
    obtain ⟨q,hcall,hq⟩ := h.call_clear (x := x) fun q hq => hclear q (Or.inl hq)
    obtain ⟨p',hcalls,hp'⟩ := ih hq fun q hq => hclear q (Or.inr hq)
    refine ⟨p',?_,hp'⟩
    simp only [calls,hcall,hcalls,bind,Except.bind]
    rfl

theorem Tracks.calls_blocked (h : Tracks buffers p c) {q : ℕ}
    (hq : q ∈ Cursor.offsets buffers.flatten xs c) (hgap : q ∈ Chunks.gaps buffers) :
    ∃ e, calls xs p = .error e := by
  induction xs generalizing p c with
  | nil => simp [Cursor.offsets] at hq
  | cons x xs ih =>
    by_cases hclear : ∀ q ∈ c.looksAt buffers.flatten.length x, q ∉ Chunks.gaps buffers
    · obtain ⟨p',hcall,hp'⟩ := h.call_clear hclear
      rw [Cursor.offsets,List.mem_append] at hq
      obtain ⟨e,hcalls⟩ := ih hp' (hq.resolve_left fun hfirst => hclear q hfirst hgap)
      exact ⟨e,by simp only [calls,hcall,hcalls,bind,Except.bind]⟩
    · obtain ⟨q',hq',hgap'⟩ : ∃ q' ∈ c.looksAt buffers.flatten.length x,
          q' ∈ Chunks.gaps buffers := by
        simpa using hclear
      obtain ⟨e,hcall⟩ := h.call_blocked hq' hgap'
      exact ⟨e,by simp only [calls,hcall,bind,Except.bind]⟩

theorem outcome_clear (h : Unobstructed xs buffers) :
    outcome xs buffers = .ok (plainOutcome xs buffers.flatten) := by
  obtain ⟨p',hcalls,hp'⟩ := (new_tracks buffers).calls_clear fun q hq hgap => h q hgap hq
  obtain ⟨bufs,hdump,hbytes⟩ := hp'.wf.dumpAll
  simp only [outcome,hcalls,allRemaining,hdump,bind,Except.bind,pure,Except.pure,hbytes,hp'.bytes,
    hp'.error]
  rfl

theorem outcome_blocked (h : ¬ Unobstructed xs buffers) : ∃ e, outcome xs buffers = .error e := by
  obtain ⟨q,hgap,hq⟩ : ∃ q ∈ Chunks.gaps buffers,
      q ∈ Cursor.offsets buffers.flatten xs Cursor.start := by
    simpa [Unobstructed] using h
  obtain ⟨e,hcalls⟩ := (new_tracks buffers).calls_blocked hq hgap
  exact ⟨e,by simp only [outcome,hcalls,bind,Except.bind]⟩

theorem outcome_ok_iff {o : Outcome} : outcome xs buffers = .ok o ↔
    Unobstructed xs buffers ∧ plainOutcome xs buffers.flatten = o := by
  by_cases h : Unobstructed xs buffers
  · rw [outcome_clear h,Except.ok.injEq]
    exact (and_iff_right h).symm
  · obtain ⟨e,herror⟩ := outcome_blocked h
    simp [herror,h]

/-- Two ways to cut the same bytes give the same for any calls exactly if in neither of them an
empty buffer lies directly in front of a byte that an integer or a string takes. -/
theorem same_outcome_iff {buffers buffers' : List Buffer} (h : buffers.flatten = buffers'.flatten)
    (xs : List Call) : (∃ o, outcome xs buffers = .ok o ∧ outcome xs buffers' = .ok o) ↔
      Unobstructed xs buffers ∧ Unobstructed xs buffers' := by
  simp only [outcome_ok_iff]
  constructor
  · rintro ⟨o,⟨hleft,-⟩,hright,-⟩
    exact ⟨hleft,hright⟩
  · rintro ⟨hleft,hright⟩
    exact ⟨_,⟨hleft,rfl⟩,hright,by rw [h]⟩

/-- Empty buffers before a byte that is skipped, and at the end. -/
theorem same_outcome_iff_skipped : ∃ o,
    outcome [.integer (0 : UInt16),.removePrefix 1,.string [0,0],.integer (7 : UInt8)]
      [[1],[2],[],[3],[4,5],[]] = .ok o ∧
    outcome [.integer (0 : UInt16),.removePrefix 1,.string [0,0],.integer (7 : UInt8)]
      [[1,2,3],[4],[5]] = .ok o := by
  have hbytes : List.flatten [[1],[2],[],[3],[4,5],[]] = List.flatten [[1,2,3],[4],[(5 : Byte)]] :=
    rfl
  apply (same_outcome_iff hbytes _).mpr
  exact ⟨by decide +kernel,by decide +kernel⟩

/-- An empty buffer in front of a byte: the integer looks at the first character of an empty view,
and the string is never filled. -/
theorem empty_buffer_blocks : List.flatten [[],[(5 : Byte)]] = List.flatten [[5]] ∧
    outcome [.integer (0 : UInt8)] [[5]] = .ok ⟨[.number 5],false,[]⟩ ∧
    outcome [.integer (0 : UInt8)] [[],[5]] = .error (.fault .outOfRange) ∧
    outcome [.string [0]] [[5]] = .ok ⟨[.chars [5]],false,[]⟩ ∧
    (∀ fuel, copyLoop fuel 1 [] (new [[],[5]]) = .error (.fault .nontermination)) ∧
    ¬ ∃ o, outcome [.integer (0 : UInt8)] [[],[5]] = .ok o ∧
      outcome [.integer (0 : UInt8)] [[5]] = .ok o := by
  have hfault : outcome [.integer (0 : UInt8)] [[],[5]] = .error (.fault .outOfRange) := by decide
  refine ⟨rfl,by decide,hfault,by decide,fun fuel => copyLoop_stuck rfl one_ne_zero fuel [],?_⟩
  rintro ⟨o,ho,-⟩
  rw [hfault] at ho
  cases ho

end Parser
end Minnow
