import Minnow.Library.Fifo
import Minnow.Library.Run
import Minnow.ByteStream

/-! The byte stream as a bounded queue: every operation does to the bytes what the queue does,
and all copies stay inside of the array. -/
namespace Minnow
namespace ByteStream

open Library

/-- What an operation on the stream could run into. -/
inductive StreamFault
  /-- a copy that leaves the array -/
  | outOfRange
  /-- a `memcpy` between overlapping regions -/
  | overlap
  /-- the array has to grow -/
  | resize
  | thrown (e : RuntimeError)
  | nontermination
  deriving DecidableEq, Repr

def memcpyFrom (array : List Byte) (target : ℕ) (data : List Byte) (n : ℕ) :
    Except StreamFault (List Byte) :=
  if array.length < target + n ∨ data.length < n then .error .outOfRange
  else .ok (overwrite array target (data.take n))

def memcpyWithin (array : List Byte) (target source n : ℕ) : Except StreamFault (List Byte) :=
  if array.length < target + n ∨ array.length < source + n then .error .outOfRange
  else if target < source + n ∧ source < target + n then .error .overlap
  else .ok (overwrite array target (slice array source n))

def moveDown (array : List Byte) (readIndex : ℕ) : ℕ → Except StreamFault (List Byte)
  | 0 => .ok array
  | n+1 =>
    match moveDown array readIndex n with
    | .error e => .error e
    | .ok array' =>
      match array'[n+readIndex]? with
      | none => .error .outOfRange
      | some c => if n < array'.length then .ok (array'.set n c) else .error .outOfRange

namespace Buffer

/-- `push` with every access to the array checked. -/
def pushChecked (b : Buffer) (data : List Byte) (lenPushed : ℕ) : Except StreamFault Buffer :=
  if lenPushed = 0 then .ok b
  else
    let distanceWriteIndexToTail := b.array.length - b.writeIndex
    let distanceHeadToReadIndex := b.readIndex
    if lenPushed ≤ distanceWriteIndexToTail then
      match memcpyFrom b.array b.writeIndex data lenPushed with
      | .error e => .error e
      | .ok array => .ok { b with array := array, writeIndex := b.writeIndex + lenPushed }
    else if distanceHeadToReadIndex + distanceWriteIndexToTail < lenPushed then .error .resize
    else
      let moved := if 0 < b.bytesBuffered ∧ b.bytesBuffered ≤ b.readIndex then
          memcpyWithin b.array 0 b.readIndex b.bytesBuffered
        else moveDown b.array b.readIndex b.bytesBuffered
      match moved with
      | .error e => .error e
      | .ok array =>
        let writeIndex := b.writeIndex - b.readIndex
        match memcpyFrom array writeIndex data lenPushed with
        | .error e => .error e
        | .ok array => .ok { b with
          array := array
          writeIndex := writeIndex + lenPushed
          readIndex := 0 }

end Buffer

def pushChecked (s : ByteStream) (data : List Byte) : Except StreamFault ByteStream :=
  let lenPushed := min data.length s.availableCapacity
  match s.buffer.pushChecked data lenPushed with
  | .error e => .error e
  | .ok buffer => .ok { s with bytesPushed := s.bytesPushed + lenPushed, buffer := buffer }

/-- The loop of `read`; every round takes at least one byte. -/
def readLoop : ℕ → ByteStream → ℕ → List Byte → Except StreamFault (ByteStream × List Byte)
  | 0, _, _, _ => .error .nontermination
  | fuel+1, s, len, out =>
    if s.bytesBuffered ≠ 0 ∧ out.length < len then
      let view := s.peek
      if view = [] then .error (.thrown ⟨"Reader::peek() returned empty string_view"⟩)
      else
        let view := view.take (len - out.length)
        readLoop fuel (s.pop view.length) len (out ++ view)
    else .ok (s,out)

def read (s : ByteStream) (len : ℕ) : Except StreamFault (ByteStream × List Byte) :=
  readLoop (len+1) s len []

def step (s : ByteStream) : Fifo.Op Byte → Except StreamFault (ByteStream × List Byte)
  | .push data => match s.pushChecked data with
    | .error e => .error e
    | .ok s => .ok (s,[])
  | .pop n => .ok (s.pop n,[])
  | .peek => .ok (s,s.peek)
  | .read n => s.read n

abbrev Trace := List (Event ByteStream (Fifo.Op Byte) (List Byte))

variable {s s' : ByteStream} {op : Fifo.Op Byte} {out : List Byte} {tr : Trace} {C : ℕ}

theorem memcpyFrom_ok {array data : List Byte} {target n : ℕ} (hn : n ≤ data.length)
    (hfit : target + n ≤ array.length) :
    memcpyFrom array target data n = .ok (overwrite array target (data.take n)) := by
  rw [memcpyFrom,if_neg (by omega)]

theorem memcpyWithin_ok {array : List Byte} {readIndex n : ℕ} (hapart : n ≤ readIndex)
    (hfit : readIndex + n ≤ array.length) :
    memcpyWithin array 0 readIndex n = .ok (overwrite array 0 (slice array readIndex n)) := by
  rw [memcpyWithin,if_neg (by omega),if_neg (by omega)]

theorem moveDown_ok {array : List Byte} {readIndex n : ℕ} (hfit : readIndex + n ≤ array.length) :
    moveDown array readIndex n = .ok (shiftDown array readIndex n) := by
  induction n with
  | zero => rfl
  | succ n ih =>
    have hlen : (shiftDown array readIndex n).length = array.length := by
      rw [shiftDown_eq _ _ _ (by omega)]
      exact overwrite_length (by rw [slice_length (by omega)]; omega)
    have hread : n + readIndex < (shiftDown array readIndex n).length := by omega
    simp only [moveDown,ih (by omega),shiftDown,List.getElem?_eq_getElem hread]
    rw [if_pos (by omega)]

theorem Buffer.pushChecked_ok {b : Buffer} (h : b.WF) {data : List Byte} {len : ℕ}
    (hdata : len ≤ data.length) (hcap : len ≤ b.availableCapacity) :
    b.pushChecked data len = .ok (b.push data len) := by
  have hr := h.read_le
  have hw := h.write_le
  have hl := h.length_eq
  have hbuf : b.bytesBuffered = b.writeIndex - b.readIndex := rfl
  simp only [availableCapacity] at hcap
  simp only [pushChecked,push]
  split_ifs with hzero htail hgrow hmove
  · rfl
  · rw [memcpyFrom_ok hdata (by omega)]
  · omega
  · have hcompact : b.compact.array = overwrite b.array 0 (slice b.array b.readIndex b.bytesBuffered) := by
      simp only [compact,if_pos hmove]
    have hlen : (overwrite b.array 0 (slice b.array b.readIndex b.bytesBuffered)).length =
        b.array.length := overwrite_length (by rw [slice_length (by omega)]; omega)
    rw [memcpyWithin_ok hmove.2 (by omega)]
    simp only
    rw [memcpyFrom_ok hdata (by omega)]
    simp only [compact,if_pos hmove]
  · have hlen : (shiftDown b.array b.readIndex b.bytesBuffered).length = b.array.length := by
      rw [shiftDown_eq _ _ _ (by omega)]
      exact overwrite_length (by rw [slice_length (by omega)]; omega)
    rw [moveDown_ok (by omega)]
    simp only
    rw [memcpyFrom_ok hdata (by omega)]
    simp only [compact,if_neg hmove]

theorem pushChecked_ok (h : s.WF) (data : List Byte) : s.pushChecked data = .ok (s.push data) := by
  have hbuffer : s.buffer.pushChecked data (min data.length s.availableCapacity) =
      .ok (s.buffer.push data (min data.length s.availableCapacity)) :=
    Buffer.pushChecked_ok h.buffer (Nat.min_le_left _ _) (Nat.min_le_right _ _)
  rw [pushChecked,hbuffer]
  rfl

theorem pop_nothing {n : ℕ} (h : min n s.bytesBuffered = 0) : s.pop n = s := by
  cases s
  simp only [pop,h,Buffer.pop,Nat.add_zero]

theorem pop_length_take (h : s.WF) (n : ℕ) : s.pop (s.peek.take n).length = s.pop n := by
  have hmin : min (min n s.bytesBuffered) s.bytesBuffered = min n s.bytesBuffered := by omega
  rw [List.length_take,h.length_peek]
  simp only [pop,hmin]

/-- Of the rounds of `read` only the first finds anything to take. -/
theorem readLoop_ok {fuel len : ℕ} (h : s.WF) (hout : out.length ≤ len)
    (hfuel : len < fuel + out.length) :
    readLoop fuel s len out =
      .ok (s.pop (len - out.length),out ++ s.peek.take (len - out.length)) := by
  induction fuel generalizing s out with
  | zero => omega
  | succ fuel ih =>
    have hlen := h.length_peek
    simp only [readLoop]
    split_ifs with hgo hempty
    · rw [hempty,List.length_nil] at hlen
      omega
    · have hwf := pop_wf h (len - out.length)
      have hpeek := pop_peek h (len - out.length)
      have htaken : (out ++ s.peek.take (len - out.length)).length =
          out.length + min (len - out.length) s.bytesBuffered := by
        rw [List.length_append,List.length_take,hlen]
      have hrest : (s.pop (len - out.length)).bytesBuffered =
          s.bytesBuffered - (len - out.length) := by
        rw [← hwf.length_peek,hpeek,List.length_drop,hlen]
      have hdone : min (len - (out ++ s.peek.take (len - out.length)).length)
          (s.pop (len - out.length)).bytesBuffered = 0 := by omega
      have hnil : (s.pop (len - out.length)).peek.take
          (len - (out ++ s.peek.take (len - out.length)).length) = [] := by
        rw [← List.length_eq_zero_iff,List.length_take,hwf.length_peek]
        exact hdone
      rw [pop_length_take h,ih hwf (by omega) (by omega),pop_nothing hdone,hnil,List.append_nil]
    · have hdone : min (len - out.length) s.bytesBuffered = 0 := by omega
      have hnil : s.peek.take (len - out.length) = [] := by
        rw [← List.length_eq_zero_iff,List.length_take,hlen]
        exact hdone
      rw [pop_nothing hdone,hnil,List.append_nil]

theorem read_ok (h : s.WF) (len : ℕ) : s.read len = .ok (s.pop len,s.peek.take len) := by
  rw [read,readLoop_ok h (Nat.zero_le _) (Nat.lt_succ_self _)]
  rfl

structure Refines (C : ℕ) (q : List Byte) (s : ByteStream) : Prop where
  content : s.peek = q
  available : s.availableCapacity = C - q.length
  buffered : s.bytesPopped ≤ s.bytesPushed ∧ s.bytesPushed - s.bytesPopped = q.length
  fits : q.length ≤ C
  read_le : s.buffer.readIndex ≤ s.buffer.writeIndex
  write_le : s.buffer.writeIndex ≤ s.buffer.array.length
  defined : ∀ op, ∃ s' out, step s op = .ok (s',out)

theorem step_ok (h : s.WF) (op : Fifo.Op Byte) :
    ∃ s', step s op = .ok (s',(Fifo.step s.capacity s.peek op).2) ∧ s'.WF ∧
      s'.capacity = s.capacity ∧ s'.peek = (Fifo.step s.capacity s.peek op).1 := by
  cases op with
  | push data =>
    refine ⟨s.push data,by simp only [step,pushChecked_ok h]; rfl,push_wf h data,rfl,?_⟩
    rw [push_peek h,h.available,← h.length_peek]
    rfl
  | pop n => exact ⟨s.pop n,rfl,pop_wf h n,rfl,pop_peek h n⟩
  | peek => exact ⟨s,rfl,h,rfl,rfl⟩
  | read n => exact ⟨s.pop n,read_ok h n,pop_wf h n,rfl,pop_peek h n⟩

theorem refines_of_wf (h : s.WF) : Refines s.capacity s.peek s := by
  have hp := h.pushed_eq
  have hlen := h.length_peek
  refine ⟨rfl,?_,⟨by omega,by omega⟩,?_,h.buffer.read_le,h.buffer.write_le,?_⟩
  · rw [hlen]
    exact h.available
  · rw [hlen]
    exact h.fits
  · intro op
    obtain ⟨s',hs,-⟩ := step_ok h op
    exact ⟨s',_,hs⟩

/-- After any operations the stream stands for the queue that they make, it has given out what the
queue gives out, and no further operation can leave the array, overlap in a `memcpy` or make the
array grow. -/
theorem refines_fifo (hr : Run step (new C) tr s) :
    Refines C (simulate (Fifo.step C) [] (tr.map Event.op)).1 s ∧
      tr.map Event.out = (simulate (Fifo.step C) [] (tr.map Event.op)).2 := by
  obtain ⟨⟨hwf,hC,hpeek⟩,hout⟩ := Run.refines (Fifo.step C) []
    (fun q s => s.WF ∧ s.capacity = C ∧ s.peek = q) ⟨new_wf C,rfl,new_peek C⟩
    (by
      rintro q s s' op out ⟨hwf,rfl,rfl⟩ hs
      obtain ⟨s₁,hs₁,hwf₁,hC₁,hpeek₁⟩ := step_ok hwf op
      rw [hs₁] at hs
      obtain ⟨rfl,rfl⟩ := Prod.mk.inj (Except.ok.inj hs)
      exact ⟨⟨hwf₁,hC₁,hpeek₁⟩,rfl⟩) hr
  have href := refines_of_wf hwf
  rw [hC,hpeek] at href
  exact ⟨href,hout⟩

/-- The tail of the array runs out, and the bytes move to its head. -/
theorem refines_fifo_compacted : ∃ tr s, Run step (new 4) tr s ∧ s.buffer.writeIndex = 3 ∧
    tr.map Event.out = [[],[],[],[3,4,5],[3,4]] ∧ Refines 4 [5] s := by
  obtain ⟨tr,s,hr,hwrite,hops⟩ := Run.exists_of_exec step (new 4)
    [.push [1,2,3],.pop 2,.push [4,5],.peek,.read 2]
    (fun tr s => s.buffer.writeIndex = 3 ∧
      tr.map Event.op = [.push [1,2,3],.pop 2,.push [4,5],.peek,.read 2]) (by decide +kernel)
  obtain ⟨href,hout⟩ := refines_fifo hr
  rw [hops] at href hout
  exact ⟨tr,s,hr,hwrite,hout,href⟩

end ByteStream
end Minnow
