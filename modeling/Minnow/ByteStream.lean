import Minnow.Library.Region
import Minnow.Machine

/-! The byte stream: one flat buffer that is compacted when its tail runs out.
`Writer` and `Reader` are views of the same object, so their functions act on it. -/
namespace Minnow

open Library

namespace ByteStream

structure Buffer where
  capacity : ℕ
  array : List Byte
  writeIndex : ℕ
  readIndex : ℕ
  deriving DecidableEq, Repr

namespace Buffer

def new (capacity : ℕ) : Buffer := ⟨capacity,List.replicate capacity 0,0,0⟩

def bytesBuffered (b : Buffer) : ℕ := b.writeIndex - b.readIndex

def availableCapacity (b : Buffer) : ℕ := b.capacity - b.bytesBuffered

/-- Move the buffered bytes to the head: one `memcpy` when source and target are
disjoint, byte by byte otherwise. -/
def compact (b : Buffer) : Buffer :=
  let bytesBuffered := b.bytesBuffered
  let array :=
    if 0 < bytesBuffered ∧ bytesBuffered ≤ b.readIndex then
      overwrite b.array 0 (slice b.array b.readIndex bytesBuffered)
    else shiftDown b.array b.readIndex bytesBuffered
  { b with array := array, writeIndex := b.writeIndex - b.readIndex, readIndex := 0 }

def push (b : Buffer) (data : List Byte) (lenPushed : ℕ) : Buffer :=
  if lenPushed = 0 then b
  else
    let distanceWriteIndexToTail := b.array.length - b.writeIndex
    let distanceHeadToReadIndex := b.readIndex
    if lenPushed ≤ distanceWriteIndexToTail then
      { b with
        array := overwrite b.array b.writeIndex (data.take lenPushed)
        writeIndex := b.writeIndex + lenPushed }
    else
      let grown :=
        if distanceHeadToReadIndex + distanceWriteIndexToTail < lenPushed then
          { b with array := b.array ++ List.replicate (b.array.length*3) 0 }
        else b
      let c := grown.compact
      { c with
        array := overwrite c.array c.writeIndex (data.take lenPushed)
        writeIndex := c.writeIndex + lenPushed }

def pop (b : Buffer) (len : ℕ) : Buffer := { b with readIndex := b.readIndex + len }

def isEmpty (b : Buffer) : Bool := b.writeIndex == b.readIndex

def toStringView (b : Buffer) : List Byte := slice b.array b.readIndex b.bytesBuffered

/-- The indices are ordered and the array keeps its initial size. -/
structure WF (b : Buffer) : Prop where
  read_le : b.readIndex ≤ b.writeIndex
  write_le : b.writeIndex ≤ b.array.length
  length_eq : b.array.length = b.capacity

theorem new_wf (capacity : ℕ) : (new capacity).WF := ⟨le_rfl,by simp [new],by simp [new]⟩

variable {b : Buffer}

theorem WF.length_toStringView (h : b.WF) : b.toStringView.length = b.bytesBuffered := by
  have hr := h.read_le
  have hw := h.write_le
  apply slice_length
  simp only [bytesBuffered]
  omega

/-- Compaction moves the bytes and changes nothing a reader can see. -/
theorem compact_spec (h : b.WF) :
    b.compact.WF ∧ b.compact.toStringView = b.toStringView ∧
      b.compact.capacity = b.capacity ∧ b.compact.readIndex = 0 ∧
      b.compact.writeIndex = b.bytesBuffered := by
  have hr := h.read_le
  have hw := h.write_le
  have hl := h.length_eq
  have hbuf : b.bytesBuffered = b.writeIndex - b.readIndex := rfl
  have hcopy : b.compact.array = overwrite b.array 0 (slice b.array b.readIndex b.bytesBuffered) := by
    simp only [compact]
    split_ifs
    · rfl
    · exact shiftDown_eq _ _ _ (by omega)
  have hn : (slice b.array b.readIndex b.bytesBuffered).length = b.bytesBuffered :=
    slice_length (by omega)
  have hlen : b.compact.array.length = b.array.length := by
    rw [hcopy]
    exact overwrite_length (by omega)
  have hread : b.compact.readIndex = 0 := rfl
  have hwrite : b.compact.writeIndex = b.bytesBuffered := rfl
  have hcap : b.compact.capacity = b.capacity := rfl
  refine ⟨⟨by omega,by omega,by omega⟩,?_,hcap,hread,hwrite⟩
  have hback := slice_overwrite b.array (slice b.array b.readIndex b.bytesBuffered) 0 (by omega)
  rw [hn] at hback
  simp only [toStringView,hread,hcopy,bytesBuffered,hwrite,Nat.sub_zero]
  exact hback

theorem append_spec (h : b.WF) (bytes : List Byte)
    (hfit : b.writeIndex + bytes.length ≤ b.array.length) :
    let c : Buffer := { b with
      array := overwrite b.array b.writeIndex bytes
      writeIndex := b.writeIndex + bytes.length }
    c.WF ∧ c.toStringView = b.toStringView ++ bytes := by
  have hr := h.read_le
  have hl := h.length_eq
  refine ⟨⟨?_,?_,?_⟩,?_⟩
  · change b.readIndex ≤ b.writeIndex + bytes.length
    omega
  · change b.writeIndex + bytes.length ≤ (overwrite b.array b.writeIndex bytes).length
    rw [overwrite_length hfit]
    exact hfit
  · exact (overwrite_length hfit).trans hl
  · have hsplit : b.writeIndex + bytes.length - b.readIndex = b.bytesBuffered + bytes.length := by
      simp only [bytesBuffered]
      omega
    have hend : b.readIndex + b.bytesBuffered = b.writeIndex := by
      simp only [bytesBuffered]
      omega
    change slice (overwrite b.array b.writeIndex bytes) b.readIndex
      (b.writeIndex + bytes.length - b.readIndex) = _
    rw [hsplit,slice_add,hend,slice_overwrite _ _ _ hfit,slice_overwrite_below hfit (by omega)]
    rfl

theorem push_spec (h : b.WF) (data : List Byte) (len : ℕ) (hdata : len ≤ data.length)
    (hcap : len ≤ b.availableCapacity) :
    (b.push data len).WF ∧ (b.push data len).toStringView = b.toStringView ++ data.take len ∧
      (b.push data len).capacity = b.capacity := by
  have hr := h.read_le
  have hw := h.write_le
  have hl := h.length_eq
  have htake : (data.take len).length = len := by simpa using hdata
  simp only [availableCapacity,bytesBuffered] at hcap
  simp only [push]
  split_ifs with hzero htail hgrow
  · subst len
    simpa using h
  · have happ := append_spec h (data.take len) (by omega)
    rw [htake] at happ
    exact ⟨happ.1,happ.2,rfl⟩
  · omega
  · obtain ⟨hwf,hview,hc,hread,hwrite⟩ := compact_spec h
    have hlen := hwf.length_eq
    have hbuf : b.bytesBuffered = b.writeIndex - b.readIndex := rfl
    have happ := append_spec hwf (data.take len) (by omega)
    rw [htake,hview] at happ
    exact ⟨happ.1,happ.2,hc⟩

theorem pop_spec (h : b.WF) (len : ℕ) (hlen : len ≤ b.bytesBuffered) :
    (b.pop len).WF ∧ (b.pop len).toStringView = b.toStringView.drop len := by
  have hr := h.read_le
  simp only [bytesBuffered] at hlen
  refine ⟨⟨?_,h.write_le,h.length_eq⟩,?_⟩
  · change b.readIndex + len ≤ b.writeIndex
    omega
  · rw [toStringView,toStringView,slice_drop]
    simp only [pop,bytesBuffered]
    congr 1
    omega

theorem isEmpty_iff (h : b.WF) : b.isEmpty = true ↔ b.toStringView = [] := by
  have hr := h.read_le
  rw [← List.length_eq_zero_iff,h.length_toStringView]
  simp only [isEmpty,beq_iff_eq,bytesBuffered]
  omega

end Buffer

end ByteStream

structure ByteStream where
  capacity : ℕ
  flags : UInt8
  bytesPushed : ℕ
  bytesPopped : ℕ
  buffer : ByteStream.Buffer
  deriving DecidableEq, Repr

namespace ByteStream

def eofFlag : UInt8 := 0b01

def new (capacity : ℕ) : ByteStream := ⟨capacity,0,0,0,Buffer.new capacity⟩

/-! The writer's side. -/

def availableCapacity (s : ByteStream) : ℕ := s.buffer.availableCapacity

def push (s : ByteStream) (data : List Byte) : ByteStream :=
  let lenPushed := min data.length s.availableCapacity
  { s with
    bytesPushed := s.bytesPushed + lenPushed
    buffer := s.buffer.push data lenPushed }

def close (s : ByteStream) : ByteStream := { s with flags := s.flags ||| eofFlag }

def isClosed (s : ByteStream) : Bool := s.flags &&& eofFlag != 0

/-! The reader's side. -/

def peek (s : ByteStream) : List Byte := s.buffer.toStringView

def isFinished (s : ByteStream) : Bool := s.flags &&& eofFlag != 0 && s.buffer.isEmpty

def bytesBuffered (s : ByteStream) : ℕ := s.buffer.bytesBuffered

def pop (s : ByteStream) (len : ℕ) : ByteStream :=
  let lenPopped := min len s.bytesBuffered
  { s with
    bytesPopped := s.bytesPopped + lenPopped
    buffer := s.buffer.pop lenPopped }

structure WF (s : ByteStream) : Prop where
  buffer : s.buffer.WF
  capacity_eq : s.buffer.capacity = s.capacity
  pushed_eq : s.bytesPushed = s.bytesPopped + s.bytesBuffered
  fits : s.bytesBuffered ≤ s.capacity

theorem new_wf (capacity : ℕ) : (new capacity).WF :=
  ⟨Buffer.new_wf capacity,rfl,rfl,Nat.zero_le _⟩

@[simp] theorem new_peek (capacity : ℕ) : (new capacity).peek = [] := by
  simp [new,peek,Buffer.toStringView,Buffer.new,Buffer.bytesBuffered]

@[simp] theorem new_bytesBuffered (capacity : ℕ) : (new capacity).bytesBuffered = 0 := rfl

variable {s : ByteStream}

theorem WF.length_peek (h : s.WF) : s.peek.length = s.bytesBuffered := h.buffer.length_toStringView

theorem WF.available (h : s.WF) : s.availableCapacity = s.capacity - s.bytesBuffered := by
  rw [← h.capacity_eq]
  rfl

theorem push_peek (h : s.WF) (data : List Byte) :
    (s.push data).peek = s.peek ++ data.take s.availableCapacity := by
  have hb := (Buffer.push_spec h.buffer data (min data.length s.availableCapacity)
    (by omega) (Nat.min_le_right _ _)).2.1
  change (s.buffer.push data _).toStringView = _
  rw [hb,← List.take_take,List.take_of_length_le (l := data.take _) (by simp)]
  rfl

theorem push_wf (h : s.WF) (data : List Byte) : (s.push data).WF := by
  obtain ⟨hwf,-,hcap⟩ := Buffer.push_spec h.buffer data (min data.length s.availableCapacity)
    (by omega) (Nat.min_le_right _ _)
  have hlen : (s.push data).bytesBuffered = s.bytesBuffered + min data.length s.availableCapacity := by
    change (s.buffer.push data _).bytesBuffered = _
    rw [← hwf.length_toStringView]
    have hp := congrArg List.length (push_peek h data)
    rw [List.length_append,h.length_peek,List.length_take,Nat.min_comm] at hp
    exact hp
  have hav := h.available
  have hfit := h.fits
  have hp := h.pushed_eq
  refine ⟨hwf,hcap.trans h.capacity_eq,?_,?_⟩
  · change s.bytesPushed + _ = s.bytesPopped + _
    rw [hlen]
    omega
  · change _ ≤ s.capacity
    rw [hlen]
    omega

theorem push_available (h : s.WF) (data : List Byte) : (s.push data).availableCapacity =
    s.availableCapacity - min data.length s.availableCapacity := by
  have hwf := push_wf h data
  have hp := h.pushed_eq
  have hp' := hwf.pushed_eq
  have hcap : (s.push data).capacity = s.capacity := rfl
  have hpopped : (s.push data).bytesPopped = s.bytesPopped := rfl
  have hpushed : (s.push data).bytesPushed =
    s.bytesPushed + min data.length s.availableCapacity := rfl
  rw [hwf.available,hcap]
  rw [h.available] at hpushed ⊢
  omega

theorem pop_peek (h : s.WF) (len : ℕ) : (s.pop len).peek = s.peek.drop len := by
  have hb := (Buffer.pop_spec h.buffer (min len s.bytesBuffered) (Nat.min_le_right _ _)).2
  change (s.buffer.pop _).toStringView = _
  rw [hb]
  change s.peek.drop _ = s.peek.drop len
  rcases Nat.le_total len s.bytesBuffered with hle | hle
  · rw [Nat.min_eq_left hle]
  · rw [Nat.min_eq_right hle,List.drop_of_length_le (by rw [h.length_peek]),
      List.drop_of_length_le (by rw [h.length_peek]; exact hle)]

theorem pop_wf (h : s.WF) (len : ℕ) : (s.pop len).WF := by
  have hwf := (Buffer.pop_spec h.buffer (min len s.bytesBuffered) (Nat.min_le_right _ _)).1
  have hlen : (s.pop len).bytesBuffered = s.bytesBuffered - len := by
    change (s.buffer.pop _).bytesBuffered = _
    rw [← hwf.length_toStringView]
    have hp := congrArg List.length (pop_peek h len)
    rw [List.length_drop,h.length_peek] at hp
    exact hp
  have hfit := h.fits
  have hp := h.pushed_eq
  refine ⟨hwf,h.capacity_eq,?_,?_⟩
  · change s.bytesPushed = s.bytesPopped + min len s.bytesBuffered + _
    rw [hlen]
    omega
  · change _ ≤ s.capacity
    rw [hlen]
    omega

theorem pop_available (h : s.WF) (len : ℕ) :
    s.availableCapacity ≤ (s.pop len).availableCapacity := by
  have hwf := pop_wf h len
  have hp := h.pushed_eq
  have hp' := hwf.pushed_eq
  have hcap : (s.pop len).capacity = s.capacity := rfl
  have hpushed : (s.pop len).bytesPushed = s.bytesPushed := rfl
  have hpopped : (s.pop len).bytesPopped = s.bytesPopped + min len s.bytesBuffered := rfl
  rw [hwf.available,h.available]
  omega

theorem pop_content {D : List Byte} (h : s.WF)
    (hpeek : s.peek = slice D s.bytesPopped s.bytesBuffered) (len : ℕ) :
    (s.pop len).peek = slice D (s.pop len).bytesPopped (s.pop len).bytesBuffered := by
  have hp := h.pushed_eq
  have hp' := (pop_wf h len).pushed_eq
  have hpopped : (s.pop len).bytesPopped = s.bytesPopped + min len s.bytesBuffered := rfl
  change s.bytesPushed = _ at hp'
  rw [pop_peek h,hpeek,slice_drop]
  rcases Nat.le_total len s.bytesBuffered with hle | hle
  · congr 1 <;> omega
  · rw [show s.bytesBuffered - len = 0 by omega,show (s.pop len).bytesBuffered = 0 by omega,
      slice_zero,slice_zero]

theorem push_content {D data : List Byte} (h : s.WF)
    (hpeek : s.peek = slice D s.bytesPopped s.bytesBuffered)
    (hdata : data <+: D.drop s.bytesPushed) :
    (s.push data).peek = slice D (s.push data).bytesPopped (s.push data).bytesBuffered := by
  have hp := h.pushed_eq
  have hp' := (push_wf h data).pushed_eq
  have hlen := hdata.length_le
  rw [List.length_drop] at hlen
  change s.bytesPushed + min data.length s.availableCapacity = s.bytesPopped + _ at hp'
  have htake : data.take s.availableCapacity = slice D (s.bytesPopped + s.bytesBuffered)
      (min data.length s.availableCapacity) := by
    rw [List.prefix_iff_eq_take.mp hdata,List.length_take,List.length_drop,List.take_take,← hp,slice]
    congr 1
    omega
  change _ = slice D s.bytesPopped _
  rw [push_peek h,hpeek,htake,← slice_add]
  congr 1
  omega

theorem close_wf (h : s.WF) : s.close.WF := ⟨h.buffer,h.capacity_eq,h.pushed_eq,h.fits⟩

@[simp] theorem close_peek (s : ByteStream) : s.close.peek = s.peek := rfl
@[simp] theorem close_bytesPushed (s : ByteStream) : s.close.bytesPushed = s.bytesPushed := rfl
@[simp] theorem close_bytesPopped (s : ByteStream) : s.close.bytesPopped = s.bytesPopped := rfl
@[simp] theorem close_capacity (s : ByteStream) : s.close.capacity = s.capacity := rfl
@[simp] theorem push_nil (s : ByteStream) : s.push [] = s := by
  simp [push,Buffer.push]
@[simp] theorem push_bytesPushed (s : ByteStream) (data : List Byte) :
    (s.push data).bytesPushed = s.bytesPushed + min data.length s.availableCapacity := rfl
@[simp] theorem push_bytesPopped (s : ByteStream) (data : List Byte) :
    (s.push data).bytesPopped = s.bytesPopped := rfl
@[simp] theorem push_capacity (s : ByteStream) (data : List Byte) :
    (s.push data).capacity = s.capacity := rfl
@[simp] theorem pop_bytesPushed (s : ByteStream) (len : ℕ) :
    (s.pop len).bytesPushed = s.bytesPushed := rfl
@[simp] theorem pop_capacity (s : ByteStream) (len : ℕ) : (s.pop len).capacity = s.capacity := rfl
@[simp] theorem push_isClosed (s : ByteStream) (data : List Byte) :
    (s.push data).isClosed = s.isClosed := rfl
@[simp] theorem pop_isClosed (s : ByteStream) (len : ℕ) : (s.pop len).isClosed = s.isClosed := rfl
@[simp] theorem new_isClosed (capacity : ℕ) : (new capacity).isClosed = false := by
  simp [isClosed,new]

@[simp] theorem close_isClosed (s : ByteStream) : s.close.isClosed = true := by
  have hbit : (s.flags ||| eofFlag) &&& eofFlag ≠ 0 := by
    intro h
    have hb := congrArg (fun x : UInt8 => x.toBitVec.getLsbD 0) h
    simp [eofFlag] at hb
  simpa [isClosed,close] using hbit

theorem isFinished_iff (h : s.WF) : s.isFinished = true ↔ s.isClosed = true ∧ s.peek = [] := by
  rw [isFinished,Bool.and_eq_true,Buffer.isEmpty_iff h.buffer]
  rfl

end ByteStream
end Minnow
