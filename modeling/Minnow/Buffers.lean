import Minnow.Library.BigEndian
import Minnow.Library.Chunks
import Minnow.Machine

/-! Lists of buffers: the parser that reads big-endian fields off them and the serializer
that writes them. -/
namespace Minnow

open Library

abbrev Buffer := List Byte

/-- Why a computation did not return: undefined behaviour, or an exception. -/
inductive Stop
  | fault (f : Fault)
  | thrown (e : RuntimeError)
  deriving DecidableEq, Repr

/-- The unsigned types of the fields: `sizeof(T)` bytes, and the conversions from and to numbers. -/
class UnsignedIntegral (T : Type) where
  size : ℕ
  toNat : T → ℕ
  ofNat : ℕ → T
  toNat_lt : ∀ v, toNat v < 256^size
  ofNat_toNat : ∀ v, ofNat (toNat v) = v

instance : UnsignedIntegral UInt8 := ⟨1,UInt8.toNat,UInt8.ofNat,UInt8.toNat_lt,fun _ => UInt8.ofNat_toNat⟩

instance : UnsignedIntegral UInt16 :=
  ⟨2,UInt16.toNat,UInt16.ofNat,UInt16.toNat_lt,fun _ => UInt16.ofNat_toNat⟩

instance : UnsignedIntegral UInt32 :=
  ⟨4,UInt32.toNat,UInt32.ofNat,UInt32.toNat_lt,fun _ => UInt32.ofNat_toNat⟩

instance : UnsignedIntegral UInt64 :=
  ⟨8,UInt64.toNat,UInt64.ofNat,UInt64.toNat_lt,fun _ => UInt64.ofNat_toNat⟩

class FullRange (T : Type) [UnsignedIntegral T] : Prop where
  toNat_ofNat : ∀ n < 256^UnsignedIntegral.size T,
    UnsignedIntegral.toNat (UnsignedIntegral.ofNat n : T) = n

instance : FullRange UInt8 := ⟨fun _ h => UInt8.toNat_ofNat_of_lt' h⟩

instance : FullRange UInt16 := ⟨fun _ h => UInt16.toNat_ofNat_of_lt' h⟩

instance : FullRange UInt32 := ⟨fun _ h => UInt32.toNat_ofNat_of_lt' h⟩

def fieldBytes {T : Type} [UnsignedIntegral T] (val : T) : List Byte :=
  BigEndian.bytes (UnsignedIntegral.size T) (UnsignedIntegral.toNat val)

theorem fieldBytes_value {T : Type} [UnsignedIntegral T] [FullRange T] {w : List Byte}
    (h : w.length = UnsignedIntegral.size T) :
    fieldBytes (UnsignedIntegral.ofNat (BigEndian.value w) : T) = w := by
  have hlt := BigEndian.value_lt w
  rw [h] at hlt
  rw [fieldBytes,FullRange.toNat_ofNat _ hlt,BigEndian.bytes_value h]

/-- Of the first buffer `skip` bytes have been read already. -/
structure BufferList where
  size : ℕ
  buffers : List Buffer
  skip : ℕ
  deriving DecidableEq, Repr

namespace BufferList

def append (l : BufferList) (str : Buffer) : BufferList :=
  { l with size := l.size + str.length, buffers := l.buffers ++ [str] }

def new (buffers : List Buffer) : BufferList := buffers.foldl append ⟨0,[],0⟩

def peek (l : BufferList) : Except Stop (List Byte) :=
  match l.buffers with
  | [] => .error (.thrown ⟨"peek on empty BufferList"⟩)
  | b::_ => .ok (b.drop l.skip)

def removeLoop : List Buffer → ℕ → ℕ → ℕ → BufferList
  | [], skip, size, _ => ⟨size,[],skip⟩
  | b::bs, skip, size, len =>
    if len = 0 then ⟨size,b::bs,skip⟩
    else
      let toPopNow := min len (b.length - skip)
      if skip + toPopNow = b.length then removeLoop bs 0 (size - toPopNow) (len - toPopNow)
      -- `len` is used up here, so the loop ends
      else ⟨size - toPopNow,b::bs,skip + toPopNow⟩

def removePrefix (l : BufferList) (len : ℕ) : BufferList :=
  removeLoop l.buffers l.skip l.size len

def dumpAll (l : BufferList) : Except Stop (List Buffer) :=
  if l.size = 0 then .ok []
  else
    match l.buffers with
    | [] => .error (.fault .outOfRange)
    | b::bs => .ok (b.drop l.skip::bs)

end BufferList

structure Parser where
  input : BufferList
  error : Bool
  deriving DecidableEq, Repr

namespace Parser

def new (input : List Buffer) : Parser := ⟨BufferList.new input,false⟩

def setError (p : Parser) : Parser := { p with error := true }

def checkSize (p : Parser) (size : ℕ) : Parser := if p.input.size < size then p.setError else p

def removePrefix (p : Parser) (n : ℕ) : Parser := { p with input := p.input.removePrefix n }

def shiftBytes : ℕ → ℕ → Parser → Except Stop (ℕ × Parser)
  | 0, out, p => .ok (out,p)
  | n+1, out, p =>
    match p.input.peek with
    | .error e => .error e
    | .ok [] => .error (.fault .outOfRange)
    | .ok (b::_) => shiftBytes n ((out <<< 8) ||| b.toNat) (p.removePrefix 1)

variable {T : Type} [UnsignedIntegral T]

/-- Once the parser has an error a field keeps its value. The case `sizeof(T) == 1` of the
source is the loop for one byte. -/
def integer (p : Parser) (out : T) : Except Stop (T × Parser) :=
  let p := p.checkSize (UnsignedIntegral.size T)
  if p.error then .ok (out,p)
  else
    match p.shiftBytes (UnsignedIntegral.size T) 0 with
    | .error e => .error e
    | .ok (v,p) => .ok (UnsignedIntegral.ofNat v,p)

/-- The loop of `string`: `left` characters are still to be copied behind `out`. A round that copies
none leaves everything as it was, so the loop ends within `left` rounds or never. -/
def copyLoop : ℕ → ℕ → List Byte → Parser → Except Stop (List Byte × Parser)
  | fuel, left, out, p =>
    if left = 0 then .ok (out,p)
    else
      match fuel with
      | 0 => .error (.fault .nontermination)
      | fuel+1 =>
        match p.input.peek with
        | .error e => .error e
        | .ok front =>
          let view := front.take left
          copyLoop fuel (left - view.length) (out ++ view) (p.removePrefix view.length)

/-- `out` is the span to be filled. -/
def string (p : Parser) (out : List Byte) : Except Stop (List Byte × Parser) :=
  let p := p.checkSize out.length
  if p.error then .ok (out,p) else copyLoop out.length out.length [] p

def allRemaining (p : Parser) : Except Stop (List Buffer) := p.input.dumpAll

end Parser

structure Serializer where
  output : List Buffer
  buffer : List Byte
  deriving DecidableEq, Repr

namespace Serializer

def new : Serializer := ⟨[],[]⟩

def integer {T : Type} [UnsignedIntegral T] (s : Serializer) (val : T) : Serializer :=
  { s with buffer := s.buffer ++ fieldBytes val }

def flush (s : Serializer) : Serializer := ⟨s.output ++ [s.buffer],[]⟩

def addBuffer (s : Serializer) (buf : Buffer) : Serializer :=
  { s.flush with output := s.flush.output ++ [buf] }

def addBuffers (s : Serializer) (bufs : List Buffer) : Serializer := bufs.foldl addBuffer s

/-- `output()` flushes first. -/
def finish (s : Serializer) : List Buffer := s.flush.output

end Serializer

namespace BufferList

variable {l : BufferList} {x : Byte} {v : List Byte} {rest : List Buffer}

/-- The buffers as far as they have not been read. -/
def unread (l : BufferList) : List Buffer :=
  match l.buffers with
  | [] => []
  | b::bs => b.drop l.skip::bs

/-- The bytes `v` can be read without meeting an empty buffer, and then `rest` is left. -/
structure Holds (l : BufferList) (v : List Byte) (rest : List Buffer) : Prop where
  skip : l.skip = 0 ∨ ∃ b bs, l.buffers = b::bs ∧ l.skip < b.length
  unread : ∃ front, l.unread = front ++ rest ∧ (∀ b ∈ front, b ≠ []) ∧ front.flatten = v
  size : l.size = v.length + rest.flatten.length

theorem new_eq (buffers : List Buffer) : new buffers = ⟨buffers.flatten.length,buffers,0⟩ := by
  have hfold : ∀ (bs : List Buffer) (l : BufferList),
      bs.foldl append l = ⟨l.size + bs.flatten.length,l.buffers ++ bs,l.skip⟩ := by
    intro bs
    induction bs with
    | nil => simp
    | cons b bs ih =>
      intro l
      rw [List.foldl_cons,ih]
      simp [append,Nat.add_assoc]
  simpa [new] using hfold buffers ⟨0,[],0⟩

theorem unread_zero (size : ℕ) (bs : List Buffer) : (⟨size,bs,0⟩ : BufferList).unread = bs := by
  cases bs <;> rfl

theorem new_holds {front : List Buffer} (h : ∀ b ∈ front, b ≠ []) (rest : List Buffer) :
    (new (front ++ rest)).Holds front.flatten rest := by
  rw [new_eq]
  exact ⟨Or.inl rfl,⟨front,unread_zero _ _,h,rfl⟩,by simp⟩

/-- Bytes are only skipped in a buffer that is not used up, and the size is right. -/
structure WF (l : BufferList) : Prop where
  skip : l.skip = 0 ∨ ∃ b bs, l.buffers = b::bs ∧ l.skip < b.length
  size : l.size = l.unread.flatten.length

theorem new_wf (buffers : List Buffer) : (new buffers).WF := by
  rw [new_eq]
  exact ⟨Or.inl rfl,by rw [unread_zero]⟩

theorem new_unread (buffers : List Buffer) : (new buffers).unread = buffers := by
  rw [new_eq,unread_zero]

theorem removeLoop_zero (bs : List Buffer) (skip size : ℕ) :
    removeLoop bs skip size 0 = ⟨size,bs,skip⟩ := by
  cases bs <;> simp [removeLoop]

theorem removeLoop_spec (bs : List Buffer) (skip size len : ℕ) (h : (⟨size,bs,skip⟩ : BufferList).WF) :
    (removeLoop bs skip size len).WF ∧ (removeLoop bs skip size len).unread =
      Chunks.advance (⟨size,bs,skip⟩ : BufferList).unread len := by
  induction bs generalizing skip size len with
  | nil => exact ⟨h,rfl⟩
  | cons b bs ih =>
    have hskip : skip ≤ b.length := by
      rcases h.skip with hzero | ⟨c,cs,hc,hlt⟩
      · rw [show skip = 0 from hzero]
        exact Nat.zero_le _
      · obtain ⟨rfl,-⟩ := List.cons.inj hc
        exact hlt.le
    have hsize : size = (b.length - skip) + bs.flatten.length := by
      have hsize := h.size
      rwa [unread,List.flatten_cons,List.length_append,List.length_drop] at hsize
    simp only [removeLoop,unread,Chunks.advance,List.length_drop]
    split_ifs with hzero hend hle hle
    · exact ⟨h,rfl⟩
    · -- the first buffer is used up
      have hpop : min len (b.length - skip) = b.length - skip := Nat.min_eq_right hle
      rw [hpop]
      have hnext := ih 0 (size - (b.length - skip)) (len - (b.length - skip))
        ⟨Or.inl rfl,by rw [unread_zero]; change size - _ = _; omega⟩
      rwa [unread_zero] at hnext
    · omega
    · omega
    · have hpop : min len (b.length - skip) = len := by omega
      rw [hpop]
      refine ⟨⟨Or.inr ⟨b,bs,rfl,by change skip + len < b.length; omega⟩,?_⟩,?_⟩
      · rw [unread,List.flatten_cons,List.length_append,List.length_drop]
        change size - len = b.length - (skip + len) + _
        omega
      · rw [List.drop_drop]

theorem WF.removePrefix (h : l.WF) (len : ℕ) : (l.removePrefix len).WF ∧
    (l.removePrefix len).unread = Chunks.advance l.unread len :=
  removeLoop_spec l.buffers l.skip l.size len h

theorem WF.dumpAll (h : l.WF) : ∃ bufs, l.dumpAll = .ok bufs ∧ bufs.flatten = l.unread.flatten := by
  by_cases hzero : l.size = 0
  · refine ⟨[],if_pos hzero,?_⟩
    exact (List.length_eq_zero_iff.mp (h.size.symm.trans hzero)).symm
  · cases hb : l.buffers with
    | nil =>
      have hsize := h.size
      simp only [BufferList.unread,hb] at hsize
      exact absurd hsize hzero
    | cons b bs =>
      refine ⟨b.drop l.skip::bs,by simp only [BufferList.dumpAll,if_neg hzero,hb],?_⟩
      simp only [BufferList.unread,hb]

theorem peek_eq {c : Buffer} {cs : List Buffer} (h : l.unread = c::cs) : l.peek = .ok c := by
  cases hb : l.buffers with
  | nil => simp [BufferList.unread,hb] at h
  | cons b bs =>
    simp only [BufferList.unread,hb,List.cons.injEq] at h
    simp only [BufferList.peek,hb,h.1]

theorem Holds.peek (h : l.Holds (x::v) rest) : ∃ w, l.peek = .ok (x::w) := by
  obtain ⟨front,hunread,hne,hv⟩ := h.unread
  cases front with
  | nil => cases hv
  | cons f front =>
    obtain ⟨y,w,rfl⟩ := List.exists_cons_of_ne_nil (hne f (by simp))
    obtain rfl : y = x := (List.cons.inj hv).1
    exact ⟨w,peek_eq hunread⟩

theorem Holds.wf (h : l.Holds v rest) : l.WF := by
  obtain ⟨front,hunread,-,hv⟩ := h.unread
  refine ⟨h.skip,?_⟩
  rw [h.size,hunread,List.flatten_append,List.length_append,hv]

/-- Removing moves on in the bytes; the end stops it where nothing lies behind them. -/
theorem Holds.drop (h : l.Holds v rest) {n : ℕ} (hn : n ≤ v.length ∨ rest = []) :
    (l.removePrefix n).Holds (v.drop n) rest := by
  obtain ⟨hwf,hnext⟩ := h.wf.removePrefix n
  obtain ⟨front,hunread,hne,hv⟩ := h.unread
  have hbytes : (Chunks.advance front n).flatten = v.drop n := by
    rw [Chunks.flatten_advance,hv]
  have hrest : (l.removePrefix n).unread = Chunks.advance front n ++ rest := by
    rw [hnext,hunread]
    rcases hn with hle | hnil
    · exact Chunks.advance_append rest (by rwa [hv])
    · rw [hnil,List.append_nil,List.append_nil]
  refine ⟨hwf.skip,⟨_,hrest,Chunks.advance_full hne _,hbytes⟩,?_⟩
  rw [hwf.size,hrest,List.flatten_append,List.length_append,hbytes]

theorem Holds.removePrefix (h : l.Holds (x::v) rest) : (l.removePrefix 1).Holds v rest :=
  h.drop (Or.inl (Nat.succ_pos _))

end BufferList

namespace Parser

variable {T : Type} [UnsignedIntegral T] {p : Parser} {x : T} {v w : List Byte}
  {rest : List Buffer}

structure Holds (p : Parser) (v : List Byte) (rest : List Buffer) : Prop where
  input : p.input.Holds v rest
  error : p.error = false

theorem new_holds (front : List Buffer) (h : ∀ b ∈ front, b ≠ []) (rest : List Buffer) :
    (new (front ++ rest)).Holds front.flatten rest :=
  ⟨BufferList.new_holds h rest,rfl⟩

theorem new_cons_holds {b : Buffer} (h : b ≠ []) (rest : List Buffer) :
    (new (b::rest)).Holds (b ++ []) rest := by
  simpa using new_holds [b] (by simpa using h) rest

theorem Holds.shiftBytes (h : p.Holds (w ++ v) rest) (out : ℕ) :
    ∃ p', p.shiftBytes w.length out = .ok (BigEndian.shiftIn out w,p') ∧ p'.Holds v rest := by
  induction w generalizing p out with
  | nil => exact ⟨p,rfl,h⟩
  | cons b w ih =>
    obtain ⟨w',hpeek⟩ := h.input.peek
    obtain ⟨p',hp,hholds⟩ := ih (p := p.removePrefix 1) ⟨h.input.removePrefix,h.error⟩
      ((out <<< 8) ||| b.toNat)
    refine ⟨p',?_,hholds⟩
    rw [List.length_cons,Parser.shiftBytes,hpeek]
    exact hp

theorem Holds.integer_taken (h : p.Holds (w ++ v) rest) (hw : w.length = UnsignedIntegral.size T)
    (out : T) : ∃ p', p.integer out = .ok (UnsignedIntegral.ofNat (BigEndian.value w),p') ∧
      p'.Holds v rest := by
  have hsize := h.input.size
  rw [List.length_append,hw] at hsize
  obtain ⟨p',hp,hholds⟩ := h.shiftBytes 0
  rw [hw] at hp
  have hcheck : p.checkSize (UnsignedIntegral.size T) = p := by
    rw [checkSize,if_neg (by omega)]
  refine ⟨p',?_,hholds⟩
  simp only [Parser.integer,hcheck,h.error,hp]
  rfl

theorem Holds.integer (h : p.Holds (fieldBytes x ++ v) rest) (out : T) :
    ∃ p', p.integer out = .ok (x,p') ∧ p'.Holds v rest := by
  obtain ⟨p',hp,hholds⟩ := h.integer_taken (BigEndian.bytes_length _ _) out
  have hval : BigEndian.value (fieldBytes x) = UnsignedIntegral.toNat x :=
    BigEndian.value_bytes_of_lt (UnsignedIntegral.toNat_lt x)
  rw [hval,UnsignedIntegral.ofNat_toNat] at hp
  exact ⟨p',hp,hholds⟩

/-- With an error or too few bytes a field stays as it was; otherwise it takes its bytes. -/
theorem integer_cases (hv : p.input.Holds v []) (out : T) :
    (∃ p', p.integer out = .ok (out,p') ∧ p'.input = p.input ∧ p'.error = true) ∨
    ∃ w v' p', p.error = false ∧ v = w ++ v' ∧ w.length = UnsignedIntegral.size T ∧
      p.integer out = .ok (UnsignedIntegral.ofNat (BigEndian.value w),p') ∧ p'.Holds v' [] := by
  by_cases hstop : p.error = true ∨ p.input.size < UnsignedIntegral.size T
  · left
    have herror : (p.checkSize (UnsignedIntegral.size T)).error = true := by
      unfold checkSize
      split_ifs with hshort
      · rfl
      · exact hstop.resolve_right hshort
    refine ⟨p.checkSize (UnsignedIntegral.size T),?_,?_,herror⟩
    · simp only [Parser.integer,herror,if_true]
    · unfold checkSize
      split_ifs <;> rfl
  · right
    obtain ⟨herror,hlong⟩ := not_or.mp hstop
    have hsize := hv.size
    simp only [List.flatten_nil,List.length_nil] at hsize
    have hsplit := List.take_append_drop (UnsignedIntegral.size T) v
    have hall : p.Holds (v.take (UnsignedIntegral.size T) ++ v.drop (UnsignedIntegral.size T)) [] := by
      rw [hsplit]
      exact ⟨hv,by simpa using herror⟩
    have hlen : (v.take (UnsignedIntegral.size T)).length = UnsignedIntegral.size T := by
      rw [List.length_take]
      omega
    obtain ⟨p',hrun,hp'⟩ := hall.integer_taken hlen out
    exact ⟨_,_,p',hall.error,hsplit.symm,hlen,hrun,hp'⟩

theorem integer_bytes [FullRange T] {p' : Parser} {out : T} (hv : p.input.Holds v [])
    (hrun : p.integer out = .ok (x,p')) : ∃ v', p'.input.Holds v' [] ∧
      (p'.error = false → p.error = false ∧ v = fieldBytes x ++ v') := by
  rcases integer_cases hv out with ⟨q,hq,hinput,herror⟩ | ⟨w,v',q,herror,hsplit,hlen,hq,hholds⟩
  · obtain ⟨-,rfl⟩ := Prod.mk.inj (Except.ok.inj (hq.symm.trans hrun))
    refine ⟨v,by rwa [hinput],fun hnone => ?_⟩
    rw [herror] at hnone
    cases hnone
  · obtain ⟨rfl,rfl⟩ := Prod.mk.inj (Except.ok.inj (hq.symm.trans hrun))
    exact ⟨v',hholds.input,fun _ => ⟨herror,by rw [fieldBytes_value hlen,hsplit]⟩⟩

/-- What is left lies in full buffers, so reading on meets the end or a byte. -/
def Live (p : Parser) : Prop := ∃ v, p.input.Holds v []

theorem new_live {buffers : List Buffer} (h : ∀ b ∈ buffers, b ≠ []) : (new buffers).Live :=
  ⟨buffers.flatten,by simpa using (new_holds buffers h []).input⟩

/-- Reading a field has defined behaviour, and an error that is there afterwards kept the field. -/
theorem Live.integer (h : p.Live) (out : T) : ∃ x' p', p.integer out = .ok (x',p') ∧ p'.Live ∧
    (p'.error = true → x' = out) := by
  obtain ⟨v,hv⟩ := h
  rcases integer_cases hv out with ⟨p',hrun,hinput,-⟩ | ⟨w,v',p',-,-,-,hrun,hp'⟩
  · exact ⟨out,p',hrun,⟨v,by rwa [hinput]⟩,fun _ => rfl⟩
  · refine ⟨_,p',hrun,⟨v',hp'.input⟩,fun hbad => ?_⟩
    rw [hp'.error] at hbad
    cases hbad

end Parser
end Minnow
