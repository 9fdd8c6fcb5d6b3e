import Minnow.Bitmap
import Minnow.ByteStream

/-! The reassembler: a ring of bytes and a bitmap over it, both indexed modulo the
capacity that the output stream had at the first insert. -/
namespace Minnow

open Library

structure Reassembler where
  firstUnassembledGlobalIndex : ℕ
  bytesPending : ℕ
  reachEnd : Bool
  bufferSize : ℕ
  slidingWindow : List Byte
  bitmap : Bitmap
  deriving DecidableEq, Repr

namespace Reassembler

def new : Reassembler := ⟨0,0,false,0,[],Bitmap.empty⟩

/-- The window is sized at the first insert. -/
def prepare (r : Reassembler) (output : ByteStream) : Reassembler :=
  if r.slidingWindow.isEmpty then
    { r with
      bufferSize := output.availableCapacity
      slidingWindow := List.replicate output.availableCapacity 0
      bitmap := r.bitmap.resize output.availableCapacity }
  else r

def windowIndex (r : Reassembler) (i : ℕ) : Except Fault ℕ :=
  if r.bufferSize = 0 then .error .arithmetic else .ok (i % r.bufferSize)

/-- Move the bytes that have become contiguous from the window to the end of `data`.
Every round clears a bit, so `bufferSize` rounds are enough. -/
def drain : ℕ → Reassembler → ℕ → List Byte → Except Fault (Reassembler × List Byte)
  | fuel, r, i, data => do
    let windowIndex ← r.windowIndex i
    if ← r.bitmap.get windowIndex then
      match fuel with
      | 0 => .error .nontermination
      | fuel+1 =>
        let bitmap ← r.bitmap.unset windowIndex
        match r.slidingWindow[windowIndex]? with
        | none => .error .outOfRange
        | some c =>
          drain fuel
            { r with
              bytesPending := u64Sub r.bytesPending 1
              bitmap := bitmap
              firstUnassembledGlobalIndex := r.firstUnassembledGlobalIndex + 1 }
            (i+1) (data ++ [c])
    else .ok (r,data)

/-- Buffer bytes from index `i` on; a slot that is taken keeps its byte. -/
def store : List Byte → ℕ → Reassembler → Except Fault Reassembler
  | [], _, r => .ok r
  | c::cs, i, r => do
    let windowIndex ← r.windowIndex i
    if ← r.bitmap.get windowIndex then store cs (i+1) r
    else
      let bitmap ← r.bitmap.set windowIndex
      if windowIndex < r.slidingWindow.length then
        store cs (i+1)
          { r with
            bytesPending := u64 (r.bytesPending + 1)
            bitmap := bitmap
            slidingWindow := r.slidingWindow.set windowIndex c }
      else .error .outOfRange

/-- The end of what an insert can use: of the data, and of the window. -/
def dataTailIndex (r : Reassembler) (firstIndex : ℕ) (data : List Byte) (output : ByteStream) : ℕ :=
  min (u64 (firstIndex + data.length))
    (u64 (r.firstUnassembledGlobalIndex + output.availableCapacity))

/-- The body of `insert` between the preparation of the window and the scope guard. -/
def assemble (r : Reassembler) (firstIndex : ℕ) (data : List Byte) (output : ByteStream) :
    Except Fault (Reassembler × ByteStream) := do
  let dataTailIndex := r.dataTailIndex firstIndex data output
  if dataTailIndex ≤ firstIndex ∨ dataTailIndex ≤ r.firstUnassembledGlobalIndex then .ok (r,output)
  else if firstIndex ≤ r.firstUnassembledGlobalIndex then
    let startIndex ← r.windowIndex r.firstUnassembledGlobalIndex
    let endIndex ← r.windowIndex (u64 (dataTailIndex + r.bufferSize - 1))
    let (popCount,bitmap) ← r.bitmap.getPopCountAndUnsetBatch startIndex endIndex
    let dataStartStrIndex := r.firstUnassembledGlobalIndex - firstIndex
    let (r,data) ← drain r.bufferSize
      { r with
        bytesPending := u64Sub r.bytesPending popCount
        bitmap := bitmap
        firstUnassembledGlobalIndex := dataTailIndex }
      dataTailIndex data
    if dataStartStrIndex ≤ data.length then .ok (r,output.push (data.drop dataStartStrIndex))
    else .error .outOfRange
  else
    let r ← store (data.take (dataTailIndex - firstIndex)) firstIndex r
    .ok (r,output)

/-- What the scope guard does when `insert` returns. -/
def closeOutput (r : Reassembler) (output : ByteStream) : ByteStream :=
  if r.reachEnd && r.bytesPending == 0 then output.close else output

def insert (r : Reassembler) (firstIndex : ℕ) (data : List Byte) (isLastSubstring : Bool)
    (output : ByteStream) : Except Fault (Reassembler × ByteStream) := do
  let r := { r with reachEnd := r.reachEnd || isLastSubstring }
  let (r,output) ← (r.prepare output).assemble firstIndex data output
  .ok (r,r.closeOutput output)

end Reassembler
end Minnow
