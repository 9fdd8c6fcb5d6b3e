import Minnow.WrappingIntegers

/-! The messages between a TCP sender and its peer's receiver. -/
namespace Minnow

def TCPConfig.maxPayloadSize : UInt32 := 1000

/-- `absolute` is an auxiliary variable of the verification: the 64-bit number that `seqno`
was wrapped from. No function reads it. -/
structure TCPSenderMessage where
  seqno : Wrap32
  SYN : Bool
  payload : List Byte
  FIN : Bool
  absolute : ℕ
  deriving DecidableEq, Repr

namespace TCPSenderMessage

def sequenceLength (m : TCPSenderMessage) : ℕ := m.SYN.toNat + m.payload.length + m.FIN.toNat

def payloadStart (m : TCPSenderMessage) : ℕ := m.absolute + m.SYN.toNat

/-- The byte that the message puts at absolute sequence number `a`. -/
def byteAt (m : TCPSenderMessage) (a : ℕ) : Option Byte :=
  if a < m.payloadStart then none else m.payload[a - m.payloadStart]?

end TCPSenderMessage

def seqnos (ms : List TCPSenderMessage) : ℕ := (ms.map TCPSenderMessage.sequenceLength).sum

@[simp] theorem seqnos_nil : seqnos [] = 0 := rfl

@[simp] theorem seqnos_cons (m : TCPSenderMessage) (ms : List TCPSenderMessage) :
    seqnos (m::ms) = m.sequenceLength + seqnos ms := by
  simp [seqnos]

@[simp] theorem seqnos_append (ms ms' : List TCPSenderMessage) :
    seqnos (ms ++ ms') = seqnos ms + seqnos ms' := by
  simp [seqnos]

structure TCPSenderMessageWrapper where
  msg : TCPSenderMessage
  isRetransmitted : Bool
  deriving DecidableEq, Repr

structure TCPReceiverMessage where
  ackno : Option Wrap32
  windowSize : UInt16
  deriving DecidableEq, Repr

end Minnow
