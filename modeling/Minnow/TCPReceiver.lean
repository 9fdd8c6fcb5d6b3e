import Minnow.Reassembler
import Minnow.TCPMessages

/-! The TCP receiver: it turns sequence numbers into stream indices for the reassembler,
and the first unassembled index back into an ackno. -/
namespace Minnow

structure TCPReceiver where
  initialSeqNum : Option Wrap32
  firstUnassembledIndex : ℕ
  meetFIN : Bool
  isFinished : Bool
  deriving DecidableEq, Repr

namespace TCPReceiver

def new : TCPReceiver := ⟨none,0,false,false⟩

/-- The number that SYN leaves for the rest of its message. -/
def dataSeqno (message : TCPSenderMessage) : Wrap32 :=
  if message.SYN then message.seqno.add 1 else message.seqno

def synchronize (rcv : TCPReceiver) (message : TCPSenderMessage) : TCPReceiver :=
  if message.SYN then { rcv with initialSeqNum := some message.seqno } else rcv

def receive (rcv : TCPReceiver) (message : TCPSenderMessage) (reassembler : Reassembler)
    (inboundStream : ByteStream) : Except Fault (TCPReceiver × Reassembler × ByteStream) :=
  let rcv := rcv.synchronize message
  match rcv.initialSeqNum with
  | none => .ok (rcv,reassembler,inboundStream)
  | some isn => do
    let rcv := { rcv with meetFIN := rcv.meetFIN || message.FIN }
    let streamIndex :=
      u64Sub ((dataSeqno message).unwrap isn reassembler.firstUnassembledGlobalIndex) 1
    let (reassembler,inboundStream) ←
      reassembler.insert streamIndex message.payload message.FIN inboundStream
    .ok ({ rcv with
      isFinished := rcv.isFinished || (rcv.meetFIN && inboundStream.isClosed)
      firstUnassembledIndex := reassembler.firstUnassembledGlobalIndex },reassembler,inboundStream)

/-- The absolute number that `send` wraps. -/
def absoluteAckno (rcv : TCPReceiver) : ℕ := rcv.firstUnassembledIndex + 1 + rcv.isFinished.toNat

def send (rcv : TCPReceiver) (inboundStream : ByteStream) : TCPReceiverMessage where
  ackno := rcv.initialSeqNum.map fun isn => Wrap32.wrap rcv.absoluteAckno isn
  windowSize := UInt16.ofNat (min inboundStream.availableCapacity 65535)

variable {rcv : TCPReceiver} {message : TCPSenderMessage} {reassembler : Reassembler}
  {inboundStream : ByteStream}

theorem receive_unsynchronized (h : rcv.initialSeqNum = none) (hsyn : message.SYN = false) :
    rcv.receive message reassembler inboundStream = .ok (rcv,reassembler,inboundStream) := by
  simp [receive,synchronize,hsyn,h]

/-- The payload of a message numbered from `isn` goes to the index below its number. -/
theorem dataSeqno_eq {isn : Wrap32} (hseqno : message.seqno = Wrap32.wrap message.absolute isn) :
    dataSeqno message = Wrap32.wrap message.payloadStart isn := by
  rw [dataSeqno,TCPSenderMessage.payloadStart]
  split_ifs with hsyn
  · rw [hsyn,hseqno,Wrap32.wrap_add_one]
    rfl
  · simp [hsyn,hseqno]

theorem streamIndex_eq {isn : Wrap32} {f : ℕ}
    (hseqno : message.seqno = Wrap32.wrap message.absolute isn) (hpos : 0 < message.payloadStart)
    (hf : f + 2^32 ≤ 2^64) (hlo : f < message.payloadStart + 2^31)
    (hhi : message.payloadStart < f + 2^31) :
    u64Sub ((dataSeqno message).unwrap isn f) 1 = message.payloadStart - 1 := by
  rw [dataSeqno_eq hseqno,Wrap32.unwrap_wrap isn hf hlo hhi,u64Sub_of_le (by omega) (by omega)]

theorem receive_synchronized {isn : Wrap32} {r' : Reassembler} {inbound' : ByteStream} {i : ℕ}
    (hisn : (rcv.synchronize message).initialSeqNum = some isn)
    (hindex : u64Sub ((dataSeqno message).unwrap isn reassembler.firstUnassembledGlobalIndex) 1 = i)
    (hinsert : reassembler.insert i message.payload message.FIN inboundStream = .ok (r',inbound')) :
    ∃ rcv', rcv.receive message reassembler inboundStream = .ok (rcv',r',inbound') ∧
      rcv'.initialSeqNum = some isn ∧
      rcv'.firstUnassembledIndex = r'.firstUnassembledGlobalIndex ∧
      rcv'.meetFIN = (rcv.meetFIN || message.FIN) ∧
      rcv'.isFinished =
        (rcv.isFinished || ((rcv.meetFIN || message.FIN) && inbound'.isClosed)) := by
  have hmeet : (rcv.synchronize message).meetFIN = rcv.meetFIN := by
    unfold synchronize
    split <;> rfl
  have hfin : (rcv.synchronize message).isFinished = rcv.isFinished := by
    unfold synchronize
    split <;> rfl
  refine ⟨{
    initialSeqNum := some isn
    firstUnassembledIndex := r'.firstUnassembledGlobalIndex
    meetFIN := rcv.meetFIN || message.FIN
    isFinished := rcv.isFinished || ((rcv.meetFIN || message.FIN) && inbound'.isClosed)
    },?_,rfl,rfl,rfl,rfl⟩
  unfold receive
  simp only [hisn]
  rw [hindex]
  rw [hinsert,hmeet,hfin]
  rfl

end TCPReceiver
end Minnow
