import Mathlib.Data.Vector.Basic
import Minnow.Buffers

/-! Ethernet frames, and the ARP messages that they carry. -/
namespace Minnow

open Library

abbrev EthernetAddress := List.Vector Byte 6

def ETHERNET_BROADCAST : EthernetAddress := ⟨[0xff,0xff,0xff,0xff,0xff,0xff],rfl⟩

structure EthernetHeader where
  dst : EthernetAddress
  src : EthernetAddress
  type : UInt16
  deriving DecidableEq

namespace EthernetHeader

def TYPE_IPv4 : UInt16 := 0x800

def TYPE_ARP : UInt16 := 0x806

theorem TYPE_ARP_ne : TYPE_ARP ≠ TYPE_IPv4 := by decide

end EthernetHeader

structure EthernetFrame where
  header : EthernetHeader
  payload : List Buffer
  deriving DecidableEq

/-- The constructor without a destination makes a broadcast. -/
def EthernetFrame.broadcast (src : EthernetAddress) (type : UInt16) (payload : List Buffer) :
    EthernetFrame := ⟨⟨ETHERNET_BROADCAST,src,type⟩,payload⟩

namespace Parser

/-- `for (auto & b : address) parser.integer(b)`. -/
def address : {n : ℕ} → Parser → List.Vector Byte n → Except Stop (List.Vector Byte n × Parser)
  | 0, p, bytes => .ok (bytes,p)
  | _+1, p, bytes => do
    let (b,p) ← p.integer bytes.head
    let (bs,p) ← p.address bytes.tail
    return (b ::ᵥ bs,p)

end Parser

def addressBytes {n : ℕ} (bytes : List.Vector Byte n) : List Byte :=
  bytes.toList.flatMap fieldBytes

def Serializer.address {n : ℕ} (s : Serializer) (bytes : List.Vector Byte n) : Serializer :=
  bytes.toList.foldl Serializer.integer s

theorem Parser.Holds.address {n : ℕ} {bytes : List.Vector Byte n} {p : Parser} {v : List Byte}
    {rest : List Buffer} (h : p.Holds (addressBytes bytes ++ v) rest) (out : List.Vector Byte n) :
    ∃ p', p.address out = .ok (bytes,p') ∧ p'.Holds v rest := by
  induction n generalizing p with
  | zero =>
    obtain rfl : bytes = out := Subsingleton.elim _ _
    obtain rfl : bytes = List.Vector.nil := Subsingleton.elim _ _
    exact ⟨p,rfl,h⟩
  | succ n ih =>
    obtain ⟨b,bs,rfl⟩ := bytes.exists_eq_cons
    have hsplit : addressBytes (b ::ᵥ bs) = fieldBytes b ++ addressBytes bs := by
      simp [addressBytes]
    rw [hsplit,List.append_assoc] at h
    obtain ⟨q,hb,hq⟩ := h.integer out.head
    obtain ⟨p',hbs,hp'⟩ := ih hq out.tail
    refine ⟨p',?_,hp'⟩
    simp only [Parser.address,hb,hbs,bind,Except.bind,pure,Except.pure]

theorem Parser.Live.address {n : ℕ} {p : Parser} (h : p.Live) (out : List.Vector Byte n) :
    ∃ bytes p', p.address out = .ok (bytes,p') ∧ p'.Live := by
  induction n generalizing p with
  | zero => exact ⟨out,p,rfl,h⟩
  | succ n ih =>
    obtain ⟨b,q,hb,hq,-⟩ := h.integer out.head
    obtain ⟨bs,p',hbs,hp'⟩ := ih hq out.tail
    refine ⟨b ::ᵥ bs,p',?_,hp'⟩
    simp only [Parser.address,hb,hbs,bind,Except.bind,pure,Except.pure]

theorem Serializer.address_eq {n : ℕ} (s : Serializer) (bytes : List.Vector Byte n) :
    s.address bytes = { s with buffer := s.buffer ++ addressBytes bytes } := by
  have hfold : ∀ (bs : List Byte) (s : Serializer), bs.foldl Serializer.integer s =
      { s with buffer := s.buffer ++ bs.flatMap fieldBytes } := by
    intro bs
    induction bs with
    | nil => simp
    | cons b bs ih =>
      intro s
      rw [List.foldl_cons,ih]
      simp [Serializer.integer]
  exact hfold bytes.toList s

def EthernetHeader.parse (h : EthernetHeader) (p : Parser) :
    Except Stop (EthernetHeader × Parser) := do
  let (dst,p) ← p.address h.dst
  let (src,p) ← p.address h.src
  let (type,p) ← p.integer h.type
  return (⟨dst,src,type⟩,p)

def EthernetHeader.serialize (h : EthernetHeader) (s : Serializer) : Serializer :=
  let s := s.address h.dst
  let s := s.address h.src
  s.integer h.type

def EthernetFrame.parse (f : EthernetFrame) (p : Parser) : Except Stop (EthernetFrame × Parser) := do
  let (header,p) ← f.header.parse p
  let payload ← p.allRemaining
  return (⟨header,payload⟩,p)

def EthernetFrame.serialize (f : EthernetFrame) (s : Serializer) : Serializer :=
  (f.header.serialize s).addBuffers f.payload

/-- `serialize(frame)`: the finished buffers. -/
def EthernetFrame.serialized (f : EthernetFrame) : List Buffer :=
  (f.serialize Serializer.new).finish

def EthernetHeader.bytes (h : EthernetHeader) : List Byte :=
  addressBytes h.dst ++ (addressBytes h.src ++ fieldBytes h.type)

theorem EthernetHeader.serialize_eq (h : EthernetHeader) (s : Serializer) :
    h.serialize s = { s with buffer := s.buffer ++ h.bytes } := by
  simp [serialize,Serializer.address_eq,Serializer.integer,bytes]

theorem EthernetHeader.parse_bytes {h : EthernetHeader} {p : Parser} {v : List Byte}
    {rest : List Buffer} (hp : p.Holds (h.bytes ++ v) rest) (h₀ : EthernetHeader) :
    ∃ p', h₀.parse p = .ok (h,p') ∧ p'.Holds v rest := by
  simp only [bytes,List.append_assoc] at hp
  obtain ⟨p₁,h₁,hp⟩ := hp.address h₀.dst
  obtain ⟨p₂,h₂,hp⟩ := hp.address h₀.src
  obtain ⟨p',h',hp⟩ := hp.integer h₀.type
  refine ⟨p',?_,hp⟩
  simp only [parse,h₁,h₂,h',bind,Except.bind,pure,Except.pure]

structure ARPMessage where
  hardwareType : UInt16 := 1
  protocolType : UInt16 := EthernetHeader.TYPE_IPv4
  hardwareAddressSize : UInt8 := 6
  protocolAddressSize : UInt8 := 4
  opcode : UInt16 := 0
  senderEthernetAddress : EthernetAddress := List.Vector.replicate 6 0
  senderIpAddress : Address := 0
  targetEthernetAddress : EthernetAddress := List.Vector.replicate 6 0
  targetIpAddress : Address := 0
  deriving DecidableEq

namespace ARPMessage

def TYPE_ETHERNET : UInt16 := 1

def OPCODE_REQUEST : UInt16 := 1

def OPCODE_REPLY : UInt16 := 2

def request (senderEth : EthernetAddress) (senderIp targetIp : Address) : ARPMessage where
  opcode := OPCODE_REQUEST
  senderEthernetAddress := senderEth
  senderIpAddress := senderIp
  targetIpAddress := targetIp

def reply (senderEth : EthernetAddress) (senderIp : Address) (targetEth : EthernetAddress)
    (targetIp : Address) : ARPMessage where
  opcode := OPCODE_REPLY
  senderEthernetAddress := senderEth
  senderIpAddress := senderIp
  targetEthernetAddress := targetEth
  targetIpAddress := targetIp

def supported (m : ARPMessage) : Bool :=
  m.hardwareType == TYPE_ETHERNET && m.protocolType == EthernetHeader.TYPE_IPv4 &&
    m.hardwareAddressSize == 6 && m.protocolAddressSize == 4 &&
    (m.opcode == OPCODE_REQUEST || m.opcode == OPCODE_REPLY)

/-- The sender and the target, after the fields that say what kind of message it is. -/
def parseAddresses (m : ARPMessage) (p : Parser) : Except Stop (ARPMessage × Parser) := do
  let (senderEth,p) ← p.address m.senderEthernetAddress
  let (senderIp,p) ← p.integer m.senderIpAddress
  let (targetEth,p) ← p.address m.targetEthernetAddress
  let (targetIp,p) ← p.integer m.targetIpAddress
  return ({ m with
    senderEthernetAddress := senderEth
    senderIpAddress := senderIp
    targetEthernetAddress := targetEth
    targetIpAddress := targetIp },p)

def parse (m : ARPMessage) (p : Parser) : Except Stop (ARPMessage × Parser) := do
  let (hardwareType,p) ← p.integer m.hardwareType
  let (protocolType,p) ← p.integer m.protocolType
  let (hardwareAddressSize,p) ← p.integer m.hardwareAddressSize
  let (protocolAddressSize,p) ← p.integer m.protocolAddressSize
  let (opcode,p) ← p.integer m.opcode
  let m := { m with
    hardwareType := hardwareType
    protocolType := protocolType
    hardwareAddressSize := hardwareAddressSize
    protocolAddressSize := protocolAddressSize
    opcode := opcode }
  if m.supported then m.parseAddresses p else return (m,p.setError)

def serialize (m : ARPMessage) (s : Serializer) : Except RuntimeError Serializer :=
  if m.supported then
    let s := s.integer m.hardwareType
    let s := s.integer m.protocolType
    let s := s.integer m.hardwareAddressSize
    let s := s.integer m.protocolAddressSize
    let s := s.integer m.opcode
    let s := s.address m.senderEthernetAddress
    let s := s.integer m.senderIpAddress
    let s := s.address m.targetEthernetAddress
    .ok (s.integer m.targetIpAddress)
  else .error
    ⟨"ARPMessage: unsupported field combination (must be Ethernet/IP, and request or reply)"⟩

/-- `serialize(arp_msg)`: the finished buffers. -/
def serialized (m : ARPMessage) : Except RuntimeError (List Buffer) :=
  match m.serialize Serializer.new with
  | .error e => .error e
  | .ok s => .ok s.finish

/-- `parse(arp_msg, buffers)` on a fresh message, with the result that it returns. -/
def parsed (buffers : List Buffer) : Except Stop (ARPMessage × Bool) :=
  match ARPMessage.parse {} (Parser.new buffers) with
  | .error e => .error e
  | .ok (m,p) => .ok (m,!p.error)

variable {m : ARPMessage}

def bytes (m : ARPMessage) : List Byte :=
  fieldBytes m.hardwareType ++ (fieldBytes m.protocolType ++ (fieldBytes m.hardwareAddressSize ++
    (fieldBytes m.protocolAddressSize ++ (fieldBytes m.opcode ++
      (addressBytes m.senderEthernetAddress ++ (fieldBytes m.senderIpAddress ++
        (addressBytes m.targetEthernetAddress ++ fieldBytes m.targetIpAddress)))))))

theorem serialized_eq (h : m.supported = true) : m.serialized = .ok [m.bytes] := by
  simp [serialized,serialize,h,Serializer.address_eq,Serializer.integer,Serializer.new,
    Serializer.finish,Serializer.flush,bytes]

@[simp] theorem request_supported (eth : EthernetAddress) (ip target : Address) :
    (request eth ip target).supported = true := rfl

@[simp] theorem reply_supported (eth : EthernetAddress) (ip : Address) (targetEth : EthernetAddress)
    (target : Address) : (reply eth ip targetEth target).supported = true := rfl

theorem parse_bytes (h : m.supported = true) {p : Parser} {v : List Byte} {rest : List Buffer}
    (hp : p.Holds (m.bytes ++ v) rest) (m₀ : ARPMessage) :
    ∃ p', m₀.parse p = .ok (m,p') ∧ p'.Holds v rest := by
  simp only [bytes,List.append_assoc] at hp
  obtain ⟨p₁,h₁,hp⟩ := hp.integer m₀.hardwareType
  obtain ⟨p₂,h₂,hp⟩ := hp.integer m₀.protocolType
  obtain ⟨p₃,h₃,hp⟩ := hp.integer m₀.hardwareAddressSize
  obtain ⟨p₄,h₄,hp⟩ := hp.integer m₀.protocolAddressSize
  obtain ⟨p₅,h₅,hp⟩ := hp.integer m₀.opcode
  obtain ⟨p₆,h₆,hp⟩ := hp.address m₀.senderEthernetAddress
  obtain ⟨p₇,h₇,hp⟩ := hp.integer m₀.senderIpAddress
  obtain ⟨p₈,h₈,hp⟩ := hp.address m₀.targetEthernetAddress
  obtain ⟨p',h',hp⟩ := hp.integer m₀.targetIpAddress
  refine ⟨p',?_,hp⟩
  have hkind : { m₀ with
      hardwareType := m.hardwareType
      protocolType := m.protocolType
      hardwareAddressSize := m.hardwareAddressSize
      protocolAddressSize := m.protocolAddressSize
      opcode := m.opcode : ARPMessage }.supported = true := h
  simp only [parse,h₁,h₂,h₃,h₄,h₅,bind,Except.bind,hkind]
  simp only [parseAddresses,h₆,h₇,h₈,h',bind,Except.bind,pure,Except.pure,if_true]

theorem parsed_serialized (h : m.supported = true) {buffers : List Buffer}
    (hb : m.serialized = .ok buffers) :
    parsed buffers = .ok (m,true) := by
  rw [serialized_eq h] at hb
  obtain rfl := Except.ok.inj hb
  have hne : m.bytes ≠ [] := by
    simp [bytes,fieldBytes,BigEndian.bytes,UnsignedIntegral.size]
  obtain ⟨p',hparse,hp'⟩ := parse_bytes h (Parser.new_cons_holds hne []) {}
  simp only [parsed,hparse,hp'.error]
  rfl

/-- Whatever is in the buffers, parsing ends, and an error leaves the target that was there: the
target comes last, and nothing is read of a message that is not supported. -/
theorem parse_live {p : Parser} (h : p.Live) (m₀ : ARPMessage) :
    ∃ m p', m₀.parse p = .ok (m,p') ∧
      (p'.error = true → m.targetIpAddress = m₀.targetIpAddress) := by
  obtain ⟨hardwareType,p₁,h₁,hp,-⟩ := h.integer m₀.hardwareType
  obtain ⟨protocolType,p₂,h₂,hp,-⟩ := hp.integer m₀.protocolType
  obtain ⟨hardwareAddressSize,p₃,h₃,hp,-⟩ := hp.integer m₀.hardwareAddressSize
  obtain ⟨protocolAddressSize,p₄,h₄,hp,-⟩ := hp.integer m₀.protocolAddressSize
  obtain ⟨opcode,p₅,h₅,hp,-⟩ := hp.integer m₀.opcode
  obtain ⟨senderEth,p₆,h₆,hp⟩ := hp.address m₀.senderEthernetAddress
  obtain ⟨senderIp,p₇,h₇,hp,-⟩ := hp.integer m₀.senderIpAddress
  obtain ⟨targetEth,p₈,h₈,hp⟩ := hp.address m₀.targetEthernetAddress
  obtain ⟨targetIp,p',h',-,hkept⟩ := hp.integer m₀.targetIpAddress
  let m : ARPMessage := { m₀ with
    hardwareType := hardwareType
    protocolType := protocolType
    hardwareAddressSize := hardwareAddressSize
    protocolAddressSize := protocolAddressSize
    opcode := opcode }
  cases hkind : m.supported with
  | true =>
    refine ⟨{ m with
      senderEthernetAddress := senderEth
      senderIpAddress := senderIp
      targetEthernetAddress := targetEth
      targetIpAddress := targetIp },p',?_,hkept⟩
    simp only [parse,h₁,h₂,h₃,h₄,h₅,bind,Except.bind]
    rw [if_pos hkind]
    simp only [parseAddresses,h₆,h₇,h₈,h',bind,Except.bind,pure,Except.pure]
    rfl
  | false =>
    refine ⟨m,p₅.setError,?_,fun _ => rfl⟩
    simp only [parse,h₁,h₂,h₃,h₄,h₅,bind,Except.bind,pure,Except.pure]
    rw [if_neg (by rw [hkind]; exact Bool.false_ne_true)]

theorem parsed_live {buffers : List Buffer} (h : ∀ b ∈ buffers, b ≠ []) :
    ∃ m ok, parsed buffers = .ok (m,ok) ∧ (ok = false → m.targetIpAddress = 0) := by
  obtain ⟨m,p',hparse,hkept⟩ := parse_live (Parser.new_live h) {}
  refine ⟨m,!p'.error,?_,fun hbad => hkept (by simpa using hbad)⟩
  simp only [parsed,hparse]

end ARPMessage

/-- The address that a frame asks for, when it carries an ARP request. -/
def EthernetFrame.requestFor (f : EthernetFrame) : Option Address :=
  if f.header.type = EthernetHeader.TYPE_ARP then
    match ARPMessage.parsed f.payload with
    | .ok (msg,true) =>
      if msg.opcode = ARPMessage.OPCODE_REQUEST then some msg.targetIpAddress else none
    | _ => none
  else none

theorem EthernetFrame.requestFor_request (eth : EthernetAddress) (ip target : Address) :
    (EthernetFrame.broadcast eth EthernetHeader.TYPE_ARP
      [(ARPMessage.request eth ip target).bytes]).requestFor = some target := by
  have hser := ARPMessage.serialized_eq (ARPMessage.request_supported eth ip target)
  have hparsed := ARPMessage.parsed_serialized (ARPMessage.request_supported eth ip target) hser
  simp only [requestFor,broadcast,if_true,hparsed]
  rfl

theorem EthernetFrame.requestFor_reply (eth : EthernetAddress) (ip : Address)
    (targetEth : EthernetAddress) (target : Address) :
    (⟨⟨targetEth,eth,EthernetHeader.TYPE_ARP⟩,
      [(ARPMessage.reply eth ip targetEth target).bytes]⟩ : EthernetFrame).requestFor = none := by
  have hser := ARPMessage.serialized_eq (ARPMessage.reply_supported eth ip targetEth target)
  have hparsed := ARPMessage.parsed_serialized
    (ARPMessage.reply_supported eth ip targetEth target) hser
  have hreply : (ARPMessage.reply eth ip targetEth target).opcode ≠ ARPMessage.OPCODE_REQUEST :=
    show ARPMessage.OPCODE_REPLY ≠ ARPMessage.OPCODE_REQUEST by decide
  simp only [requestFor,if_true,hparsed,if_neg hreply]

theorem EthernetFrame.requestFor_ipv4 {f : EthernetFrame}
    (h : f.header.type = EthernetHeader.TYPE_IPv4) : f.requestFor = none := by
  rw [requestFor,if_neg]
  rw [h]
  exact EthernetHeader.TYPE_ARP_ne.symm

end Minnow
