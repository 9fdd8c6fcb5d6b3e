import Minnow.Library.OnesComplement
import Minnow.Buffers

/-! IPv4 headers and datagrams, and the Internet checksum. -/
namespace Minnow

open Library

/-- A 32-bit sum of 16-bit words; `parity` is set between the two bytes of a word. -/
structure InternetChecksum where
  sum : ℕ
  parity : Bool
  deriving DecidableEq, Repr

namespace InternetChecksum

def new : InternetChecksum := ⟨0,false⟩

def addByte (c : InternetChecksum) (i : Byte) : InternetChecksum :=
  let val := if c.parity then i.toNat else i.toNat <<< 8
  ⟨(c.sum + val) % 2^32,!c.parity⟩

def add (c : InternetChecksum) (data : List Byte) : InternetChecksum := data.foldl addByte c

def addBuffers (c : InternetChecksum) (data : List Buffer) : InternetChecksum := data.foldl add c

/-- Two rounds of the loop are enough for a 32-bit sum. -/
def value (c : InternetChecksum) : UInt16 := ~~~(UInt16.ofNat (OnesComplement.fold 16 2 c.sum))

end InternetChecksum

structure IPv4Header where
  ver : UInt8 := 4
  hlen : UInt8 := 5
  tos : UInt8 := 0
  len : UInt16 := 0
  id : UInt16 := 0
  df : Bool := true
  mf : Bool := false
  offset : UInt16 := 0
  ttl : UInt8 := 128
  proto : UInt8 := 6
  cksum : UInt16 := 0
  src : Address := 0
  dst : Address := 0
  deriving DecidableEq, Repr

namespace IPv4Header

def LENGTH : ℕ := 20

def firstByte (ver hlen : UInt8) : UInt8 := (ver <<< 4) ||| (hlen &&& 0x0f)

def foVal (df mf : Bool) (offset : UInt16) : UInt16 :=
  (if df then 0x4000 else 0) ||| (if mf then 0x2000 else 0) ||| (offset &&& 0x1fff)

/-- Does not recompute the checksum. -/
def serialize (h : IPv4Header) (s : Serializer) : Except RuntimeError Serializer :=
  if h.ver ≠ 4 then .error ⟨"wrong IP version"⟩
  else
    let s := s.integer (firstByte h.ver h.hlen)
    let s := s.integer h.tos
    let s := s.integer h.len
    let s := s.integer h.id
    let s := s.integer (foVal h.df h.mf h.offset)
    let s := s.integer h.ttl
    let s := s.integer h.proto
    let s := s.integer h.cksum
    let s := s.integer h.src
    .ok (s.integer h.dst)

def computeChecksum (h : IPv4Header) : Except RuntimeError IPv4Header :=
  let h := { h with cksum := 0 }
  match h.serialize Serializer.new with
  | .error e => .error e
  | .ok s => .ok { h with cksum := (InternetChecksum.new.addBuffers s.finish).value }

/-- The fields; once the parser has an error, those that follow keep their values. -/
def parseFields (h : IPv4Header) (p : Parser) : Except Stop (IPv4Header × Parser) := do
  let (first,p) ← p.integer (0 : UInt8)
  let (tos,p) ← p.integer h.tos
  let (len,p) ← p.integer h.len
  let (id,p) ← p.integer h.id
  let (fo,p) ← p.integer (0 : UInt16)
  let (ttl,p) ← p.integer h.ttl
  let (proto,p) ← p.integer h.proto
  let (cksum,p) ← p.integer h.cksum
  let (src,p) ← p.integer h.src
  let (dst,p) ← p.integer h.dst
  return ({
    ver := first >>> 4
    hlen := first &&& 0x0f
    tos := tos
    len := len
    id := id
    df := fo &&& 0x4000 != 0
    mf := fo &&& 0x2000 != 0
    offset := fo &&& 0x1fff
    ttl := ttl
    proto := proto
    cksum := cksum
    src := src
    dst := dst },p)

/-- The checks after the fields. The checksum that was given is replaced by the right one. -/
def verify (h : IPv4Header) (p : Parser) : Except Stop (IPv4Header × Parser) :=
  let p := if h.ver ≠ 4 then p.setError else p
  let p := if h.hlen < 5 then p.setError else p
  let p := p.removePrefix (u64Sub (h.hlen.toNat*4) LENGTH)
  match h.computeChecksum with
  | .error e => .error (.thrown e)
  | .ok h' => .ok (h',if h'.cksum ≠ h.cksum then p.setError else p)

def parse (h : IPv4Header) (p : Parser) : Except Stop (IPv4Header × Parser) := do
  let (h,p) ← h.parseFields p
  h.verify p

end IPv4Header

structure IPv4Datagram where
  header : IPv4Header := {}
  payload : List Buffer := []
  deriving DecidableEq, Repr

abbrev InternetDatagram := IPv4Datagram

namespace IPv4Datagram

def parse (d : IPv4Datagram) (p : Parser) : Except Stop (IPv4Datagram × Parser) := do
  let (header,p) ← d.header.parse p
  let payload ← p.allRemaining
  return ({ header := header, payload := payload },p)

def serialize (d : IPv4Datagram) (s : Serializer) : Except RuntimeError Serializer :=
  match d.header.serialize s with
  | .error e => .error e
  | .ok s => .ok (s.addBuffers d.payload)

/-- `serialize(dgram)`: the finished buffers. -/
def serialized (d : IPv4Datagram) : Except RuntimeError (List Buffer) :=
  match d.serialize Serializer.new with
  | .error e => .error e
  | .ok s => .ok s.finish

/-- `parse(dgram, buffers)` on a fresh datagram, with the result that it returns. -/
def parsed (buffers : List Buffer) : Except Stop (IPv4Datagram × Bool) :=
  match IPv4Datagram.parse {} (Parser.new buffers) with
  | .error e => .error e
  | .ok (d,p) => .ok (d,!p.error)

end IPv4Datagram

namespace InternetChecksum

/-- The sum of the 16-bit words; `parity` as at the start of the bytes. -/
def words : Bool → List Byte → ℕ
  | _, [] => 0
  | parity, b::bs => (if parity then b.toNat else b.toNat*256) + words (!parity) bs

theorem words_append (parity : Bool) (xs ys : List Byte) :
    words parity (xs ++ ys) = words parity xs + words (parity ^^ decide (xs.length % 2 = 1)) ys := by
  induction xs generalizing parity with
  | nil => simp [words]
  | cons x xs ih =>
    have hpar : (!parity ^^ decide (xs.length % 2 = 1)) =
        (parity ^^ decide ((xs.length + 1) % 2 = 1)) := by
      rcases Nat.mod_two_eq_zero_or_one xs.length with h | h
      · simp [Nat.add_mod,h]
      · simp [Nat.add_mod,h]
    rw [List.cons_append,words,ih,hpar,words,List.length_cons,Nat.add_assoc]

theorem words_le (parity : Bool) (bs : List Byte) : words parity bs ≤ 65280*bs.length := by
  induction bs generalizing parity with
  | nil => simp [words]
  | cons b bs ih =>
    have hb := b.toNat_lt
    have hrest := ih (!parity)
    rw [words,List.length_cons]
    split_ifs <;> omega

theorem add_sum (c : InternetChecksum) (bs : List Byte) (h : c.sum < 2^32) :
    (c.add bs).sum = (c.sum + words c.parity bs) % 2^32 := by
  induction bs generalizing c with
  | nil => simpa [add,words] using (Nat.mod_eq_of_lt h).symm
  | cons b bs ih =>
    have hlt : (c.addByte b).sum < 2^32 := Nat.mod_lt _ (by norm_num)
    have hval : (if c.parity = true then b.toNat else b.toNat <<< 8) =
        if c.parity = true then b.toNat else b.toNat*256 := by
      rw [Nat.shiftLeft_eq]
    change ((c.addByte b).add bs).sum = _
    rw [ih _ hlt]
    simp only [addByte,words,hval]
    rw [Nat.mod_add_mod,Nat.add_assoc]

theorem modEq_of_value_eq {c d : InternetChecksum} (hc : c.sum < 2^32) (hd : d.sum < 2^32)
    (h : c.value = d.value) : c.sum ≡ d.sum [MOD 2^16-1] := by
  have hfold : ∀ {n : ℕ}, n < 2^32 → (UInt16.ofNat (OnesComplement.fold 16 2 n)).toNat =
      OnesComplement.fold 16 2 n := by
    intro n hn
    exact UInt16.toNat_ofNat_of_lt (OnesComplement.fold_two_lt (by norm_num) hn)
  have heq := congrArg (fun x : UInt16 => (~~~x).toNat) h
  simp only [value,UInt16.not_not,hfold hc,hfold hd] at heq
  exact OnesComplement.modEq_of_fold_eq heq

end InternetChecksum

namespace IPv4Header

variable {h : IPv4Header}

/-- The bytes in front of the time to live, and those behind it. -/
def bytesBeforeTTL (h : IPv4Header) : List Byte :=
  fieldBytes (firstByte h.ver h.hlen) ++ (fieldBytes h.tos ++ (fieldBytes h.len ++
    (fieldBytes h.id ++ fieldBytes (foVal h.df h.mf h.offset))))

def bytesAfterTTL (h : IPv4Header) : List Byte :=
  fieldBytes h.proto ++ (fieldBytes h.cksum ++ (fieldBytes h.src ++ fieldBytes h.dst))

def bytes (h : IPv4Header) : List Byte :=
  h.bytesBeforeTTL ++ (fieldBytes h.ttl ++ h.bytesAfterTTL)

theorem serialize_eq (hver : h.ver = 4) (s : Serializer) :
    h.serialize s = .ok { s with buffer := s.buffer ++ h.bytes } := by
  simp [serialize,hver,Serializer.integer,bytes,bytesBeforeTTL,bytesAfterTTL]

theorem length_fieldBytes {T : Type} [UnsignedIntegral T] (x : T) :
    (fieldBytes x).length = UnsignedIntegral.size T := BigEndian.bytes_length _ _

theorem length_bytesBeforeTTL (h : IPv4Header) : h.bytesBeforeTTL.length = 8 := by
  simp only [bytesBeforeTTL,List.length_append,length_fieldBytes]
  rfl

theorem length_bytes (h : IPv4Header) : h.bytes.length = LENGTH := by
  simp only [bytes,bytesBeforeTTL,bytesAfterTTL,List.length_append,length_fieldBytes]
  rfl

/-- The Internet checksum of a header, its own checksum field being zero. -/
def checksum (h : IPv4Header) : UInt16 :=
  (InternetChecksum.new.add { h with cksum := 0 }.bytes).value

theorem computeChecksum_eq (hver : h.ver = 4) :
    h.computeChecksum = .ok { h with cksum := h.checksum } := by
  have hs := serialize_eq (h := { h with cksum := 0 }) hver Serializer.new
  have hfinish : ∀ bs : List Byte,
      (⟨Serializer.new.output,Serializer.new.buffer ++ bs⟩ : Serializer).finish = [bs] :=
    fun _ => rfl
  have hadd : ∀ (c : InternetChecksum) (bs : List Byte), c.addBuffers [bs] = c.add bs :=
    fun _ _ => rfl
  simp only [computeChecksum,hs,checksum,hfinish,hadd]

theorem computeChecksum_error (hver : h.ver ≠ 4) :
    h.computeChecksum = .error ⟨"wrong IP version"⟩ := by
  simp [computeChecksum,serialize,hver]

theorem checksum_cksum (h : IPv4Header) (c : UInt16) :
    { h with cksum := c }.checksum = h.checksum := rfl

def sumOfRest (h : IPv4Header) : ℕ :=
  InternetChecksum.words false { h with cksum := 0 }.bytesBeforeTTL +
    InternetChecksum.words true { h with cksum := 0 }.bytesAfterTTL

theorem words_bytes (h : IPv4Header) :
    InternetChecksum.words false { h with cksum := 0 }.bytes = sumOfRest h + h.ttl.toNat*256 := by
  have hbyte : fieldBytes h.ttl = [h.ttl] := by
    simp [fieldBytes,BigEndian.bytes,UnsignedIntegral.size,UnsignedIntegral.toNat]
  have hword : ∀ bs : List Byte, InternetChecksum.words false ([h.ttl] ++ bs) =
      h.ttl.toNat*256 + InternetChecksum.words true bs := fun _ => rfl
  simp only [bytes,InternetChecksum.words_append false,length_bytesBeforeTTL,hbyte]
  rw [show (false ^^ decide (8 % 2 = 1)) = false from rfl,hword,sumOfRest]
  omega

theorem sum_add_bytes (h : IPv4Header) :
    (InternetChecksum.new.add h.bytes).sum = InternetChecksum.words false h.bytes := by
  have hle := InternetChecksum.words_le false h.bytes
  rw [length_bytes,LENGTH] at hle
  have hadd := InternetChecksum.add_sum InternetChecksum.new h.bytes
    (by norm_num [InternetChecksum.new])
  rw [hadd,show InternetChecksum.new.sum = 0 from rfl,show InternetChecksum.new.parity = false from rfl,
    Nat.zero_add,Nat.mod_eq_of_lt (by omega)]

theorem sum_add_bytes_lt (h : IPv4Header) : (InternetChecksum.new.add h.bytes).sum < 2^32 := by
  have hle := InternetChecksum.words_le false h.bytes
  rw [length_bytes,LENGTH] at hle
  rw [sum_add_bytes]
  omega

/-- Lowering the time to live alone takes `256` off the sum, which is not `0` modulo `2^16-1`:
no header keeps its checksum. -/
theorem checksum_ne {ttl : UInt8} (httl : ttl.toNat + 1 = h.ttl.toNat) :
    { h with ttl := ttl }.checksum ≠ h.checksum := by
  intro heq
  have hmod := InternetChecksum.modEq_of_value_eq (sum_add_bytes_lt _) (sum_add_bytes_lt _) heq
  rw [sum_add_bytes,sum_add_bytes,words_bytes,words_bytes] at hmod
  have hrest : sumOfRest { h with ttl := ttl } = sumOfRest h := rfl
  rw [hrest,← httl,Nat.add_mul,Nat.one_mul] at hmod
  have hcancel := Nat.ModEq.add_left_cancel' _ hmod
  have hbad : 0 ≡ 256 [MOD 2^16-1] :=
    Nat.ModEq.add_left_cancel' (ttl.toNat*256) (by rwa [Nat.add_zero])
  exact absurd hbad (by decide)

structure InRange (h : IPv4Header) : Prop where
  hlen : h.hlen &&& 0x0f = h.hlen
  offset : h.offset &&& 0x1fff = h.offset

/-- A header as parsing leaves it, with the right checksum. -/
structure Fresh (h : IPv4Header) : Prop where
  ver : h.ver = 4
  inRange : h.InRange
  cksum : h.cksum = h.checksum

theorem parseFields_inRange {h₀ : IPv4Header} {p p' : Parser} (hp : h₀.parseFields p = .ok (h,p')) :
    h.InRange := by
  simp only [parseFields,bind_ok,Prod.exists] at hp
  obtain ⟨first,_,-,tos,_,-,len,_,-,id,_,-,fo,_,-,ttl,_,-,proto,_,-,cksum,_,-,src,_,-,dst,_,-,hret⟩ := hp
  obtain ⟨rfl,-⟩ := Prod.mk.inj (Except.ok.inj hret)
  constructor
  · change first &&& 0x0f &&& 0x0f = first &&& 0x0f
    rw [UInt8.and_assoc,UInt8.and_self]
  · change fo &&& 0x1fff &&& 0x1fff = fo &&& 0x1fff
    rw [UInt16.and_assoc,UInt16.and_self]

theorem verify_eq (hver : h.ver = 4) (p : Parser) :
    ∃ p', h.verify p = .ok ({ h with cksum := h.checksum },p') ∧
      (p'.error = true ↔ p.error = true ∨ h.hlen < 5 ∨ h.checksum ≠ h.cksum) := by
  simp only [verify,computeChecksum_eq hver]
  refine ⟨_,rfl,?_⟩
  by_cases hlen : h.hlen < 5 <;> by_cases hsum : h.checksum = h.cksum <;>
    simp [hver,hlen,hsum,Parser.setError,Parser.removePrefix]

/-- Whatever is parsed comes out with the checksum that it should have. -/
theorem parse_fresh {h₀ : IPv4Header} {p p' : Parser} (hp : h₀.parse p = .ok (h,p')) :
    h.Fresh := by
  simp only [parse,bind_ok,Prod.exists] at hp
  obtain ⟨g,q,hfields,hverify⟩ := hp
  have hrange := parseFields_inRange hfields
  by_cases hver : g.ver = 4
  · obtain ⟨q',hq,-⟩ := verify_eq hver q
    obtain ⟨rfl,-⟩ := Prod.mk.inj (Except.ok.inj (hverify.symm.trans hq))
    exact ⟨hver,⟨hrange.hlen,hrange.offset⟩,(checksum_cksum g _).symm⟩
  · simp [verify,computeChecksum_error hver] at hverify

theorem or_and8 (x y z : UInt8) : (x ||| y) &&& z = (x &&& z) ||| (y &&& z) := by
  apply UInt8.toNat_inj.mp
  simp only [UInt8.toNat_and,UInt8.toNat_or]
  exact Nat.and_or_distrib_right x.toNat y.toNat z.toNat

theorem or_and16 (x y z : UInt16) : (x ||| y) &&& z = (x &&& z) ||| (y &&& z) := by
  apply UInt16.toNat_inj.mp
  simp only [UInt16.toNat_and,UInt16.toNat_or]
  exact Nat.and_or_distrib_right x.toNat y.toNat z.toNat

theorem firstByte_ver (hlen : UInt8) : firstByte 4 hlen >>> 4 = 4 := by
  have hlow : hlen.toNat &&& 15 < 2^4 := Nat.and_lt_two_pow _ (by norm_num)
  have hzero : (hlen.toNat &&& UInt8.toNat 0x0f) >>> (UInt8.toNat 4 % 8) = 0 := by
    rw [Nat.shiftRight_eq_zero]
    exact hlow
  apply UInt8.toNat_inj.mp
  simp only [firstByte,UInt8.toNat_shiftRight,UInt8.toNat_or,Nat.shiftRight_or_distrib,
    UInt8.toNat_and,hzero]
  rfl

theorem firstByte_hlen {hlen : UInt8} (h : hlen &&& 0x0f = hlen) :
    firstByte 4 hlen &&& 0x0f = hlen := by
  rw [firstByte,or_and8,h,h,show (4 : UInt8) <<< 4 &&& 0x0f = 0 from rfl,UInt8.zero_or]

theorem foVal_and (df mf : Bool) (offset mask : UInt16) :
    foVal df mf offset &&& mask = (if df then 0x4000 &&& mask else 0) |||
      (if mf then 0x2000 &&& mask else 0) ||| (offset &&& (0x1fff &&& mask)) := by
  cases df <;> cases mf <;> simp [foVal,or_and16,UInt16.and_assoc]

theorem foVal_df (df mf : Bool) (offset : UInt16) :
    (foVal df mf offset &&& 0x4000 != 0) = df := by
  rw [foVal_and,show (0x1fff &&& 0x4000 : UInt16) = 0 from rfl,UInt16.and_zero]
  cases df <;> cases mf <;> decide

theorem foVal_mf (df mf : Bool) (offset : UInt16) :
    (foVal df mf offset &&& 0x2000 != 0) = mf := by
  rw [foVal_and,show (0x1fff &&& 0x2000 : UInt16) = 0 from rfl,UInt16.and_zero]
  cases df <;> cases mf <;> decide

theorem foVal_offset {offset : UInt16} (df mf : Bool) (h : offset &&& 0x1fff = offset) :
    foVal df mf offset &&& 0x1fff = offset := by
  rw [foVal_and,show (0x1fff &&& 0x1fff : UInt16) = 0x1fff from rfl,
    show (0x4000 &&& 0x1fff : UInt16) = 0 from rfl,show (0x2000 &&& 0x1fff : UInt16) = 0 from rfl,h]
  simp

theorem parseFields_bytes (hver : h.ver = 4) (hrange : h.InRange) {p : Parser} {v : List Byte}
    {rest : List Buffer} (hp : p.Holds (h.bytes ++ v) rest) (h₀ : IPv4Header) :
    ∃ p', h₀.parseFields p = .ok (h,p') ∧ p'.Holds v rest := by
  simp only [bytes,bytesBeforeTTL,bytesAfterTTL,List.append_assoc] at hp
  obtain ⟨p₁,h₁,hp⟩ := hp.integer 0
  obtain ⟨p₂,h₂,hp⟩ := hp.integer h₀.tos
  obtain ⟨p₃,h₃,hp⟩ := hp.integer h₀.len
  obtain ⟨p₄,h₄,hp⟩ := hp.integer h₀.id
  obtain ⟨p₅,h₅,hp⟩ := hp.integer 0
  obtain ⟨p₆,h₆,hp⟩ := hp.integer h₀.ttl
  obtain ⟨p₇,h₇,hp⟩ := hp.integer h₀.proto
  obtain ⟨p₈,h₈,hp⟩ := hp.integer h₀.cksum
  obtain ⟨p₉,h₉,hp⟩ := hp.integer h₀.src
  obtain ⟨p',h',hp⟩ := hp.integer h₀.dst
  refine ⟨p',?_,hp⟩
  have hfirst : firstByte h.ver h.hlen >>> 4 = h.ver := by rw [hver,firstByte_ver]
  have hlen : firstByte h.ver h.hlen &&& 0x0f = h.hlen := by rw [hver,firstByte_hlen hrange.hlen]
  simp only [parseFields,h₁,h₂,h₃,h₄,h₅,h₆,h₇,h₈,h₉,h',bind,Except.bind,pure,Except.pure,hfirst,hlen,
    foVal_df,foVal_mf,foVal_offset _ _ hrange.offset]

theorem parse_bytes (hver : h.ver = 4) (hrange : h.InRange) {p : Parser} {v : List Byte}
    {rest : List Buffer} (hp : p.Holds (h.bytes ++ v) rest) (h₀ : IPv4Header) :
    ∃ p', h₀.parse p = .ok ({ h with cksum := h.checksum },p') ∧
      (p'.error = true ↔ h.hlen < 5 ∨ h.checksum ≠ h.cksum) := by
  obtain ⟨q,hfields,hq⟩ := parseFields_bytes hver hrange hp h₀
  obtain ⟨p',hverify,herror⟩ := verify_eq hver q
  refine ⟨p',?_,?_⟩
  · rw [parse,hfields]
    exact hverify
  · rw [herror,hq.error]
    simp

end IPv4Header

namespace IPv4Datagram

theorem serialized_eq {d : IPv4Datagram} (hver : d.header.ver = 4) :
    ∃ rest, d.serialized = .ok (d.header.bytes::rest) := by
  have hfinish : ∀ (bufs : List Buffer) (s : Serializer), ∃ rest,
      (s.addBuffers bufs).finish = s.output ++ s.buffer::rest := by
    intro bufs
    induction bufs with
    | nil => exact fun s => ⟨[],rfl⟩
    | cons b bufs ih =>
      intro s
      obtain ⟨rest,hrest⟩ := ih (s.addBuffer b)
      refine ⟨b::(s.addBuffer b).buffer::rest,?_⟩
      change ((s.addBuffer b).addBuffers bufs).finish = _
      rw [hrest]
      simp [Serializer.addBuffer,Serializer.flush]
  obtain ⟨rest,hrest⟩ := hfinish d.payload ⟨[],[] ++ d.header.bytes⟩
  refine ⟨rest,?_⟩
  simp only [serialized,serialize,IPv4Header.serialize_eq hver]
  exact congrArg Except.ok hrest

theorem parsed_fresh {d : IPv4Datagram} {buffers : List Buffer} {b : Bool}
    (hp : parsed buffers = .ok (d,b)) : d.header.Fresh := by
  unfold parsed at hp
  split at hp
  · cases hp
  · rename_i d' p hparse
    obtain ⟨rfl,-⟩ := Prod.mk.inj (Except.ok.inj hp)
    simp only [parse,bind_ok,Prod.exists] at hparse
    obtain ⟨h,q,hh,payload,-,hret⟩ := hparse
    obtain ⟨rfl,-⟩ := Prod.mk.inj (Except.ok.inj hret)
    exact IPv4Header.parse_fresh hh

end IPv4Datagram
end Minnow
