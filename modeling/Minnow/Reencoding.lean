import Mathlib.Data.Nat.Bitwise
import Minnow.NetworkInterface
import Minnow.RoundTrip

/-! Writing again what was read: an accepted datagram comes out as it went in, up to the options and
the reserved flag, for which a header has no field. -/
namespace Minnow

open Library

/-- The header length in words, as the first byte of a datagram gives it. -/
def ihl (b : List Byte) : ℕ := (b.getD 0 0 &&& 0x0f).toNat

/-- The bytes of a datagram without its options, and with the reserved flag cleared. -/
def withoutOptions (b : List Byte) : List Byte :=
  (b.take 20).set 6 (b.getD 6 0 &&& 0x7f) ++ b.drop (4 * ihl b)

/-- There is no byte of an option, and the reserved flag is zero. -/
def Plain (b : List Byte) : Prop := (ihl b = 5 ∨ b.length = 20) ∧ b.getD 6 0 &&& 0x80 = 0

instance (b : List Byte) : Decidable (Plain b) := by
  unfold Plain; infer_instance

theorem firstByte_split (x : UInt8) : IPv4Header.firstByte (x >>> 4) (x &&& 0x0f) = x := by
  have hx := x.toNat_lt
  have hlow : x.toNat &&& 15 = x.toNat % 16 := Nat.and_two_pow_sub_one_eq_mod x.toNat 4
  apply UInt8.toNat_inj.mp
  rw [IPv4Header.firstByte,UInt8.and_assoc,UInt8.and_self]
  simp only [UInt8.toNat_or,UInt8.toNat_shiftLeft,UInt8.toNat_shiftRight,UInt8.toNat_and]
  change ((x.toNat >>> 4) <<< 4) % 256 ||| (x.toNat &&& 15) = x.toNat
  rw [hlow,Nat.shiftRight_eq_div_pow,Nat.shiftLeft_eq,Nat.mod_eq_of_lt (by omega),mul_comm,
    ← Nat.two_pow_add_eq_or_of_lt (by omega)]
  omega

theorem and_bit (x : UInt16) {m : UInt16} {k : ℕ} (hm : m.toNat = 2^k) :
    (if (x &&& m != 0) = true then m else 0) = x &&& m := by
  have hbit : x &&& m = 0 ∨ x &&& m = m := by
    rw [← UInt16.toNat_inj,← UInt16.toNat_inj,UInt16.toNat_and,hm,Nat.and_two_pow]
    cases x.toNat.testBit k
    · exact Or.inl (by simp)
    · exact Or.inr (by simp)
  rcases hbit with hzero | hone
  · simp [hzero]
  · by_cases hm0 : m = 0
    · simp [hm0]
    · simp [hone,hm0]

theorem and_or16 (x y z : UInt16) : x &&& (y ||| z) = (x &&& y) ||| (x &&& z) := by
  rw [UInt16.and_comm,IPv4Header.or_and16,UInt16.and_comm y,UInt16.and_comm z]

theorem foVal_split (x : UInt16) :
    IPv4Header.foVal (x &&& 0x4000 != 0) (x &&& 0x2000 != 0) (x &&& 0x1fff) = x &&& 0x7fff := by
  rw [IPv4Header.foVal,and_bit x (k := 14) rfl,and_bit x (k := 13) rfl,UInt16.and_assoc,
    UInt16.and_self,← and_or16,← and_or16]
  rfl

theorem fieldBytes_reserved (x : UInt16) : ∃ high low, fieldBytes x = [high,low] ∧
    fieldBytes (x &&& 0x7fff) = [high &&& 0x7f,low] := by
  refine ⟨UInt8.ofNat (x.toNat >>> 8),UInt8.ofNat x.toNat,rfl,?_⟩
  have hhigh : UInt8.ofNat ((x &&& 0x7fff).toNat >>> 8) = UInt8.ofNat (x.toNat >>> 8) &&& 0x7f := by
    rw [UInt16.toNat_and,Nat.shiftRight_and_distrib,UInt8.ofNat_and]
    rfl
  have hlow : UInt8.ofNat (x &&& 0x7fff).toNat = UInt8.ofNat x.toNat := by
    apply UInt8.toNat_inj.mp
    rw [UInt8.toNat_ofNat',UInt8.toNat_ofNat',UInt16.toNat_and]
    have hlow : x.toNat &&& 0x7fff = x.toNat % 2^15 := Nat.and_two_pow_sub_one_eq_mod x.toNat 15
    change (x.toNat &&& 0x7fff) % 2^8 = _
    rw [hlow,Nat.mod_mod_of_dvd _ (by norm_num)]
  change [UInt8.ofNat ((x &&& 0x7fff).toNat >>> 8),UInt8.ofNat (x &&& 0x7fff).toNat] = _
  rw [hhigh,hlow]

theorem reserved_clear_iff (x : UInt8) : x &&& 0x7f = x ↔ x &&& 0x80 = 0 := by
  have hx := x.toNat_lt
  have hlow : x.toNat &&& 0x7f = x.toNat % 2^7 := Nat.and_two_pow_sub_one_eq_mod x.toNat 7
  have hhigh : x.toNat &&& 0x80 = (x.toNat.testBit 7).toNat*2^7 := Nat.and_two_pow x.toNat 7
  rw [← UInt8.toNat_inj,← UInt8.toNat_inj,UInt8.toNat_and,UInt8.toNat_and]
  change x.toNat &&& 0x7f = x.toNat ↔ x.toNat &&& 0x80 = 0
  rw [hlow,hhigh,Nat.testBit_eq_decide_div_mod_eq]
  by_cases hbit : x.toNat / 2^7 % 2 = 1
  · simp only [hbit,decide_true,Bool.toNat_true]
    omega
  · simp only [hbit,decide_false,Bool.toNat_false]
    omega

theorem withoutOptions_eq_iff {b : List Byte} (hlen : 20 ≤ b.length) (hihl : 5 ≤ ihl b) :
    withoutOptions b = b ↔ Plain b := by
  have hsix : b.getD 6 0 = b[6] := by
    rw [List.getD_eq_getElem?_getD,List.getElem?_eq_getElem (by omega),Option.getD_some]
  have hsplit := List.take_append_drop 20 b
  constructor
  · intro heq
    have hlength := congrArg List.length heq
    have hbyte := congrArg (·[6]?) heq
    simp only [withoutOptions,List.length_append,List.length_set,List.length_take,
      List.length_drop] at hlength
    rw [withoutOptions,List.getElem?_append_left (by simp; omega),List.getElem?_set_self
      (by simp; omega),List.getElem?_eq_getElem (by omega),← hsix] at hbyte
    refine ⟨?_,(reserved_clear_iff _).mp (Option.some.inj hbyte)⟩
    by_cases hall : 4 * ihl b ≤ b.length
    · left
      omega
    · right
      omega
  · rintro ⟨hopts,hreserved⟩
    have hset : (b.take 20).set 6 (b.getD 6 0 &&& 0x7f) = b.take 20 := by
      rw [(reserved_clear_iff _).mpr hreserved,hsix]
      have hfront : 6 < (b.take 20).length := by
        rw [List.length_take]
        omega
      have hget : b[6] = (b.take 20)[6] := by simp
      rw [hget,List.set_getElem_self]
    have hdrop : b.drop (4 * ihl b) = b.drop 20 := by
      rcases hopts with hshort | hnone
      · rw [hshort]
      · rw [List.drop_eq_nil_of_le (by omega),List.drop_eq_nil_of_le (by omega)]
    rw [withoutOptions,hset,hdrop,hsplit]

namespace IPv4Header

variable {h h' h₀ : IPv4Header} {p p' : Parser} {v : List Byte}

/-- A header on the wire, whatever its first byte and its word of flags and offset are. -/
def wire (h : IPv4Header) (first : UInt8) (fo : UInt16) : List Byte :=
  fieldBytes first ++ (fieldBytes h.tos ++ (fieldBytes h.len ++ (fieldBytes h.id ++
    (fieldBytes fo ++ (fieldBytes h.ttl ++ (fieldBytes h.proto ++ (fieldBytes h.cksum ++
      (fieldBytes h.src ++ fieldBytes h.dst))))))))

theorem bytes_eq_wire (h : IPv4Header) :
    h.bytes = h.wire (firstByte h.ver h.hlen) (foVal h.df h.mf h.offset) := by
  simp only [bytes,bytesBeforeTTL,bytesAfterTTL,wire,List.append_assoc]

theorem length_wire (h : IPv4Header) (first : UInt8) (fo : UInt16) :
    (h.wire first fo).length = 20 := by
  simp only [wire,List.length_append,length_fieldBytes]
  rfl

theorem parseFields_wire (hv : p.input.Holds v []) (hp : h₀.parseFields p = .ok (h,p')) :
    ∃ v', p'.input.Holds v' [] ∧ (p'.error = false → ∃ fo,
      v = h.wire (firstByte h.ver h.hlen) fo ++ v' ∧
      foVal h.df h.mf h.offset = fo &&& 0x7fff) := by
  simp only [parseFields,bind_ok,Prod.exists] at hp
  obtain ⟨first,_,h₁,tos,_,h₂,len,_,h₃,id,_,h₄,fo,_,h₅,ttl,_,h₆,proto,_,h₇,cksum,_,h₈,src,_,h₉,
    dst,_,h₁₀,hret⟩ := hp
  obtain ⟨rfl,rfl⟩ := Prod.mk.inj (Except.ok.inj hret)
  obtain ⟨v₁,hv₁,i₁⟩ := Parser.integer_bytes hv h₁
  obtain ⟨v₂,hv₂,i₂⟩ := Parser.integer_bytes hv₁ h₂
  obtain ⟨v₃,hv₃,i₃⟩ := Parser.integer_bytes hv₂ h₃
  obtain ⟨v₄,hv₄,i₄⟩ := Parser.integer_bytes hv₃ h₄
  obtain ⟨v₅,hv₅,i₅⟩ := Parser.integer_bytes hv₄ h₅
  obtain ⟨v₆,hv₆,i₆⟩ := Parser.integer_bytes hv₅ h₆
  obtain ⟨v₇,hv₇,i₇⟩ := Parser.integer_bytes hv₆ h₇
  obtain ⟨v₈,hv₈,i₈⟩ := Parser.integer_bytes hv₇ h₈
  obtain ⟨v₉,hv₉,i₉⟩ := Parser.integer_bytes hv₈ h₉
  obtain ⟨v',hv',i₁₀⟩ := Parser.integer_bytes hv₉ h₁₀
  refine ⟨v',hv',fun hnone => ⟨fo,?_,foVal_split fo⟩⟩
  -- an error stays, so there was none before either
  obtain ⟨hnone,rfl⟩ := i₁₀ hnone
  obtain ⟨hnone,rfl⟩ := i₉ hnone
  obtain ⟨hnone,rfl⟩ := i₈ hnone
  obtain ⟨hnone,rfl⟩ := i₇ hnone
  obtain ⟨hnone,rfl⟩ := i₆ hnone
  obtain ⟨hnone,rfl⟩ := i₅ hnone
  obtain ⟨hnone,rfl⟩ := i₄ hnone
  obtain ⟨hnone,rfl⟩ := i₃ hnone
  obtain ⟨hnone,rfl⟩ := i₂ hnone
  obtain ⟨-,rfl⟩ := i₁ hnone
  simp only [wire,firstByte_split,List.append_assoc]

theorem verify_accepts (hp : h.verify p = .ok (h',p')) (hnone : p'.error = false) :
    p.error = false ∧ h.ver = 4 ∧ 5 ≤ h.hlen.toNat ∧ h' = h ∧
      p'.input = p.input.removePrefix (4 * h.hlen.toNat - 20) := by
  by_cases hver : h.ver = 4
  · simp only [verify,computeChecksum_eq hver] at hp
    obtain ⟨rfl,rfl⟩ := Prod.mk.inj (Except.ok.inj hp)
    by_cases hlen : h.hlen < 5
    · rw [if_pos hlen] at hnone
      split_ifs at hnone <;> simp [Parser.setError,Parser.removePrefix] at hnone
    · by_cases hsum : h.checksum = h.cksum
      · have hfive : 5 ≤ h.hlen.toNat := by
          rw [UInt8.lt_iff_toNat_lt] at hlen
          exact Nat.le_of_not_lt hlen
        have hskip : u64Sub (h.hlen.toNat*4) LENGTH = 4 * h.hlen.toNat - 20 := by
          have hsmall := h.hlen.toNat_lt
          rw [u64Sub_of_le (by omega) (by rw [LENGTH]; omega),LENGTH,mul_comm]
        simp only [hver,hlen,hsum,ne_eq,not_true_eq_false,if_false] at hnone
        have hsame : { h with cksum := h.checksum } = h := by rw [hsum]
        refine ⟨hnone,hver,hfive,hsame,?_⟩
        simp only [hver,hlen,hsum,ne_eq,not_true_eq_false,if_false,hskip]
        rfl
      · rw [if_pos hsum] at hnone
        cases hnone
  · simp [verify,computeChecksum_error hver] at hp

theorem ihl_wire (hver : h.ver = 4) (hrange : h.InRange) (fo : UInt16) (v : List Byte) :
    ihl (h.wire (firstByte h.ver h.hlen) fo ++ v) = h.hlen.toNat := by
  have hfirst : fieldBytes (firstByte h.ver h.hlen) = [firstByte h.ver h.hlen] := by
    simp [fieldBytes,BigEndian.bytes,UnsignedIntegral.size,UnsignedIntegral.toNat]
  rw [ihl,wire,hfirst]
  change (firstByte h.ver h.hlen &&& 0x0f).toNat = _
  rw [hver,firstByte_hlen hrange.hlen]

theorem wire_reserved (h : IPv4Header) (first : UInt8) (fo : UInt16) (v : List Byte) :
    (h.wire first fo).set 6 ((h.wire first fo ++ v).getD 6 0 &&& 0x7f) =
      h.wire first (fo &&& 0x7fff) := by
  obtain ⟨high,low,hbytes,hcleared⟩ := fieldBytes_reserved fo
  let front := fieldBytes first ++ (fieldBytes h.tos ++ (fieldBytes h.len ++ fieldBytes h.id))
  let back := fieldBytes h.ttl ++ (fieldBytes h.proto ++ (fieldBytes h.cksum ++
    (fieldBytes h.src ++ fieldBytes h.dst)))
  have hwire : ∀ x, h.wire first x = front ++ (fieldBytes x ++ back) := by
    intro x
    simp only [wire,front,back,List.append_assoc]
  have hfront : front.length = 6 := by
    simp only [front,List.length_append,length_fieldBytes]
    rfl
  have hsix : (h.wire first fo ++ v).getD 6 0 = high := by
    rw [hwire,hbytes,List.append_assoc,List.getD_append_right _ _ _ _ hfront.le,hfront]
    rfl
  rw [hsix,hwire,hwire,hbytes,hcleared,List.set_append_right _ _ hfront.le,hfront]
  rfl

/-- Writing an accepted header again gives the bytes it was read from, in front of what is behind
the options. -/
theorem withoutOptions_wire (hver : h.ver = 4) (hrange : h.InRange) (hlen : 5 ≤ h.hlen.toNat)
    {fo : UInt16} (hfo : foVal h.df h.mf h.offset = fo &&& 0x7fff) (v : List Byte) :
    withoutOptions (h.wire (firstByte h.ver h.hlen) fo ++ v) =
      h.bytes ++ v.drop (4 * h.hlen.toNat - 20) := by
  have hwire := h.length_wire (firstByte h.ver h.hlen) fo
  rw [withoutOptions,ihl_wire hver hrange,List.take_left' hwire,wire_reserved,bytes_eq_wire,hfo,
    List.drop_append,hwire,List.drop_eq_nil_of_le (by omega),List.nil_append]

end IPv4Header

variable {buffers out : List Buffer} {d d₀ : IPv4Datagram}

theorem IPv4Datagram.reencoded (hfull : ∀ b ∈ buffers, b ≠ [])
    (h : Parses IPv4Datagram.parse d₀ buffers d) :
    20 ≤ buffers.flatten.length ∧ 5 ≤ ihl buffers.flatten ∧
      ∃ out, d.serialized = .ok out ∧ out.flatten = withoutOptions buffers.flatten := by
  obtain ⟨p,hp,hnone⟩ := h
  simp only [parse,IPv4Header.parse,bind_ok,Prod.exists] at hp
  obtain ⟨header,q,⟨g,q₁,hfields,hverify⟩,payload,hpayload,hret⟩ := hp
  obtain ⟨rfl,rfl⟩ := Prod.mk.inj (Except.ok.inj hret)
  have hnew := Parser.new_holds buffers hfull []
  rw [List.append_nil] at hnew
  obtain ⟨v,hv,hwire⟩ := IPv4Header.parseFields_wire hnew.input hfields
  obtain ⟨hnone₁,hver,hlen,rfl,hinput⟩ := IPv4Header.verify_accepts hverify hnone
  obtain ⟨fo,hbytes,hfo⟩ := hwire hnone₁
  have hrange := IPv4Header.parseFields_inRange hfields
  -- the payload is what lies behind the options
  have hrest : q.Holds (v.drop (4 * header.hlen.toNat - 20)) [] :=
    ⟨hinput ▸ hv.drop (Or.inr rfl),hnone⟩
  obtain ⟨bufs,hbufs,hbehind⟩ := hrest.allRemaining
  obtain rfl := Except.ok.inj (hbufs.symm.trans hpayload)
  obtain ⟨out,hout,hflat⟩ := serialized_flatten (d := ⟨header,bufs⟩) hver
  rw [hbytes]
  refine ⟨?_,?_,out,hout,?_⟩
  · rw [List.length_append,IPv4Header.length_wire]
    omega
  · rw [IPv4Header.ihl_wire hver hrange]
    exact hlen
  · rw [IPv4Header.withoutOptions_wire hver hrange hlen hfo,hflat,hbehind]

theorem IPv4Datagram.parses_of_parsed (h : IPv4Datagram.parsed buffers = .ok (d,true)) :
    Parses IPv4Datagram.parse {} buffers d := by
  unfold parsed at h
  split at h
  · cases h
  · rename_i d' p hp
    obtain ⟨rfl,hnone⟩ := Prod.mk.inj (Except.ok.inj h)
    exact ⟨p,hp,by simpa using hnone⟩

/-- Only frames of ARP and one that carries the datagram are put behind those that wait. -/
theorem NetworkInterface.sendDatagram_frames {t t' : NetworkInterface} {hop : Address}
    {r : Except RuntimeError Unit} (h : t.sendDatagram d hop = .ok (t',r)) :
    ∃ fs, t'.ethFramesToBeSent = t.ethFramesToBeSent ++ fs ∧ ∀ f ∈ fs,
      f.header.type = EthernetHeader.TYPE_ARP ∨ ∃ dst, Carries t.ethernetAddress dst d f := by
  rcases sendDatagram_cases h with
    ⟨-,-,payload,rfl⟩ | ⟨-,-,rfl⟩ | ⟨-,node,frame,-,-,hcarries,rfl⟩ | ⟨-,-,rfl⟩
  · refine ⟨_,rfl,fun f hf => Or.inl ?_⟩
    rw [List.mem_singleton.mp hf]
    rfl
  · exact ⟨[],by simp,by simp⟩
  · refine ⟨[frame],rfl,fun f hf => Or.inr ⟨node.ethAddr,?_⟩⟩
    rw [List.mem_singleton.mp hf]
    exact hcarries
  · exact ⟨[],by simp,by simp⟩

theorem IPv4Datagram.serialized_parses (hfull : ∀ b ∈ buffers, b ≠ [])
    (h : Parses IPv4Datagram.parse d₀ buffers d) :
    ∃ out, d.serialized = .ok out ∧ out.flatten = withoutOptions buffers.flatten ∧
      (out.flatten = buffers.flatten ↔ Plain buffers.flatten) := by
  obtain ⟨hlen,hihl,out,hout,hflat⟩ := reencoded hfull h
  refine ⟨out,hout,hflat,?_⟩
  rw [hflat]
  exact withoutOptions_eq_iff hlen hihl

theorem NetworkInterface.Carries.payload_iff {s s' : NetworkInterface} {frame f : EthernetFrame}
    {src dst : EthernetAddress} (hcarries : Carries src dst d f)
    (hfull : ∀ b ∈ frame.payload, b ≠ []) (hwell : WellFormed frame)
    (hrecv : s.recvFrame frame = .ok (s',.ok (some d))) :
    f.payload.flatten = frame.payload.flatten ↔ Plain frame.payload.flatten := by
  have hparses := IPv4Datagram.parses_of_parsed (recvFrame_accepted hrecv hwell)
  obtain ⟨out,hout,-,hiff⟩ := IPv4Datagram.serialized_parses hfull hparses
  obtain ⟨payload,hpayload,rfl⟩ := hcarries
  obtain rfl := Except.ok.inj (hout.symm.trans hpayload)
  exact hiff

/-- Writing an accepted datagram gives it back byte for byte exactly if it has no options and its
reserved flag is zero; the same holds of every frame with a datagram that an interface has accepted,
and so of what it puts into the queue when it is given the datagram to send on. -/
theorem encoding_undoes_decoding_iff :
    (∀ buffers, (∀ b ∈ buffers, b ≠ []) → ∀ d₀ d, Parses IPv4Datagram.parse d₀ buffers d →
      ∃ out, d.serialized = .ok out ∧ out.flatten = withoutOptions buffers.flatten ∧
        (out.flatten = buffers.flatten ↔ Plain buffers.flatten)) ∧
    ∀ (s s' : NetworkInterface) (frame : EthernetFrame) (d : IPv4Datagram),
      (∀ b ∈ frame.payload, b ≠ []) → NetworkInterface.WellFormed frame →
      s.recvFrame frame = .ok (s',.ok (some d)) →
      (∀ src dst f, NetworkInterface.Carries src dst d f →
        (f.payload.flatten = frame.payload.flatten ↔ Plain frame.payload.flatten)) ∧
      ∀ (t t' : NetworkInterface) (hop : Address) r, t.sendDatagram d hop = .ok (t',r) →
        ∃ fs, t'.ethFramesToBeSent = t.ethFramesToBeSent ++ fs ∧ ∀ f ∈ fs,
          f.header.type = EthernetHeader.TYPE_ARP ∨
            (f.payload.flatten = frame.payload.flatten ↔ Plain frame.payload.flatten) := by
  refine ⟨fun buffers hfull d₀ d => IPv4Datagram.serialized_parses hfull,?_⟩
  intro s s' frame d hfull hwell hrecv
  have hpayload := fun src dst f (hcarries : NetworkInterface.Carries src dst d f) =>
    hcarries.payload_iff hfull hwell hrecv
  refine ⟨hpayload,?_⟩
  intro t t' hop r hsend
  obtain ⟨fs,hfs,hall⟩ := NetworkInterface.sendDatagram_frames hsend
  refine ⟨fs,hfs,fun f hf => ?_⟩
  rcases hall f hf with harp | ⟨dst,hcarries⟩
  · exact Or.inl harp
  · exact Or.inr (hpayload _ dst f hcarries)

theorem encoding_undoes_decoding_iff_plain :
    ∃ (buffers : List Buffer) (d : IPv4Datagram) (t t' : NetworkInterface) (f : EthernetFrame),
      buffers = [[0x45],[0,0,22,0,0,0,0,64,6,0x66],[0xe0,10,0,0,1,10,0,0,2,7],[8]] ∧
      (∃ out, d.serialized = .ok out ∧ out.flatten = buffers.flatten) ∧
      (NetworkInterface.new ETHERNET_BROADCAST 7).recvFrame
        ⟨⟨ETHERNET_BROADCAST,ETHERNET_BROADCAST,EthernetHeader.TYPE_IPv4⟩,buffers⟩ =
          .ok (NetworkInterface.new ETHERNET_BROADCAST 7,.ok (some d)) ∧
      t.sendDatagram d 9 = .ok (t',.ok ()) ∧ t.ethFramesToBeSent = [] ∧
      t'.ethFramesToBeSent = [f] ∧ f.payload.flatten = buffers.flatten := by
  let buffers : List Buffer :=
    [[0x45],[0,0,22,0,0,0,0,64,6,0x66],[0xe0,10,0,0,1,10,0,0,2,7],[8]]
  let d : IPv4Datagram :=
    ⟨⟨4,5,0,22,0,false,false,0,64,6,0x66e0,0x0a000001,0x0a000002⟩,[[7],[8]]⟩
  let frame : EthernetFrame :=
    ⟨⟨ETHERNET_BROADCAST,ETHERNET_BROADCAST,EthernetHeader.TYPE_IPv4⟩,buffers⟩
  let s := NetworkInterface.new ETHERNET_BROADCAST 7
  let t : NetworkInterface := { s with
    arpMappingQueue := Deque.empty.pushBack ⟨9,ETHERNET_BROADCAST,0⟩
    arpTable := fun _ => { arpMappingNodePtr := some 0 } }
  have hfull : ∀ b ∈ buffers, b ≠ [] := by decide
  have hplain : Plain buffers.flatten := by decide +kernel
  have hparsed : IPv4Datagram.parsed buffers = .ok (d,true) := by decide +kernel
  have hrecv : s.recvFrame frame = .ok (s,.ok (some d)) := by
    simp [frame,s,NetworkInterface.recvFrame,hparsed]
  obtain ⟨hserialized,hinterface⟩ := encoding_undoes_decoding_iff
  obtain ⟨out,hout,-,hiff⟩ := hserialized buffers hfull {} d (IPv4Datagram.parses_of_parsed hparsed)
  obtain ⟨hcarries,-⟩ := hinterface s s frame d hfull (Or.inl ⟨rfl,d,hparsed⟩) hrecv
  let f : EthernetFrame :=
    ⟨⟨ETHERNET_BROADCAST,ETHERNET_BROADCAST,EthernetHeader.TYPE_IPv4⟩,out⟩
  have hsend : t.sendDatagram d 9 = .ok (t.emplaceFrame f,.ok ()) := by
    simp [t,s,f,NetworkInterface.sendDatagram,Deque.deref,Deque.pushBack,Deque.empty,hout,
      NetworkInterface.new]
  exact ⟨buffers,d,t,t.emplaceFrame f,f,rfl,⟨out,hout,hiff.mpr hplain⟩,hrecv,hsend,rfl,rfl,
    (hcarries _ _ f ⟨out,hout,rfl⟩).mpr hplain⟩

/-- Four bytes of options are dropped, and the reserved flag is cleared. -/
theorem encoding_loses_options_and_flag :
    (∃ buffers d out, (∀ b ∈ buffers, b ≠ []) ∧ Parses IPv4Datagram.parse {} buffers d ∧
      buffers = [[0x46,0,0,24,0,0,0,0,64,6,0x65,0xde,10,0,0,1,10,0,0,2,0,0,0,0]] ∧
      d.serialized = .ok out ∧ out.flatten ≠ buffers.flatten) ∧
    ∃ buffers d out, (∀ b ∈ buffers, b ≠ []) ∧ Parses IPv4Datagram.parse {} buffers d ∧
      buffers = [[0x45,0,0,20,0,0,0x80,0,64,6,0x66,0xe2,10,0,0,1,10,0,0,2]] ∧
      d.serialized = .ok out ∧ out.flatten ≠ buffers.flatten := by
  constructor
  · have hparsed : IPv4Datagram.parsed
        [[0x46,0,0,24,0,0,0,0,64,6,0x65,0xde,10,0,0,1,10,0,0,2,0,0,0,0]] =
          .ok (⟨⟨4,6,0,24,0,false,false,0,64,6,0x65de,0x0a000001,0x0a000002⟩,[]⟩,true) := by
      decide +kernel
    exact ⟨_,_,[[0x46,0,0,24,0,0,0,0,64,6,0x65,0xde,10,0,0,1,10,0,0,2]],by decide,
      IPv4Datagram.parses_of_parsed hparsed,rfl,by decide +kernel,by decide⟩
  · have hparsed : IPv4Datagram.parsed
        [[0x45,0,0,20,0,0,0x80,0,64,6,0x66,0xe2,10,0,0,1,10,0,0,2]] =
          .ok (⟨⟨4,5,0,20,0,false,false,0,64,6,0x66e2,0x0a000001,0x0a000002⟩,[]⟩,true) := by
      decide +kernel
    exact ⟨_,_,[[0x45,0,0,20,0,0,0,0,64,6,0x66,0xe2,10,0,0,1,10,0,0,2]],by decide,
      IPv4Datagram.parses_of_parsed hparsed,rfl,by decide +kernel,by decide⟩

end Minnow
