import Minnow.Reencoding

/-! Which bytes the parsers accept, and what the checksum of a header cannot miss. -/
namespace Minnow

open Library

namespace InternetChecksum

theorem pow_modEq (n : ℕ) : 256^n ≡ if n % 2 = 1 then 256 else 1 [MOD 2^16-1] := by
  induction n with
  | zero => rfl
  | succ n ih =>
    have hstep := ih.mul_right 256
    rw [← pow_succ] at hstep
    rcases Nat.mod_two_eq_zero_or_one n with hn | hn
    · rw [if_neg (by omega)] at hstep
      rwa [if_pos (by omega),← Nat.one_mul 256]
    · rw [if_pos hn] at hstep
      rw [if_neg (by omega)]
      exact hstep.trans (OnesComplement.two_pow_modEq 16)

theorem words_modEq (bs : List Byte) :
    words (decide (bs.length % 2 = 1)) bs ≡ BigEndian.value bs [MOD 2^16-1] := by
  induction bs with
  | nil => rfl
  | cons b bs ih =>
    have hpar : (!decide ((b::bs).length % 2 = 1)) = decide (bs.length % 2 = 1) := by
      rcases Nat.mod_two_eq_zero_or_one bs.length with h | h
      · simp [Nat.add_mod,h]
      · simp [Nat.add_mod,h]
    have hplace : (if decide ((b::bs).length % 2 = 1) = true then b.toNat else b.toNat*256) =
        b.toNat*(if bs.length % 2 = 1 then 256 else 1) := by
      rcases Nat.mod_two_eq_zero_or_one bs.length with h | h
      · simp [Nat.add_mod,h]
      · simp [Nat.add_mod,h]
    rw [words,hpar,hplace,BigEndian.value_cons]
    exact ((pow_modEq bs.length).symm.mul_left b.toNat).add ih

theorem value_toNat {c : InternetChecksum} (h : c.sum < 2^32) :
    c.value.toNat + OnesComplement.fold 16 2 c.sum = 2^16 - 1 := by
  have hlt := OnesComplement.fold_two_lt (w := 16) (by norm_num) h
  rw [value,UInt16.toNat_not,UInt16.toNat_ofNat_of_lt' hlt]
  simp only [UInt16.size]
  omega

end InternetChecksum

namespace IPv4Header

variable {h : IPv4Header}

theorem bytes_cksum (h : IPv4Header) : ∃ front back : List Byte, front.length = 10 ∧
    ∀ c, { h with cksum := c }.bytes = front ++ (fieldBytes c ++ back) := by
  refine ⟨h.bytesBeforeTTL ++ (fieldBytes h.ttl ++ fieldBytes h.proto),
    fieldBytes h.src ++ fieldBytes h.dst,?_,fun c => ?_⟩
  · simp only [List.length_append,length_bytesBeforeTTL,length_fieldBytes]
    rfl
  · simp only [bytes,bytesAfterTTL,List.append_assoc]
    rfl

theorem words_word (c : UInt16) : InternetChecksum.words false (fieldBytes c) = c.toNat := by
  have hc := c.toNat_lt
  change (UInt8.ofNat (c.toNat >>> 8)).toNat*256 + ((UInt8.ofNat (c.toNat >>> 0)).toNat + 0) = _
  rw [UInt8.toNat_ofNat',UInt8.toNat_ofNat',Nat.shiftRight_eq_div_pow,Nat.shiftRight_zero]
  omega

theorem words_cksum (h : IPv4Header) :
    InternetChecksum.words false h.bytes =
      InternetChecksum.words false { h with cksum := 0 }.bytes + h.cksum.toNat := by
  obtain ⟨front,back,hfront,hbytes⟩ := h.bytes_cksum
  have hsum : ∀ c, InternetChecksum.words false { h with cksum := c }.bytes =
      InternetChecksum.words false front + (c.toNat + InternetChecksum.words false back) := by
    intro c
    rw [hbytes,InternetChecksum.words_append,hfront,
      show (false ^^ decide (10 % 2 = 1)) = false from rfl,InternetChecksum.words_append,words_word,
      length_fieldBytes]
    rfl
  have hself : InternetChecksum.words false h.bytes = _ := hsum h.cksum
  rw [hself,hsum 0,show (0 : UInt16).toNat = 0 from rfl]
  omega

/-- The right checksum makes the header, read as a number, a multiple of `2^16-1`; of the two words
that are zero there it is never the larger one. -/
theorem checksum_eq_iff (hver : h.ver = 4) : h.checksum = h.cksum ↔
    BigEndian.value h.bytes ≡ 0 [MOD 2^16-1] ∧ h.cksum ≠ 0xffff := by
  have hnumber : InternetChecksum.words false h.bytes ≡ BigEndian.value h.bytes [MOD 2^16-1] := by
    have hwords := InternetChecksum.words_modEq h.bytes
    rwa [length_bytes] at hwords
  have hvalue := InternetChecksum.value_toNat (sum_add_bytes_lt { h with cksum := 0 })
  have hmod := OnesComplement.fold_modEq 16 2 (InternetChecksum.new.add { h with cksum := 0 }.bytes).sum
  have hpos : 0 < InternetChecksum.words false { h with cksum := 0 }.bytes := by
    have hfirst : firstByte h.ver h.hlen ≠ 0 := by
      intro hzero
      have hfour := firstByte_ver h.hlen
      rw [← hver,hzero,hver] at hfour
      exact absurd hfour (by decide)
    have hnat : 0 < (firstByte h.ver h.hlen).toNat :=
      Nat.pos_of_ne_zero fun hz => hfirst (UInt8.toNat_inj.mp hz)
    change 0 < (UInt8.ofNat ((firstByte h.ver h.hlen).toNat >>> 0)).toNat*256 + _
    rw [Nat.shiftRight_zero,UInt8.ofNat_toNat]
    omega
  rw [sum_add_bytes] at hvalue hmod
  have hfold := OnesComplement.fold_pos (w := 16) (k := 2) hpos
  have hc := h.cksum.toNat_lt
  change h.checksum.toNat + _ = _ at hvalue
  rw [words_cksum] at hnumber
  rw [← UInt16.toNat_inj,Ne,← UInt16.toNat_inj]
  change _ ↔ _ ∧ ¬ h.cksum.toNat = 65535
  have hcarry : BigEndian.value h.bytes ≡ 0 [MOD 2^16-1] ↔ OnesComplement.fold 16 2
      (InternetChecksum.words false { h with cksum := 0 }.bytes) + h.cksum.toNat ≡ 0
        [MOD 2^16-1] :=
    ⟨fun hz => ((hmod.add_right _).trans hnumber).trans hz,
      fun hz => (hnumber.symm.trans (hmod.symm.add_right _)).trans hz⟩
  rw [hcarry]
  simp only [Nat.ModEq]
  omega

end IPv4Header

namespace Parser

variable {p p' : Parser} {v : List Byte}

theorem Holds.integer_ok {T : Type} [UnsignedIntegral T] (h : p.Holds v []) (k : ℕ)
    (hlen : UnsignedIntegral.size T + k ≤ v.length) (out : T) :
    ∃ x p' v', p.integer out = .ok (x,p') ∧ p'.Holds v' [] ∧ k ≤ v'.length := by
  have hsplit := List.take_append_drop (UnsignedIntegral.size T) v
  rw [← hsplit] at h
  obtain ⟨p',hrun,hp'⟩ := h.integer_taken (List.length_take_of_le (by omega)) out
  refine ⟨_,p',_,hrun,hp',?_⟩
  rw [List.length_drop]
  omega

theorem Holds.address_ok {n : ℕ} (h : p.Holds v []) (k : ℕ) (hlen : n + k ≤ v.length)
    (out : List.Vector Byte n) :
    ∃ bytes p' v', p.address out = .ok (bytes,p') ∧ p'.Holds v' [] ∧ k ≤ v'.length := by
  induction n generalizing p v with
  | zero => exact ⟨out,p,v,rfl,h,by omega⟩
  | succ n ih =>
    obtain ⟨b,q,w,hb,hq,hw⟩ := h.integer_ok (n + k) (by change 1 + (n + k) ≤ _; omega) out.head
    obtain ⟨bs,p',v',hbs,hp',hk⟩ := ih hq hw out.tail
    refine ⟨b ::ᵥ bs,p',v',?_,hp',hk⟩
    simp only [Parser.address,hb,hbs,bind,Except.bind,pure,Except.pure]

theorem address_bytes {n : ℕ} {bytes out : List.Vector Byte n} (hv : p.input.Holds v [])
    (hrun : p.address out = .ok (bytes,p')) : ∃ v', p'.input.Holds v' [] ∧
      (p'.error = false → p.error = false ∧ v = addressBytes bytes ++ v') := by
  induction n generalizing p v with
  | zero =>
    obtain ⟨rfl,rfl⟩ := Prod.mk.inj (Except.ok.inj hrun)
    obtain rfl : out = List.Vector.nil := Subsingleton.elim _ _
    exact ⟨v,hv,fun hnone => ⟨hnone,rfl⟩⟩
  | succ n ih =>
    rw [Parser.address] at hrun
    simp only [bind_ok,Prod.exists] at hrun
    obtain ⟨b,q,hb,bs,q',hbs,hret⟩ := hrun
    obtain ⟨rfl,rfl⟩ := Prod.mk.inj (Except.ok.inj hret)
    obtain ⟨w,hw,hfirst⟩ := integer_bytes hv hb
    obtain ⟨v',hv',hrest⟩ := ih hw hbs
    refine ⟨v',hv',fun hnone => ?_⟩
    obtain ⟨hq,rfl⟩ := hrest hnone
    obtain ⟨hp,rfl⟩ := hfirst hq
    refine ⟨hp,?_⟩
    simp [addressBytes]

end Parser

variable {buffers : List Buffer} {p p' : Parser} {v : List Byte}

theorem new_holds_all (hfull : ∀ b ∈ buffers, b ≠ []) :
    (Parser.new buffers).Holds buffers.flatten [] := by
  have hnew := Parser.new_holds buffers hfull []
  rwa [List.append_nil] at hnew

theorem EthernetHeader.parse_wire {h₀ h : EthernetHeader} (hv : p.input.Holds v [])
    (hp : h₀.parse p = .ok (h,p')) (hnone : p'.error = false) :
    ∃ v', v = h.bytes ++ v' ∧ p'.Holds v' [] := by
  simp only [parse,bind_ok,Prod.exists] at hp
  obtain ⟨dst,_,h₁,src,_,h₂,type,_,h₃,hret⟩ := hp
  obtain ⟨rfl,rfl⟩ := Prod.mk.inj (Except.ok.inj hret)
  obtain ⟨v₁,hv₁,i₁⟩ := Parser.address_bytes hv h₁
  obtain ⟨v₂,hv₂,i₂⟩ := Parser.address_bytes hv₁ h₂
  obtain ⟨v',hv',i₃⟩ := Parser.integer_bytes hv₂ h₃
  refine ⟨v',?_,hv',hnone⟩
  obtain ⟨hnone,rfl⟩ := i₃ hnone
  obtain ⟨hnone,rfl⟩ := i₂ hnone
  obtain ⟨-,rfl⟩ := i₁ hnone
  simp only [bytes,List.append_assoc]

theorem length_addressBytes {n : ℕ} (bytes : List.Vector Byte n) : (addressBytes bytes).length = n := by
  have hone : ∀ bs : List Byte, (bs.flatMap fieldBytes).length = bs.length := by
    intro bs
    induction bs with
    | nil => rfl
    | cons b bs ih =>
      rw [List.flatMap_cons,List.length_append,ih,IPv4Header.length_fieldBytes,List.length_cons]
      exact Nat.add_comm 1 bs.length
  rw [addressBytes,hone,bytes.toList_length]

theorem EthernetHeader.length_bytes (h : EthernetHeader) : h.bytes.length = 14 := by
  simp only [bytes,List.length_append,length_addressBytes,IPv4Header.length_fieldBytes]
  rfl

theorem EthernetFrame.parses_iff (hfull : ∀ b ∈ buffers, b ≠ []) (f₀ : EthernetFrame) :
    ((∃ f, Parses EthernetFrame.parse f₀ buffers f) ↔ 14 ≤ buffers.flatten.length) ∧
      ∀ f, Parses EthernetFrame.parse f₀ buffers f → f.serialized.flatten = buffers.flatten := by
  have hnew := new_holds_all hfull
  have hbytes : ∀ f, Parses EthernetFrame.parse f₀ buffers f →
      f.serialized.flatten = buffers.flatten := by
    rintro f ⟨q,hparse,hnone⟩
    simp only [EthernetFrame.parse,bind_ok,Prod.exists] at hparse
    obtain ⟨header,q',hheader,payload,hpayload,hret⟩ := hparse
    obtain ⟨rfl,rfl⟩ := Prod.mk.inj (Except.ok.inj hret)
    obtain ⟨v',hv,hq⟩ := EthernetHeader.parse_wire hnew.input hheader hnone
    obtain ⟨bufs,hbufs,hrest⟩ := hq.allRemaining
    obtain rfl := Except.ok.inj (hbufs.symm.trans hpayload)
    rw [EthernetFrame.serialized_flatten,hrest,hv]
  refine ⟨⟨?_,?_⟩,hbytes⟩
  · rintro ⟨f,hf⟩
    rw [← hbytes f hf,EthernetFrame.serialized_flatten,List.length_append,EthernetHeader.length_bytes]
    omega
  · intro hlen
    obtain ⟨dst,p₁,v₁,h₁,hp,hlen⟩ := hnew.address_ok 8 hlen f₀.header.dst
    obtain ⟨src,p₂,v₂,h₂,hp,hlen⟩ := hp.address_ok 2 hlen f₀.header.src
    obtain ⟨type,p₃,v₃,h₃,hp,-⟩ := hp.integer_ok 0 hlen f₀.header.type
    obtain ⟨payload,hpayload,-⟩ := hp.allRemaining
    refine ⟨⟨⟨dst,src,type⟩,payload⟩,p₃,?_,hp.error⟩
    simp only [EthernetFrame.parse,EthernetHeader.parse,h₁,h₂,h₃,hpayload,bind,Except.bind,pure,
      Except.pure]

theorem ARPMessage.parse_wire {m₀ m : ARPMessage} (hv : p.input.Holds v [])
    (hp : m₀.parse p = .ok (m,p')) (hnone : p'.error = false) :
    m.supported = true ∧ m.bytes <+: v := by
  simp only [parse,bind_ok,Prod.exists] at hp
  obtain ⟨hardwareType,_,h₁,protocolType,_,h₂,hardwareAddressSize,_,h₃,protocolAddressSize,_,h₄,
    opcode,_,h₅,hp⟩ := hp
  split_ifs at hp with hkind
  · simp only [parseAddresses,bind_ok,Prod.exists] at hp
    obtain ⟨senderEth,_,h₆,senderIp,_,h₇,targetEth,_,h₈,targetIp,_,h₉,hret⟩ := hp
    obtain ⟨rfl,rfl⟩ := Prod.mk.inj (Except.ok.inj hret)
    obtain ⟨v₁,hv₁,i₁⟩ := Parser.integer_bytes hv h₁
    obtain ⟨v₂,hv₂,i₂⟩ := Parser.integer_bytes hv₁ h₂
    obtain ⟨v₃,hv₃,i₃⟩ := Parser.integer_bytes hv₂ h₃
    obtain ⟨v₄,hv₄,i₄⟩ := Parser.integer_bytes hv₃ h₄
    obtain ⟨v₅,hv₅,i₅⟩ := Parser.integer_bytes hv₄ h₅
    obtain ⟨v₆,hv₆,i₆⟩ := Parser.address_bytes hv₅ h₆
    obtain ⟨v₇,hv₇,i₇⟩ := Parser.integer_bytes hv₆ h₇
    obtain ⟨v₈,hv₈,i₈⟩ := Parser.address_bytes hv₇ h₈
    obtain ⟨v₉,-,i₉⟩ := Parser.integer_bytes hv₈ h₉
    refine ⟨hkind,v₉,?_⟩
    obtain ⟨hnone,rfl⟩ := i₉ hnone
    obtain ⟨hnone,rfl⟩ := i₈ hnone
    obtain ⟨hnone,rfl⟩ := i₇ hnone
    obtain ⟨hnone,rfl⟩ := i₆ hnone
    obtain ⟨hnone,rfl⟩ := i₅ hnone
    obtain ⟨hnone,rfl⟩ := i₄ hnone
    obtain ⟨hnone,rfl⟩ := i₃ hnone
    obtain ⟨hnone,rfl⟩ := i₂ hnone
    obtain ⟨-,rfl⟩ := i₁ hnone
    simp only [bytes,List.append_assoc]
  · obtain ⟨-,rfl⟩ := Prod.mk.inj (Except.ok.inj hp)
    cases hnone

theorem ARPMessage.parses_iff (hfull : ∀ b ∈ buffers, b ≠ []) (m₀ m : ARPMessage) :
    Parses ARPMessage.parse m₀ buffers m ↔ m.supported = true ∧ m.bytes <+: buffers.flatten := by
  have hnew := new_holds_all hfull
  constructor
  · rintro ⟨q,hparse,hnone⟩
    exact parse_wire hnew.input hparse hnone
  · rintro ⟨hkind,v,hv⟩
    rw [← hv] at hnew
    obtain ⟨q,hparse,hq⟩ := parse_bytes hkind hnew m₀
    exact ⟨q,hparse,hq.error⟩

/-- A frame is accepted exactly if it has the bytes of a header, and is written again byte for byte; an
ARP message is what is read exactly if it is supported and its bytes come first. -/
theorem link_layer_accepts_iff (hfull : ∀ b ∈ buffers, b ≠ []) :
    (∀ f₀, ((∃ f, Parses EthernetFrame.parse f₀ buffers f) ↔ 14 ≤ buffers.flatten.length) ∧
      ∀ f, Parses EthernetFrame.parse f₀ buffers f → f.serialized.flatten = buffers.flatten) ∧
    ∀ m₀ m, Parses ARPMessage.parse m₀ buffers m ↔
      m.supported = true ∧ m.bytes <+: buffers.flatten :=
  ⟨EthernetFrame.parses_iff hfull,ARPMessage.parses_iff hfull⟩

theorem link_layer_accepts_iff_request : ∃ (buffers : List Buffer) (m : ARPMessage)
    (f : EthernetFrame), buffers.length = 2 ∧ Parses ARPMessage.parse {} buffers m ∧
      Parses EthernetFrame.parse (EthernetFrame.broadcast ETHERNET_BROADCAST 0 []) buffers f ∧
      f.serialized.flatten = buffers.flatten := by
  let m := ARPMessage.request ETHERNET_BROADCAST 1 2
  let buffers : List Buffer := [m.bytes.take 3,m.bytes.drop 3 ++ [0,0]]
  have hfull : ∀ b ∈ buffers, b ≠ [] := by decide +kernel
  have hfirst : m.bytes <+: buffers.flatten := by decide +kernel
  have hsupported : m.supported = true := by decide +kernel
  have hlen : 14 ≤ buffers.flatten.length := by decide +kernel
  obtain ⟨hframe,harp⟩ := link_layer_accepts_iff hfull
  obtain ⟨hiff,hwritten⟩ := hframe (EthernetFrame.broadcast ETHERNET_BROADCAST 0 [])
  obtain ⟨f,hf⟩ := hiff.mpr hlen
  exact ⟨buffers,m,f,rfl,(harp {} m).mpr ⟨hsupported,hfirst⟩,hf,hwritten f hf⟩

/-- What the checksum of a datagram is about: its first twenty bytes, without the reserved flag. -/
def summed (b : List Byte) : List Byte := (b.take 20).set 6 (b.getD 6 0 &&& 0x7f)

def summedNumber (b : List Byte) : ℕ := BigEndian.value (summed b)

/-- What a string of bytes must be to be accepted as a datagram. -/
structure Accepted (b : List Byte) : Prop where
  length : 20 ≤ b.length
  version : b.getD 0 0 >>> 4 = 4
  words : 5 ≤ ihl b
  sum : summedNumber b ≡ 0 [MOD 2^16-1]
  cksum : ¬(b.getD 10 0 = 0xff ∧ b.getD 11 0 = 0xff)

namespace IPv4Header

variable {h h' h₀ : IPv4Header}

theorem fieldBytes_eq_ff (c : UInt16) : ∃ high low, fieldBytes c = [high,low] ∧
    (c = 0xffff ↔ high = 0xff ∧ low = 0xff) := by
  refine ⟨UInt8.ofNat (c.toNat >>> 8),UInt8.ofNat c.toNat,rfl,?_⟩
  have hc := c.toNat_lt
  rw [← UInt16.toNat_inj,← UInt8.toNat_inj,← UInt8.toNat_inj,UInt8.toNat_ofNat',UInt8.toNat_ofNat',
    Nat.shiftRight_eq_div_pow]
  change c.toNat = 65535 ↔ c.toNat / 2^8 % 2^8 = 255 ∧ c.toNat % 2^8 = 255
  omega

theorem cksum_wire (h : IPv4Header) (first : UInt8) (fo : UInt16) (v : List Byte) :
    h.cksum = 0xffff ↔ (h.wire first fo ++ v).getD 10 0 = 0xff ∧
      (h.wire first fo ++ v).getD 11 0 = 0xff := by
  obtain ⟨high,low,hbytes,hff⟩ := fieldBytes_eq_ff h.cksum
  let front := fieldBytes first ++ (fieldBytes h.tos ++ (fieldBytes h.len ++ (fieldBytes h.id ++
    (fieldBytes fo ++ (fieldBytes h.ttl ++ fieldBytes h.proto)))))
  have hfront : front.length = 10 := by
    simp only [front,List.length_append,length_fieldBytes]
    rfl
  have hwire : h.wire first fo ++ v =
      front ++ (high::low::(fieldBytes h.src ++ (fieldBytes h.dst ++ v))) := by
    simp only [wire,front,List.append_assoc,hbytes,List.cons_append,List.nil_append]
  rw [hff,hwire,List.getD_append_right _ _ _ _ hfront.le,
    List.getD_append_right _ _ _ _ (by omega),hfront]
  rfl

theorem parseFields_ok (hp : p.Holds v []) (hlen : 20 ≤ v.length) (h₀ : IPv4Header) :
    ∃ h p', h₀.parseFields p = .ok (h,p') ∧ p'.error = false := by
  obtain ⟨first,p₁,v₁,h₁,hp,hlen⟩ := hp.integer_ok 19 hlen (0 : UInt8)
  obtain ⟨tos,p₂,v₂,h₂,hp,hlen⟩ := hp.integer_ok 18 hlen h₀.tos
  obtain ⟨len,p₃,v₃,h₃,hp,hlen⟩ := hp.integer_ok 16 hlen h₀.len
  obtain ⟨id,p₄,v₄,h₄,hp,hlen⟩ := hp.integer_ok 14 hlen h₀.id
  obtain ⟨fo,p₅,v₅,h₅,hp,hlen⟩ := hp.integer_ok 12 hlen (0 : UInt16)
  obtain ⟨ttl,p₆,v₆,h₆,hp,hlen⟩ := hp.integer_ok 11 hlen h₀.ttl
  obtain ⟨proto,p₇,v₇,h₇,hp,hlen⟩ := hp.integer_ok 10 hlen h₀.proto
  obtain ⟨cksum,p₈,v₈,h₈,hp,hlen⟩ := hp.integer_ok 8 hlen h₀.cksum
  obtain ⟨src,p₉,v₉,h₉,hp,hlen⟩ := hp.integer_ok 4 hlen h₀.src
  obtain ⟨dst,p',v',h',hp,-⟩ := hp.integer_ok 0 hlen h₀.dst
  have hrun : ∃ h, h₀.parseFields p = .ok (h,p') := by
    simp only [parseFields,h₁,h₂,h₃,h₄,h₅,h₆,h₇,h₈,h₉,h',bind,Except.bind,pure,Except.pure,
      Except.ok.injEq,Prod.mk.injEq,and_true,exists_eq']
  obtain ⟨h,hfields⟩ := hrun
  exact ⟨h,p',hfields,hp.error⟩

theorem parseFields_ver (hp : h₀.parseFields p = .ok (h,p')) : h.ver.toNat < 16 := by
  simp only [parseFields,bind_ok,Prod.exists] at hp
  obtain ⟨first,_,-,tos,_,-,len,_,-,id,_,-,fo,_,-,ttl,_,-,proto,_,-,cksum,_,-,src,_,-,dst,_,-,hret⟩ := hp
  obtain ⟨rfl,-⟩ := Prod.mk.inj (Except.ok.inj hret)
  have hfirst := first.toNat_lt
  change (first >>> 4).toNat < 16
  rw [UInt8.toNat_shiftRight,Nat.shiftRight_eq_div_pow]
  change first.toNat / 2^4 < 16
  omega

theorem firstByte_four {ver : UInt8} (hver : ver.toNat < 16) {hlen : UInt8}
    (hfour : firstByte ver hlen >>> 4 = 4) : ver = 4 := by
  have hlow : (hlen.toNat &&& UInt8.toNat 0x0f) >>> (UInt8.toNat 4 % 8) = 0 := by
    rw [Nat.shiftRight_eq_zero]
    exact Nat.and_lt_two_pow _ (by decide)
  have hhigh : (ver <<< 4).toNat >>> 4 = ver.toNat := by
    rw [UInt8.toNat_shiftLeft]
    change (ver.toNat <<< 4 % 256) >>> 4 = _
    rw [Nat.shiftLeft_eq,Nat.mod_eq_of_lt (by omega),Nat.shiftRight_eq_div_pow]
    omega
  rw [← UInt8.toNat_inj] at hfour ⊢
  simp only [firstByte,UInt8.toNat_shiftRight,UInt8.toNat_or,Nat.shiftRight_or_distrib,
    UInt8.toNat_and,hlow,Nat.or_zero] at hfour
  exact hhigh.symm.trans hfour

theorem accepted_wire (hver : h.ver.toNat < 16) (hrange : h.InRange) {fo : UInt16}
    (hfo : foVal h.df h.mf h.offset = fo &&& 0x7fff) (v : List Byte) :
    Accepted (h.wire (firstByte h.ver h.hlen) fo ++ v) ↔
      h.ver = 4 ∧ 5 ≤ h.hlen.toNat ∧ h.checksum = h.cksum := by
  have hwire := h.length_wire (firstByte h.ver h.hlen) fo
  have hsummed : summed (h.wire (firstByte h.ver h.hlen) fo ++ v) = h.bytes := by
    rw [summed,List.take_left' hwire,wire_reserved,bytes_eq_wire,hfo]
  have hfirst : (h.wire (firstByte h.ver h.hlen) fo ++ v).getD 0 0 = firstByte h.ver h.hlen := by
    change UInt8.ofNat ((firstByte h.ver h.hlen).toNat >>> 0) = _
    rw [Nat.shiftRight_zero,UInt8.ofNat_toNat]
  constructor
  · intro hacc
    have hfour : h.ver = 4 := by
      have hversion := hacc.version
      rw [hfirst] at hversion
      exact firstByte_four hver hversion
    have hwords := hacc.words
    have hsum := hacc.sum
    rw [ihl_wire hfour hrange] at hwords
    rw [summedNumber,hsummed] at hsum
    exact ⟨hfour,hwords,(checksum_eq_iff hfour).mpr
      ⟨hsum,fun hff => hacc.cksum ((cksum_wire h _ fo v).mp hff)⟩⟩
  · rintro ⟨hfour,hwords,hsum⟩
    obtain ⟨hzero,hff⟩ := (checksum_eq_iff hfour).mp hsum
    refine ⟨?_,?_,?_,?_,fun hbytes => hff ((cksum_wire h _ fo v).mpr hbytes)⟩
    · rw [List.length_append,hwire]
      omega
    · rw [hfirst,hfour,firstByte_ver]
    · rwa [ihl_wire hfour hrange]
    · rwa [summedNumber,hsummed]

end IPv4Header

variable {d d' d₀ d₀' : IPv4Datagram} {buffers' : List Buffer}

theorem IPv4Datagram.accepted (hfull : ∀ b ∈ buffers, b ≠ [])
    (h : Parses IPv4Datagram.parse d₀ buffers d) : Accepted buffers.flatten := by
  obtain ⟨q,hparse,hnone⟩ := h
  simp only [parse,IPv4Header.parse,bind_ok,Prod.exists] at hparse
  obtain ⟨header,q',⟨g,q₁,hfields,hverify⟩,payload,-,hret⟩ := hparse
  obtain ⟨-,rfl⟩ := Prod.mk.inj (Except.ok.inj hret)
  obtain ⟨v,-,hwire⟩ := IPv4Header.parseFields_wire (new_holds_all hfull).input hfields
  obtain ⟨hnone₁,hver,hlen,rfl,-⟩ := IPv4Header.verify_accepts hverify hnone
  obtain ⟨fo,hbytes,hfo⟩ := hwire hnone₁
  -- the checksum that the header has afterwards is the right one
  obtain ⟨_,hrun,-⟩ := IPv4Header.verify_eq hver q₁
  have hsame := congrArg IPv4Header.cksum (Prod.mk.inj (Except.ok.inj (hverify.symm.trans hrun))).1
  rw [hbytes,IPv4Header.accepted_wire (IPv4Header.parseFields_ver hfields)
    (IPv4Header.parseFields_inRange hfields) hfo]
  exact ⟨hver,hlen,hsame.symm⟩

theorem IPv4Datagram.parses (hfull : ∀ b ∈ buffers, b ≠ []) (hacc : Accepted buffers.flatten)
    (d₀ : IPv4Datagram) : ∃ d, Parses IPv4Datagram.parse d₀ buffers d := by
  have hnew := new_holds_all hfull
  obtain ⟨h,p,hfields,hnone⟩ := IPv4Header.parseFields_ok hnew hacc.length d₀.header
  obtain ⟨v,hv,hwire⟩ := IPv4Header.parseFields_wire hnew.input hfields
  obtain ⟨fo,hbytes,hfo⟩ := hwire hnone
  rw [hbytes,IPv4Header.accepted_wire (IPv4Header.parseFields_ver hfields)
    (IPv4Header.parseFields_inRange hfields) hfo] at hacc
  obtain ⟨hver,hlen,hsum⟩ := hacc
  obtain ⟨q,hverify,herror⟩ := IPv4Header.verify_eq hver p
  have hq : q.error = false := by
    rw [← Bool.not_eq_true,herror,UInt8.lt_iff_toNat_lt]
    rintro (hbad | hshort | hbad)
    · rw [hnone] at hbad
      cases hbad
    · exact Nat.not_lt.mpr hlen hshort
    · exact hbad hsum
  -- behind the options there is the payload
  obtain ⟨-,-,-,-,hinput⟩ := IPv4Header.verify_accepts hverify hq
  have hrest : q.Holds (v.drop (4 * h.hlen.toNat - 20)) [] := ⟨hinput ▸ hv.drop (Or.inr rfl),hq⟩
  obtain ⟨payload,hpayload,-⟩ := hrest.allRemaining
  refine ⟨⟨{ h with cksum := h.checksum },payload⟩,q,?_,hq⟩
  simp only [parse,IPv4Header.parse,hfields,hverify,hpayload,bind,Except.bind,pure,Except.pure]

/-- A datagram is accepted exactly if its first twenty bytes are there, are of version four with a
length of five words or more, and are a multiple of `2^16-1` when the reserved flag is left out and
they are read as a number, the checksum not being `0xffff`. Neither its total length nor the options
are looked at. -/
theorem datagram_accepted_iff (hfull : ∀ b ∈ buffers, b ≠ []) (d₀ : IPv4Datagram) :
    (∃ d, Parses IPv4Datagram.parse d₀ buffers d) ↔ Accepted buffers.flatten :=
  ⟨fun ⟨_,h⟩ => IPv4Datagram.accepted hfull h,fun h => IPv4Datagram.parses hfull h d₀⟩

/-- Options that the header announces may be missing, and the total length may be wrong. -/
theorem datagram_accepted_iff_truncated : ∃ d, Parses IPv4Datagram.parse {}
    [[0x46,0,0xff,0xff,0,0],[0,0,64,6,0x65,0xf6,10,0,0,1,10,0,0,2]] d := by
  refine (datagram_accepted_iff (by decide) {}).mpr ⟨?_,?_,?_,?_,?_⟩ <;> decide +kernel

theorem length_summed {b : List Byte} (h : 20 ≤ b.length) : (summed b).length = 20 := by
  rw [summed,List.length_set,List.length_take_of_le h]

/-- What happens to sixteen neighbouring bits of a header is noticed, unless all of them were zero and
are one now, or the other way round. -/
theorem burst_noticed (hfull : ∀ b ∈ buffers, b ≠ []) (hfull' : ∀ b ∈ buffers', b ≠ [])
    (h : Parses IPv4Datagram.parse d₀ buffers d) (h' : Parses IPv4Datagram.parse d₀' buffers' d')
    (k : ℕ)
    (hhigh : summedNumber buffers.flatten / 2^(k+16) = summedNumber buffers'.flatten / 2^(k+16))
    (hlow : summedNumber buffers.flatten % 2^k = summedNumber buffers'.flatten % 2^k) :
    summed buffers.flatten = summed buffers'.flatten ∨
      OnesComplement.window 16 k (summedNumber buffers.flatten) = 0 ∧
        OnesComplement.window 16 k (summedNumber buffers'.flatten) = 2^16 - 1 ∨
      OnesComplement.window 16 k (summedNumber buffers.flatten) = 2^16 - 1 ∧
        OnesComplement.window 16 k (summedNumber buffers'.flatten) = 0 := by
  have hacc := IPv4Datagram.accepted hfull h
  have hacc' := IPv4Datagram.accepted hfull' h'
  have hmod := hacc.sum.trans hacc'.sum.symm
  rcases OnesComplement.eq_or_window (by norm_num) hmod hhigh hlow with heq | hzero
  · left
    refine BigEndian.value_inj ?_ heq
    rw [length_summed hacc.length,length_summed hacc'.length]
  · exact Or.inr hzero

theorem burst_noticed_zeros : ∃ (buffers buffers' : List Buffer) (d d' : IPv4Datagram),
    Parses IPv4Datagram.parse {} buffers d ∧ Parses IPv4Datagram.parse {} buffers' d' ∧
      summed buffers.flatten ≠ summed buffers'.flatten ∧
      OnesComplement.window 16 112 (summedNumber buffers.flatten) = 0 ∧
      OnesComplement.window 16 112 (summedNumber buffers'.flatten) = 2^16 - 1 := by
  let buffers : List Buffer := [[0x45,0,0,20,0,0,0,0,64,6,0x66,0xe2,10,0,0,1,10,0,0,2]]
  let buffers' : List Buffer :=
    [[0x45,0,0,20],[0xff,0xff,0,0,64,6,0x66,0xe2,10,0,0,1,10,0,0,2]]
  have hfull : ∀ b ∈ buffers, b ≠ [] := by decide
  have hfull' : ∀ b ∈ buffers', b ≠ [] := by decide
  obtain ⟨d,h⟩ := IPv4Datagram.parses hfull
    ⟨by decide,by decide +kernel,by decide +kernel,by decide +kernel,by decide⟩ {}
  obtain ⟨d',h'⟩ := IPv4Datagram.parses hfull'
    ⟨by decide,by decide +kernel,by decide +kernel,by decide +kernel,by decide⟩ {}
  have hne : summed buffers.flatten ≠ summed buffers'.flatten := by decide +kernel
  have hcases := burst_noticed hfull hfull' h h' 112 (by decide +kernel) (by decide +kernel)
  have hone : OnesComplement.window 16 112 (summedNumber buffers.flatten) ≠ 2^16 - 1 := by
    decide +kernel
  refine ⟨buffers,buffers',d,d',h,h',hne,?_⟩
  rcases hcases with heq | hzero | ⟨hbad,-⟩
  · exact absurd heq hne
  · exact hzero
  · exact absurd hbad hone

end Minnow
