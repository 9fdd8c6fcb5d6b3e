import Minnow.Ethernet
import Minnow.IPv4

/-! Reading back what was written, from buffers that are cut in another way. -/
namespace Minnow

open Library

/-- Full buffers with the bytes of `out`. -/
structure Cuts (buffers out : List Buffer) : Prop where
  bytes : buffers.flatten = out.flatten
  full : ∀ b ∈ buffers, b ≠ []

/-- `parse(obj, buffers)` makes `obj₀` into `obj`, and returns true. -/
def Parses {T : Type} (parse : T → Parser → Except Stop (T × Parser)) (obj₀ : T)
    (buffers : List Buffer) (obj : T) : Prop :=
  ∃ p, parse obj₀ (Parser.new buffers) = .ok (obj,p) ∧ p.error = false

variable {p : Parser} {v : List Byte} {buffers out : List Buffer}

theorem Cuts.holds (h : Cuts buffers out) : (Parser.new buffers).Holds out.flatten [] := by
  have hnew := Parser.new_holds buffers h.full []
  rwa [List.append_nil,h.bytes] at hnew

theorem Parser.Holds.allRemaining (h : p.Holds v []) :
    ∃ bufs, p.allRemaining = .ok bufs ∧ bufs.flatten = v := by
  obtain ⟨bufs,hdump,hbytes⟩ := h.input.wf.dumpAll
  obtain ⟨front,hunread,-,hv⟩ := h.input.unread
  refine ⟨bufs,hdump,?_⟩
  rw [hbytes,hunread,List.append_nil,hv]

def Serializer.written (s : Serializer) : List Byte := s.output.flatten ++ s.buffer

theorem Serializer.addBuffers_written (bufs : List Buffer) (s : Serializer) :
    (s.addBuffers bufs).written = s.written ++ bufs.flatten := by
  induction bufs generalizing s with
  | nil => exact (List.append_nil _).symm
  | cons b bufs ih =>
    have hstep : (s.addBuffer b).written = s.written ++ b := by
      simp [written,addBuffer,flush]
    change ((s.addBuffer b).addBuffers bufs).written = _
    rw [ih,hstep,List.flatten_cons,List.append_assoc]

theorem Serializer.finish_flatten (s : Serializer) : s.finish.flatten = s.written := by
  simp [finish,flush,written]

theorem ARPMessage.parses_cut {m : ARPMessage} (h : m.supported = true)
    (hout : m.serialized = .ok out) (hcut : Cuts buffers out) (m₀ : ARPMessage) :
    Parses ARPMessage.parse m₀ buffers m := by
  rw [serialized_eq h] at hout
  obtain rfl := Except.ok.inj hout
  have hp := hcut.holds
  rw [List.flatten_singleton,← List.append_nil m.bytes] at hp
  obtain ⟨p',hparse,hp'⟩ := parse_bytes h hp m₀
  exact ⟨p',hparse,hp'.error⟩

theorem EthernetFrame.serialized_flatten (f : EthernetFrame) :
    f.serialized.flatten = f.header.bytes ++ f.payload.flatten := by
  rw [serialized,Serializer.finish_flatten,serialize,Serializer.addBuffers_written,
    EthernetHeader.serialize_eq]
  simp [Serializer.written,Serializer.new]

theorem EthernetFrame.parses_cut {f : EthernetFrame} (hcut : Cuts buffers f.serialized)
    (f₀ : EthernetFrame) : ∃ payload, Parses EthernetFrame.parse f₀ buffers ⟨f.header,payload⟩ ∧
      payload.flatten = f.payload.flatten := by
  have hp := hcut.holds
  rw [serialized_flatten] at hp
  obtain ⟨p',hheader,hp'⟩ := EthernetHeader.parse_bytes hp f₀.header
  obtain ⟨payload,hrest,hbytes⟩ := hp'.allRemaining
  refine ⟨payload,⟨p',?_,hp'.error⟩,hbytes⟩
  simp only [EthernetFrame.parse,hheader,hrest,bind,Except.bind,pure,Except.pure]

theorem IPv4Header.verify_short {h : IPv4Header} (hver : h.ver = 4) (hlen : h.hlen = 5)
    (hsum : h.cksum = h.checksum) (p : Parser) : h.verify p = .ok (h,p) := by
  have hskip : p.removePrefix 0 = p := by
    simp only [Parser.removePrefix,BufferList.removePrefix,BufferList.removeLoop_zero]
  have hzero : u64Sub (h.hlen.toNat*4) LENGTH = 0 := by
    rw [hlen]
    decide
  have hshort : ¬ h.hlen < 5 := by
    rw [hlen]
    decide
  have hsame : { h with cksum := h.checksum } = h := by rw [← hsum]
  simp only [verify,computeChecksum_eq hver,hzero,if_neg hshort,hsame]
  simp [hver,hskip]

theorem IPv4Datagram.serialized_flatten {d : IPv4Datagram} (hver : d.header.ver = 4) :
    ∃ out, d.serialized = .ok out ∧ out.flatten = d.header.bytes ++ d.payload.flatten := by
  refine ⟨_,by simp only [serialized,serialize,IPv4Header.serialize_eq hver]; rfl,?_⟩
  rw [Serializer.finish_flatten,Serializer.addBuffers_written]
  simp [Serializer.written,Serializer.new]

/-- The checksum is the one that `compute_checksum` sets. -/
def IPv4Header.Summed (h : IPv4Header) : Prop := ∃ h₀ : IPv4Header, h₀.computeChecksum = .ok h

theorem IPv4Header.Summed.cksum {h : IPv4Header} (hsum : h.Summed) : h.cksum = h.checksum := by
  obtain ⟨h₀,hset⟩ := hsum
  by_cases hver : h₀.ver = 4
  · rw [computeChecksum_eq hver] at hset
    obtain rfl := Except.ok.inj hset
    exact (checksum_cksum h₀ _).symm
  · rw [computeChecksum_error hver] at hset
    cases hset

theorem IPv4Header.inRange_of_lt {h : IPv4Header} (hlen : h.hlen = 5) (hoffset : h.offset.toNat < 2^13) :
    h.InRange := by
  constructor
  · rw [hlen]
    decide
  · apply UInt16.toNat_inj.mp
    rw [UInt16.toNat_and]
    exact Nat.and_two_pow_sub_one_of_lt_two_pow hoffset

theorem IPv4Datagram.parses_cut {d : IPv4Datagram} (hver : d.header.ver = 4)
    (hlen : d.header.hlen = 5) (hoffset : d.header.offset.toNat < 2^13) (hsum : d.header.Summed)
    (hout : out.flatten = d.header.bytes ++ d.payload.flatten) (hcut : Cuts buffers out)
    (d₀ : IPv4Datagram) : ∃ payload, Parses IPv4Datagram.parse d₀ buffers ⟨d.header,payload⟩ ∧
      payload.flatten = d.payload.flatten := by
  have hp := hcut.holds
  rw [hout] at hp
  obtain ⟨p',hfields,hp'⟩ := IPv4Header.parseFields_bytes hver
    (IPv4Header.inRange_of_lt hlen hoffset) hp d₀.header
  have hheader : d₀.header.parse (Parser.new buffers) = .ok (d.header,p') := by
    rw [IPv4Header.parse,hfields]
    exact IPv4Header.verify_short hver hlen hsum.cksum p'
  obtain ⟨payload,hrest,hbytes⟩ := hp'.allRemaining
  refine ⟨payload,⟨p',?_,hp'.error⟩,hbytes⟩
  simp only [IPv4Datagram.parse,hheader,hrest,bind,Except.bind,pure,Except.pure]

/-- Every supported ARP message, every datagram and every frame is read back, whatever was in the
object before, and however the bytes are cut into buffers. -/
theorem decoding_undoes_encoding :
    (∀ m : ARPMessage, m.supported = true → ∃ out, m.serialized = .ok out ∧
      ∀ buffers, Cuts buffers out → ∀ m₀, Parses ARPMessage.parse m₀ buffers m) ∧
    (∀ d : IPv4Datagram, d.header.ver = 4 → d.header.hlen = 5 → d.header.offset.toNat < 2^13 →
      d.header.Summed → ∃ out, d.serialized = .ok out ∧
        ∀ buffers, Cuts buffers out → ∀ d₀, ∃ payload,
          Parses IPv4Datagram.parse d₀ buffers ⟨d.header,payload⟩ ∧
            payload.flatten = d.payload.flatten) ∧
    ∀ f : EthernetFrame, ∀ buffers, Cuts buffers f.serialized → ∀ f₀, ∃ payload,
      Parses EthernetFrame.parse f₀ buffers ⟨f.header,payload⟩ ∧
        payload.flatten = f.payload.flatten := by
  refine ⟨?_,?_,fun f buffers hcut f₀ => EthernetFrame.parses_cut hcut f₀⟩
  · intro m h
    have hout := ARPMessage.serialized_eq h
    exact ⟨_,hout,fun buffers hcut m₀ => ARPMessage.parses_cut h hout hcut m₀⟩
  · intro d hver hlen hoffset hsum
    obtain ⟨out,hout,hbytes⟩ := IPv4Datagram.serialized_flatten hver
    exact ⟨out,hout,fun buffers hcut d₀ =>
      IPv4Datagram.parses_cut hver hlen hoffset hsum hbytes hcut d₀⟩

theorem decoding_undoes_encoding_bytes :
    let single : List Byte → List Buffer := fun bs => bs.map fun b => [b]
    let m := ARPMessage.reply ETHERNET_BROADCAST 1 ETHERNET_BROADCAST 2
    let h : IPv4Header := { cksum := ({} : IPv4Header).checksum }
    let f : EthernetFrame := ⟨⟨ETHERNET_BROADCAST,ETHERNET_BROADCAST,EthernetHeader.TYPE_ARP⟩,[]⟩
    Parses ARPMessage.parse {} (single m.bytes) m ∧
      (∃ payload, Parses IPv4Datagram.parse {} (single (h.bytes ++ [1,2])) ⟨h,payload⟩ ∧
        payload.flatten = [1,2]) ∧
      ∃ payload, Parses EthernetFrame.parse f (single f.header.bytes) ⟨f.header,payload⟩ ∧
        payload.flatten = [] := by
  intro single m h f
  obtain ⟨harp,hip,hframe⟩ := decoding_undoes_encoding
  have hsingle : ∀ bs : List Byte, (single bs).flatten = bs ∧ ∀ c ∈ single bs, c ≠ [] := by
    intro bs
    induction bs with
    | nil => simp [single]
    | cons b bs ih =>
      refine ⟨congrArg (b::·) ih.1,?_⟩
      intro c hc
      rcases List.mem_cons.mp hc with rfl | hc
      · exact List.cons_ne_nil b []
      · exact ih.2 c hc
  refine ⟨?_,?_,?_⟩
  · obtain ⟨out,hout,hparse⟩ := harp m rfl
    rw [ARPMessage.serialized_eq rfl] at hout
    obtain rfl := Except.ok.inj hout
    exact hparse _ ⟨by rw [(hsingle _).1,List.flatten_singleton],(hsingle _).2⟩ {}
  · obtain ⟨out,hout,hbytes⟩ := IPv4Datagram.serialized_flatten (d := ⟨h,[[1,2]]⟩) rfl
    obtain ⟨out',hout',hparse⟩ := hip ⟨h,[[1,2]]⟩ rfl rfl (by decide)
      ⟨{},IPv4Header.computeChecksum_eq rfl⟩
    obtain rfl := Except.ok.inj (hout.symm.trans hout')
    exact hparse _ ⟨by rw [(hsingle _).1,hbytes]; rfl,(hsingle _).2⟩ {}
  · refine hframe f _ ⟨?_,(hsingle _).2⟩ f
    rw [(hsingle _).1,EthernetFrame.serialized_flatten]
    simp [f]

end Minnow
