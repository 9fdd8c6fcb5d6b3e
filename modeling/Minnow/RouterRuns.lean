import Minnow.Library.Run
import Minnow.Router

/-! Runs of the router: the headers of the datagrams that it forwards. -/
namespace Minnow
namespace RouterRuns

open Library EthernetHeader Router

inductive Op
  | addRoute (route : RoutingTable.Route)
  | recvFrame (i : ℕ) (frame : EthernetFrame)
  | route
  | tick (i : ℕ) (ms : ℕ)
  | maybeSend (i : ℕ)
  deriving DecidableEq

structure Output where
  frame : Option EthernetFrame := none
  received : Option InternetDatagram := none
  deriving DecidableEq

def onInterface (r : Router) (i : ℕ)
    (call : AsyncNetworkInterface → Except Fault (AsyncNetworkInterface × Output)) :
    Except Fault (Router × Output) :=
  match r.interfaces[i]? with
  | none => .error .outOfRange
  | some a =>
    match call a with
    | .error f => .error f
    | .ok (a,out) => .ok ({ r with interfaces := r.interfaces.set i a },out)

def recvFrameOn (frame : EthernetFrame) (a : AsyncNetworkInterface) :
    Except Fault (AsyncNetworkInterface × Output) :=
  match a.recvFrame frame with
  | .error f => .error f
  | .ok (a,.error _) => .ok (a,{})
  | .ok (a,.ok dgram) => .ok (a,{ received := dgram })

def tickOn (ms : ℕ) (a : AsyncNetworkInterface) :
    Except Fault (AsyncNetworkInterface × Output) :=
  .ok ({ a with toNetworkInterface := a.toNetworkInterface.tick ms },{})

def maybeSendOn (a : AsyncNetworkInterface) : Except Fault (AsyncNetworkInterface × Output) :=
  .ok ({ a with toNetworkInterface := a.toNetworkInterface.maybeSend.1 },
    { frame := a.toNetworkInterface.maybeSend.2 })

def step (r : Router) : Op → Except Fault (Router × Output)
  | .addRoute route => .ok (r.addRoute route,{})
  | .recvFrame i frame => onInterface r i (recvFrameOn frame)
  | .route =>
    match r.route with
    | .error f => .error f
    | .ok (r,_) => .ok (r,{})
  | .tick i ms => onInterface r i (tickOn ms)
  | .maybeSend i => onInterface r i maybeSendOn

abbrev Trace := List (Event Router Op Output)

def received (tr : Trace) : List InternetDatagram := tr.flatMap fun e => e.out.received.toList

/-- No datagram is under way in the interface: whatever it holds later came through the router. -/
structure Quiet (a : AsyncNetworkInterface) : Prop where
  incoming : a.datagramsIn = []
  pending : ∀ ip, (a.arpTable ip).pendingIpDatagrams = []
  frames : ∀ f ∈ a.ethFramesToBeSent, f.header.type ≠ TYPE_IPv4

section Only

variable {P : InternetDatagram → Prop} {s s' : NetworkInterface} {ip : Address}

structure Only (P : InternetDatagram → Prop) (s : NetworkInterface) : Prop where
  pending : ∀ ip, ∀ d ∈ (s.arpTable ip).pendingIpDatagrams, P d
  frames : ∀ f ∈ s.ethFramesToBeSent, f.header.type = TYPE_IPv4 →
    ∃ d, P d ∧ d.serialized = .ok f.payload

theorem Only.mono {P' : InternetDatagram → Prop} (h : Only P s) (himp : ∀ d, P d → P' d) :
    Only P' s := by
  constructor
  · intro ip d hd
    exact himp d (h.pending ip d hd)
  · intro f hf htype
    obtain ⟨d,hd,hser⟩ := h.frames f hf htype
    exact ⟨d,himp d hd,hser⟩

theorem Only.update (h : Only P s) (ip : Address) (entry : ArpTableEntry)
    (fs : List EthernetFrame)
    (htable : s'.arpTable = Function.update s.arpTable ip entry)
    (hentry : ∀ d ∈ entry.pendingIpDatagrams, P d)
    (hframes : s'.ethFramesToBeSent = s.ethFramesToBeSent ++ fs)
    (hfs : ∀ f ∈ fs, f.header.type = TYPE_IPv4 → ∃ d, P d ∧ d.serialized = .ok f.payload) :
    Only P s' := by
  constructor
  · intro k
    rw [htable]
    by_cases hk : k = ip
    · rw [hk,Function.update_self]
      exact hentry
    · rw [Function.update_of_ne hk]
      exact h.pending k
  · intro f hf
    rw [hframes] at hf
    rcases List.mem_append.mp hf with hf | hf
    · exact h.frames f hf
    · exact hfs f hf

theorem Only.append (h : Only P s) (fs : List EthernetFrame) (htable : s'.arpTable = s.arpTable)
    (hframes : s'.ethFramesToBeSent = s.ethFramesToBeSent ++ fs)
    (hfs : ∀ f ∈ fs, f.header.type = TYPE_IPv4 → ∃ d, P d ∧ d.serialized = .ok f.payload) :
    Only P s' := by
  refine h.update 0 (s.arpTable 0) fs ?_ (h.pending 0) hframes hfs
  rw [htable,Function.update_eq_self]

theorem Only.sendDatagram (h : Only P s) {d : InternetDatagram} (hd : P d)
    {r : Except RuntimeError Unit} (hs : s.sendDatagram d ip = .ok (s',r)) : Only P s' := by
  rcases NetworkInterface.sendDatagram_cases hs with
    ⟨-,-,payload,rfl⟩ | ⟨-,-,rfl⟩ | ⟨_,node,frame,-,-,hframe,rfl⟩ | ⟨-,-,rfl⟩
  · refine h.update ip _ [EthernetFrame.broadcast s.ethernetAddress TYPE_ARP payload] rfl ?_ rfl ?_
    · intro e he
      rcases List.mem_append.mp he with he | he
      · exact h.pending ip e he
      · rw [List.mem_singleton.mp he]
        exact hd
    · intro f hf htype
      rw [List.mem_singleton.mp hf] at htype
      exact absurd htype TYPE_ARP_ne
  · exact h
  · obtain ⟨payload,hser,rfl⟩ := hframe
    refine h.append [⟨⟨node.ethAddr,s.ethernetAddress,TYPE_IPv4⟩,payload⟩] rfl rfl ?_
    intro f hf _
    rw [List.mem_singleton.mp hf]
    exact ⟨d,hd,hser⟩
  · exact h

theorem exists_of_mem_right {α β : Type} {R : α → β → Prop} {xs : List α} {ys : List β} {y : β}
    (h : List.Forall₂ R xs ys) (hy : y ∈ ys) : ∃ x ∈ xs, R x y := by
  induction h with
  | nil => cases hy
  | @cons a b as bs hab _ ih =>
    rcases List.mem_cons.mp hy with rfl | hy
    · exact ⟨a,List.mem_cons_self,hab⟩
    · obtain ⟨x,hx,hR⟩ := ih hy
      exact ⟨x,List.mem_cons_of_mem _ hx,hR⟩

theorem Only.learn (h : Only P s) (ip : Address) (eth : EthernetAddress) :
    Only P (s.learn ip eth).1 := by
  rcases NetworkInterface.learn_spec s ip eth with ⟨-,hsame⟩ |
    ⟨-,sent,rest,fs,r,hsplit,hfs,hlearn,-⟩
  · rw [hsame]
    exact h
  · rw [hlearn]
    have hpending := h.pending ip
    rw [hsplit] at hpending
    refine h.update ip _ fs rfl (fun d hd => hpending d (List.mem_append_right _ hd)) rfl ?_
    intro f hf _
    obtain ⟨d,hd,payload,hser,rfl⟩ := exists_of_mem_right hfs hf
    exact ⟨d,hpending d (List.mem_append_left _ hd),hser⟩

theorem Only.recvFrame (h : Only P s) {frame : EthernetFrame}
    {r : Except RuntimeError (Option InternetDatagram)} (hs : s.recvFrame frame = .ok (s',r)) :
    Only P s' := by
  rcases NetworkInterface.recvFrame_cases hs with rfl | ⟨msg,-,harp⟩
  · exact h
  · obtain ⟨replies,r',hrecv,htype⟩ := NetworkInterface.recvArp_spec s msg
    obtain ⟨rfl,-⟩ := Prod.mk.inj (Except.ok.inj (harp.symm.trans hrecv))
    refine (h.learn msg.senderIpAddress msg.senderEthernetAddress).append replies rfl rfl ?_
    intro f hf hip
    rw [(htype f hf).1] at hip
    exact absurd hip TYPE_ARP_ne

theorem Only.tick (h : Only P s) (ms : ℕ) : Only P (s.tick ms) := by
  constructor
  · intro ip
    rw [NetworkInterface.tick_pending]
    exact h.pending ip
  · exact h.frames

theorem Only.maybeSend (h : Only P s) : Only P s.maybeSend.1 ∧
    ∀ f, s.maybeSend.2 = some f → f.header.type = TYPE_IPv4 →
      ∃ d, P d ∧ d.serialized = .ok f.payload := by
  have hframes := h.frames
  unfold NetworkInterface.maybeSend
  split
  · exact ⟨h,by simp⟩
  · rename_i g fs hg
    rw [hg] at hframes
    refine ⟨⟨h.pending,fun f hf => hframes f (List.mem_cons_of_mem _ hf)⟩,?_⟩
    intro f hf
    exact hframes f (by simp [Option.some.inj hf])

end Only

section Carried

variable {Q : InternetDatagram → Prop} {r r' : Router} {a a' : AsyncNetworkInterface} {i : ℕ}

def Forwarded (Q : InternetDatagram → Prop) (d : InternetDatagram) : Prop :=
  ∃ d₀, Q d₀ ∧ 2 ≤ d₀.header.ttl.toNat ∧ d = lowerTTL d₀

structure Holds (Q : InternetDatagram → Prop) (a : AsyncNetworkInterface) : Prop where
  incoming : ∀ d ∈ a.datagramsIn, Q d
  outgoing : Only (Forwarded Q) a.toNetworkInterface

def Carried (Q : InternetDatagram → Prop) (r : Router) : Prop := ∀ a ∈ r.interfaces, Holds Q a

theorem Holds.mono {Q' : InternetDatagram → Prop} (h : Holds Q a) (himp : ∀ d, Q d → Q' d) :
    Holds Q' a := by
  refine ⟨fun d hd => himp d (h.incoming d hd),h.outgoing.mono ?_⟩
  rintro d ⟨d₀,hd₀,httl,rfl⟩
  exact ⟨d₀,himp d₀ hd₀,httl,rfl⟩

theorem Carried.set (h : Carried Q r) (i : ℕ) (ha : Holds Q a) :
    Carried Q { r with interfaces := r.interfaces.set i a } := by
  intro b hb
  rcases List.mem_or_eq_of_mem_set hb with hb | rfl
  · exact h b hb
  · exact ha

theorem Carried.forward (h : Carried Q r) {d : InternetDatagram} (hd : Q d)
    {res : Except RuntimeError Unit} (hs : r.forward d = .ok (r',res)) : Carried Q r' := by
  unfold Router.forward at hs
  split at hs
  · cases hs
  · cases hs
    exact h
  · rename_i index nextHop _
    split_ifs at hs with httl
    · cases hs
      exact h
    · split at hs
      · cases hs
      · rename_i b hb
        split at hs
        · cases hs
        · rename_i s res' hsend
          cases hs
          have hb' := h b (List.mem_of_getElem? hb)
          refine h.set index ⟨hb'.incoming,hb'.outgoing.sendDatagram ⟨d,hd,?_,rfl⟩ hsend⟩
          -- a time to live of 0 or 1 is not forwarded
          have h₁ : d.header.ttl.toNat ≠ 1 := fun h₁ => httl (Or.inl (UInt8.toNat_inj.mp h₁))
          have h₀ : d.header.ttl.toNat ≠ 0 := fun h₀ => httl (Or.inr (UInt8.toNat_inj.mp h₀))
          omega

theorem Carried.routeInterface (h : Carried Q r) {res : Except RuntimeError Unit}
    (hs : r.routeInterface i = .ok (r',res)) : Carried Q r' := by
  unfold Router.routeInterface at hs
  split at hs
  · cases hs
  · rename_i b hb
    have hb' := h b (List.mem_of_getElem? hb)
    unfold AsyncNetworkInterface.maybeReceive at hs
    split at hs
    · cases hs
      exact h
    · rename_i c d hc
      split at hc
      · cases hc
      · rename_i e ds hds
        cases hc
        have hincoming := hb'.incoming
        rw [hds] at hincoming
        have hrest : Holds Q ⟨b.toNetworkInterface,ds⟩ :=
          ⟨fun x hx => hincoming x (List.mem_cons_of_mem _ hx),hb'.outgoing⟩
        exact (h.set i hrest).forward (hincoming d List.mem_cons_self) hs

theorem Carried.route (h : Carried Q r) {res : Except RuntimeError Unit}
    (hs : r.route = .ok (r',res)) : Carried Q r' := by
  have hloop : ∀ (is : List ℕ) (r r' : Router) (res : Except RuntimeError Unit), Carried Q r →
      routeFrom is r = .ok (r',res) → Carried Q r' := by
    intro is
    induction is with
    | nil =>
      intro r r' res h hs
      cases hs
      exact h
    | cons i is ih =>
      intro r r' res h hs
      unfold routeFrom at hs
      split at hs
      · cases hs
      · rename_i t e ht
        cases hs
        exact h.routeInterface ht
      · rename_i t ht
        exact ih t r' res (h.routeInterface ht) hs
  exact hloop _ r r' res h hs

end Carried

theorem recvFrame_fresh {s s' : NetworkInterface} {frame : EthernetFrame} {d : InternetDatagram}
    (h : s.recvFrame frame = .ok (s',.ok (some d))) : d.header.Fresh := by
  obtain ⟨-,b,hparsed⟩ := NetworkInterface.recvFrame_some h
  exact IPv4Datagram.parsed_fresh hparsed

variable {tr : Trace} {r r' r₀ : Router} {op : Op} {out : Output}

structure Inv (tr : Trace) (r : Router) : Prop where
  carried : Carried (· ∈ received tr) r
  fresh : ∀ d ∈ received tr, d.header.Fresh

/-- The frame was made from a datagram that was received, with its time to live lowered. -/
def IsForwarded (tr : Trace) (frame : EthernetFrame) (d : InternetDatagram) : Prop :=
  d ∈ received tr ∧ 2 ≤ d.header.ttl.toNat ∧ (lowerTTL d).serialized = .ok frame.payload

theorem received_snoc (tr : Trace) (r : Router) (op : Op) (out : Output) :
    received (tr ++ [⟨r,op,out⟩]) = received tr ++ out.received.toList := by
  simp [received]

theorem init_inv (h : ∀ a ∈ r₀.interfaces, Quiet a) : Inv [] r₀ := by
  refine ⟨?_,by simp [received]⟩
  intro a ha
  obtain ⟨hin,hpending,hframes⟩ := h a ha
  refine ⟨by simp [hin],⟨by simp [hpending],?_⟩⟩
  intro f hf htype
  exact absurd htype (hframes f hf)

theorem Inv.quiet (h : Inv tr r) (hout : out.received = none)
    (hr : Carried (· ∈ received tr) r') : Inv (tr ++ [⟨r,op,out⟩]) r' := by
  have hsame : received (tr ++ [⟨r,op,out⟩]) = received tr := by
    rw [received_snoc,hout]
    simp
  constructor
  · rw [hsame]
    exact hr
  · rw [hsame]
    exact h.fresh

theorem onInterface_ok {i : ℕ} {call : AsyncNetworkInterface →
      Except Fault (AsyncNetworkInterface × Output)}
    (hs : onInterface r i call = .ok (r',out)) :
    ∃ a a', a ∈ r.interfaces ∧ call a = .ok (a',out) ∧
      r' = { r with interfaces := r.interfaces.set i a' } := by
  unfold onInterface at hs
  split at hs
  · cases hs
  · rename_i a ha
    split at hs
    · cases hs
    · rename_i a' out' hcall
      cases hs
      exact ⟨a,a',List.mem_of_getElem? ha,hcall,rfl⟩

theorem recvFrameOn_ok {frame : EthernetFrame} {a a' : AsyncNetworkInterface}
    (h : recvFrameOn frame a = .ok (a',out)) :
    ∃ s res, a.toNetworkInterface.recvFrame frame = .ok (s,res) ∧
      (a' = ⟨s,a.datagramsIn⟩ ∧ out = {} ∨
        ∃ d, res = .ok (some d) ∧ a' = ⟨s,a.datagramsIn ++ [d]⟩ ∧ out = { received := some d }) := by
  unfold recvFrameOn AsyncNetworkInterface.recvFrame at h
  cases hrecv : a.toNetworkInterface.recvFrame frame with
  | error f => simp [hrecv] at h
  | ok res =>
    obtain ⟨s,res⟩ := res
    rcases res with e | _ | d
    · simp only [hrecv,Except.ok.injEq,Prod.mk.injEq] at h
      exact ⟨s,_,rfl,Or.inl ⟨h.1.symm,h.2.symm⟩⟩
    · simp only [hrecv,Except.ok.injEq,Prod.mk.injEq] at h
      exact ⟨s,_,rfl,Or.inl ⟨h.1.symm,h.2.symm⟩⟩
    · simp only [hrecv,Except.ok.injEq,Prod.mk.injEq] at h
      exact ⟨s,_,rfl,Or.inr ⟨d,rfl,h.1.symm,h.2.symm⟩⟩

theorem Inv.recvFrame (h : Inv tr r) {i : ℕ} {frame : EthernetFrame}
    (hs : onInterface r i (recvFrameOn frame) = .ok (r',out)) :
    Inv (tr ++ [⟨r,op,out⟩]) r' := by
  obtain ⟨a,a',ha,hcall,rfl⟩ := onInterface_ok hs
  have hold := h.carried a ha
  obtain ⟨s,res,hrecv,⟨rfl,rfl⟩ | ⟨d,rfl,rfl,rfl⟩⟩ := recvFrameOn_ok hcall
  · exact h.quiet rfl (h.carried.set i ⟨hold.incoming,hold.outgoing.recvFrame hrecv⟩)
  · have honly := hold.outgoing.recvFrame hrecv
    have hnew : received (tr ++ [⟨r,op,{ received := some d }⟩]) = received tr ++ [d] := by
      rw [received_snoc]
      rfl
    have hmono : ∀ x, x ∈ received tr → x ∈ received tr ++ [d] :=
      fun x hx => List.mem_append_left _ hx
    constructor
    · rw [hnew]
      refine Carried.set (fun b hb => (h.carried b hb).mono hmono) i ⟨?_,?_⟩
      · intro x hx
        rcases List.mem_append.mp hx with hx | hx
        · exact hmono x (hold.incoming x hx)
        · exact List.mem_append_right _ hx
      · exact (Holds.mono (a := ⟨s,a.datagramsIn⟩) ⟨hold.incoming,honly⟩ hmono).outgoing
    · rw [hnew]
      intro x hx
      rcases List.mem_append.mp hx with hx | hx
      · exact h.fresh x hx
      · rw [List.mem_singleton.mp hx]
        exact recvFrame_fresh hrecv

/-- One step keeps the invariant, and an IPv4 frame that it emits was forwarded. -/
theorem Inv.step (h : Inv tr r) (hs : step r op = .ok (r',out)) :
    Inv (tr ++ [⟨r,op,out⟩]) r' ∧
      ∀ f, out.frame = some f → f.header.type = TYPE_IPv4 → ∃ d, IsForwarded tr f d := by
  cases op with
  | addRoute route =>
    cases hs
    exact ⟨h.quiet rfl h.carried,by simp⟩
  | recvFrame i frame =>
    refine ⟨h.recvFrame hs,?_⟩
    obtain ⟨a,a',-,hcall,-⟩ := onInterface_ok hs
    obtain ⟨s,res,-,⟨-,rfl⟩ | ⟨d,-,-,rfl⟩⟩ := recvFrameOn_ok hcall
    · simp
    · simp
  | route =>
    simp only [RouterRuns.step] at hs
    split at hs
    · cases hs
    · rename_i t res hroute
      cases hs
      exact ⟨h.quiet rfl (h.carried.route hroute),by simp⟩
  | tick i ms =>
    have hs : onInterface r i (tickOn ms) = .ok (r',out) := hs
    obtain ⟨a,a',ha,hcall,rfl⟩ := onInterface_ok hs
    cases hcall
    have hold := h.carried a ha
    exact ⟨h.quiet rfl (h.carried.set i ⟨hold.incoming,hold.outgoing.tick ms⟩),by simp⟩
  | maybeSend i =>
    have hs : onInterface r i maybeSendOn = .ok (r',out) := hs
    obtain ⟨a,a',ha,hcall,rfl⟩ := onInterface_ok hs
    cases hcall
    have hold := h.carried a ha
    obtain ⟨honly,hemit⟩ := hold.outgoing.maybeSend
    refine ⟨h.quiet rfl (h.carried.set i ⟨hold.incoming,honly⟩),?_⟩
    intro f hf htype
    obtain ⟨d,⟨d₀,hd₀,httl,rfl⟩,hser⟩ := hemit f hf htype
    exact ⟨d₀,hd₀,httl,hser⟩

/-- The header that arrives is not the one that its checksum was computed for. -/
def Rejected (payload : List Buffer) : Prop :=
  ∀ h₀ : IPv4Header, ∃ h p, h₀.parse (Parser.new payload) = .ok (h,p) ∧ p.error = true

theorem lowerTTL_rejected {d : InternetDatagram} (hd : d.header.Fresh)
    (httl : 2 ≤ d.header.ttl.toNat) {payload : List Buffer}
    (hser : (lowerTTL d).serialized = .ok payload) :
    (lowerTTL d).header.cksum ≠ (lowerTTL d).header.checksum ∧ Rejected payload := by
  have hlow : (d.header.ttl - 1).toNat + 1 = d.header.ttl.toNat := by
    rw [UInt8.toNat_sub_of_le _ _ (UInt8.le_iff_toNat_le.mpr (by simp; omega))]
    simp
    omega
  have hne : (lowerTTL d).header.checksum ≠ (lowerTTL d).header.cksum := by
    have hchanged := IPv4Header.checksum_ne hlow
    rw [← hd.cksum] at hchanged
    exact hchanged
  refine ⟨hne.symm,?_⟩
  intro h₀
  have hver : (lowerTTL d).header.ver = 4 := hd.ver
  have hrange : (lowerTTL d).header.InRange := ⟨hd.inRange.hlen,hd.inRange.offset⟩
  obtain ⟨rest,hrest⟩ := IPv4Datagram.serialized_eq hver
  obtain rfl := Except.ok.inj (hser.symm.trans hrest)
  have hlen : (lowerTTL d).header.bytes ≠ [] := by
    rw [← List.length_pos_iff,IPv4Header.length_bytes]
    decide
  obtain ⟨p,hparse,herror⟩ := IPv4Header.parse_bytes hver hrange
    (Parser.new_cons_holds hlen rest) h₀
  exact ⟨_,p,hparse,herror.mpr (Or.inr hne)⟩

/-- The router never emits a datagram with a valid header: each IPv4 frame that it emits was made
from a datagram that came in with the right checksum, carries that checksum over the lowered time
to live, and does not parse without an error. -/
theorem forwarded_checksum_wrong (hquiet : ∀ a ∈ r₀.interfaces, Quiet a) (hr : Run step r₀ tr r) :
    ∀ e ∈ tr, ∀ f, e.out.frame = some f → f.header.type = TYPE_IPv4 →
      ∃ d, IsForwarded tr f d ∧ d.header.Fresh ∧
        (lowerTTL d).header.cksum ≠ (lowerTTL d).header.checksum ∧ Rejected f.payload := by
  have hinv : Inv tr r ∧ ∀ e ∈ tr, ∀ f, e.out.frame = some f → f.header.type = TYPE_IPv4 →
      ∃ d, IsForwarded tr f d := by
    refine Run.history_invariant (fun tr r => Inv tr r ∧ ∀ e ∈ tr, ∀ f, e.out.frame = some f →
      f.header.type = TYPE_IPv4 → ∃ d, IsForwarded tr f d) (fun _ => True)
      ⟨init_inv hquiet,by simp⟩ ?_ hr fun _ _ => trivial
    rintro tr s s' op out ⟨hi,hall⟩ - hs
    obtain ⟨hi',hnew⟩ := hi.step hs
    refine ⟨hi',?_⟩
    intro e he f hf htype
    have hsub : ∀ d ∈ received tr, d ∈ received (tr ++ [⟨s,op,out⟩]) := by
      intro d hd
      rw [received_snoc]
      exact List.mem_append_left _ hd
    rcases List.mem_append.mp he with he | he
    · obtain ⟨d,hd,hrest⟩ := hall e he f hf htype
      exact ⟨d,hsub d hd,hrest⟩
    · rw [List.mem_singleton.mp he] at hf
      obtain ⟨d,hd,hrest⟩ := hnew f hf htype
      exact ⟨d,hsub d hd,hrest⟩
  intro e he f hf htype
  obtain ⟨d,hd⟩ := hinv.2 e he f hf htype
  have hfresh := hinv.1.fresh d hd.1
  exact ⟨d,hd,hfresh,lowerTTL_rejected hfresh hd.2.1 hd.2.2⟩

/-- Whether `parse` takes the buffers for a datagram without an error. -/
def accepts (buffers : List Buffer) : Bool :=
  match IPv4Datagram.parsed buffers with
  | .ok (_,b) => b
  | .error _ => false

/-- Two interfaces, and no routes yet. -/
def twoInterfaces : Router :=
  ⟨[AsyncNetworkInterface.new ⟨[2,0,0,0,0,1],rfl⟩ 1,
    AsyncNetworkInterface.new ⟨[2,0,0,0,0,2],rfl⟩ 2],[]⟩

theorem twoInterfaces_quiet : ∀ a ∈ twoInterfaces.interfaces, Quiet a := by
  intro a ha
  have hnew : ∃ eth ip, a = AsyncNetworkInterface.new eth ip := by
    rcases List.mem_cons.mp ha with rfl | ha
    · exact ⟨_,_,rfl⟩
    · rw [List.mem_singleton.mp ha]
      exact ⟨_,_,rfl⟩
  obtain ⟨eth,ip,rfl⟩ := hnew
  exact ⟨rfl,fun _ => rfl,fun f hf => absurd hf List.not_mem_nil⟩

/-- A frame for the first interface, with a datagram for `7` that has a valid header. -/
def validFrame : EthernetFrame :=
  let header : IPv4Header := { dst := 7 }
  ⟨⟨⟨[2,0,0,0,0,1],rfl⟩,⟨[2,0,0,0,0,9],rfl⟩,TYPE_IPv4⟩,
    [{ header with cksum := header.checksum }.bytes]⟩

/-- The datagram is forwarded on the second interface, once `7` has answered there. -/
def forwardingOps : List Op :=
  [.addRoute ⟨⟨0,0,none⟩,1⟩,.recvFrame 0 validFrame,.route,
    .recvFrame 1 ⟨⟨⟨[2,0,0,0,0,2],rfl⟩,⟨[2,0,0,0,0,7],rfl⟩,TYPE_ARP⟩,
      [(ARPMessage.reply ⟨[2,0,0,0,0,7],rfl⟩ 7 ⟨[2,0,0,0,0,2],rfl⟩ 2).bytes]⟩,
    .maybeSend 1,.maybeSend 1]

theorem forwarded_checksum_wrong_resolved : ∃ tr r, Run step twoInterfaces tr r ∧
    ∃ e ∈ tr, ∃ f, e.out.frame = some f ∧ ∃ d, IsForwarded tr f d ∧ Rejected f.payload := by
  obtain ⟨tr,r,hr,e,he,f,hf,htype⟩ := Run.exists_of_exec step twoInterfaces forwardingOps
    (fun tr _ => ∃ e ∈ tr, ∃ f ∈ e.out.frame, f.header.type = TYPE_IPv4) (by decide +kernel)
  obtain ⟨d,hd,-,-,hrej⟩ := forwarded_checksum_wrong twoInterfaces_quiet hr e he f hf htype
  exact ⟨tr,r,hr,e,he,f,hf,d,hd,hrej⟩

/-- A valid datagram comes in, and what goes out for it is not valid any more. -/
theorem forwarded_not_accepted : ∃ tr r, Run step twoInterfaces tr r ∧
    accepts validFrame.payload = true ∧ (∃ e ∈ tr, e.op = .recvFrame 0 validFrame) ∧
      ∃ e ∈ tr, ∃ f ∈ e.out.frame, f.header.type = TYPE_IPv4 ∧ accepts f.payload = false := by
  obtain ⟨tr,r,hr,hvalid,hop,hbad⟩ := Run.exists_of_exec step twoInterfaces forwardingOps
    (fun tr _ => accepts validFrame.payload = true ∧ (∃ e ∈ tr, e.op = .recvFrame 0 validFrame) ∧
      ∃ e ∈ tr, ∃ f ∈ e.out.frame, f.header.type = TYPE_IPv4 ∧ accepts f.payload = false)
    (by decide +kernel)
  exact ⟨tr,r,hr,hvalid,hop,hbad⟩

end RouterRuns
end Minnow
