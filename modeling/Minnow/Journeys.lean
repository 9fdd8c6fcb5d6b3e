import Minnow.InternetQueues
import Minnow.RoundTrip

/-! The way of a datagram through the network, from the host that sends it to the host that takes
it: which routers it passed, and what it still has in common with what was sent. -/
namespace Minnow

open Library

theorem IPv4Header.verify_plain {h : IPv4Header} (hver : h.ver = 4) (hlen : h.hlen = 5)
    (p : Parser) : h.verify p = .ok ({ h with cksum := h.checksum },
      if h.checksum ≠ h.cksum then p.setError else p) := by
  have hskip : p.removePrefix 0 = p := by
    simp only [Parser.removePrefix,BufferList.removePrefix,BufferList.removeLoop_zero]
  have hzero : u64Sub (h.hlen.toNat*4) LENGTH = 0 := by
    rw [hlen]
    decide
  have hshort : ¬ h.hlen < 5 := by
    rw [hlen]
    decide
  simp only [verify,computeChecksum_eq hver,hzero,if_neg hshort]
  simp [hver,hskip]

theorem Parser.Holds.allRemaining_nil {p : Parser} {rest : List Buffer} (h : p.Holds [] rest) :
    ∃ bufs, p.allRemaining = .ok bufs ∧ bufs.flatten = rest.flatten := by
  obtain ⟨bufs,hdump,hbytes⟩ := h.input.wf.dumpAll
  obtain ⟨front,hunread,-,hv⟩ := h.input.unread
  refine ⟨bufs,hdump,?_⟩
  rw [hbytes,hunread,List.flatten_append,hv,List.nil_append]

namespace Internet

/-- A datagram that a header of 20 bytes can describe. -/
structure Sendable (d : InternetDatagram) : Prop where
  ver : d.header.ver = 4
  hlen : d.header.hlen = 5
  offset : d.header.offset.toNat < 2^13

/-- The same datagram with the checksum that its header should have; the payload may be cut in
another way. -/
structure Refreshed (d d' : InternetDatagram) : Prop where
  header : d'.header = { d.header with cksum := d.header.checksum }
  payload : d'.payload.flatten = d.payload.flatten

variable {d d' d₀ : InternetDatagram}

theorem Sendable.inRange (h : Sendable d) : d.header.InRange :=
  IPv4Header.inRange_of_lt h.hlen h.offset

/-- What one interface serializes another one parses, whatever the checksum says. -/
theorem Sendable.parsed (h : Sendable d) {payload : List Buffer}
    (hser : d.serialized = .ok payload) :
    ∃ d' ok, IPv4Datagram.parsed payload = .ok (d',ok) ∧ Refreshed d d' := by
  obtain ⟨rest,hrest⟩ := IPv4Datagram.serialized_eq h.ver
  obtain ⟨out,hout,hflat⟩ := IPv4Datagram.serialized_flatten h.ver
  obtain rfl := Except.ok.inj (hser.symm.trans hrest)
  obtain rfl := Except.ok.inj (hout.symm.trans hrest)
  rw [List.flatten_cons,List.append_cancel_left_eq] at hflat
  have hne : d.header.bytes ≠ [] := by
    rw [← List.length_pos_iff,IPv4Header.length_bytes]
    decide
  obtain ⟨p,hfields,hp⟩ := IPv4Header.parseFields_bytes h.ver h.inRange
    (Parser.new_cons_holds hne rest) ({} : IPv4Datagram).header
  obtain ⟨bufs,hbufs,hbytes⟩ := hp.allRemaining_nil
  let q := if d.header.checksum ≠ d.header.cksum then p.setError else p
  have hall : q.allRemaining = .ok bufs := by
    rw [← hbufs]
    simp only [q]
    split_ifs <;> rfl
  refine ⟨⟨{ d.header with cksum := d.header.checksum },bufs⟩,!q.error,?_,rfl,?_⟩
  · have hparse : ({} : IPv4Datagram).header.parse (Parser.new (d.header.bytes::rest)) =
        .ok ({ d.header with cksum := d.header.checksum },q) := by
      rw [IPv4Header.parse,hfields]
      exact IPv4Header.verify_plain h.ver h.hlen p
    simp only [IPv4Datagram.parsed,IPv4Datagram.parse,hparse,hall,bind,Except.bind,pure,Except.pure]
  · exact hbytes.trans hflat

theorem Sendable.refreshed (h : Sendable d) {payload : List Buffer} {ok : Bool}
    (hser : d.serialized = .ok payload) (hparsed : IPv4Datagram.parsed payload = .ok (d',ok)) :
    Refreshed d d' := by
  obtain ⟨e,ok',he,href⟩ := h.parsed hser
  obtain ⟨rfl,-⟩ := Prod.mk.inj (Except.ok.inj (he.symm.trans hparsed))
  exact href

/-- What `n` routers have made of `d₀`. -/
structure Travelled (d₀ : InternetDatagram) (n : ℕ) (d : InternetDatagram) : Prop where
  ttl : d.header.ttl.toNat + n = d₀.header.ttl.toNat
  header : d.header = { d₀.header with ttl := d.header.ttl, cksum := d.header.cksum }
  payload : d.payload.flatten = d₀.payload.flatten

theorem Travelled.refl (d : InternetDatagram) : Travelled d 0 d := ⟨rfl,rfl,rfl⟩

theorem Travelled.sendable {n : ℕ} (h : Travelled d₀ n d) (hd : Sendable d₀) : Sendable d := by
  obtain ⟨hver,hhlen,hoffset⟩ := hd
  constructor
  · rw [h.header]
    exact hver
  · rw [h.header]
    exact hhlen
  · rw [h.header]
    exact hoffset

theorem Travelled.refreshed {n : ℕ} (h : Travelled d₀ n d) (hd : Refreshed d d') :
    Travelled d₀ n d' := by
  have httl : d'.header.ttl = d.header.ttl := by rw [hd.header]
  refine ⟨by rw [httl]; exact h.ttl,?_,hd.payload.trans h.payload⟩
  rw [hd.header,h.header]

theorem Travelled.lowered {n : ℕ} (h : Travelled d₀ n d) (httl : 2 ≤ d.header.ttl.toNat) :
    Travelled d₀ (n+1) (Router.lowerTTL d) := by
  have hlow := (Router.lowered httl).ttl
  refine ⟨?_,?_,h.payload⟩
  · have hold := h.ttl
    omega
  · refine (Router.lowered httl).header.trans ?_
    rw [h.header]

variable {η ρ L : Type} {plan : Plan η ρ L}

/-- `x` was received for `y`, on its link and at the interface that owns its hop. -/
structure ReceivedFor (plan : Plan η ρ L) (y : Sending η ρ) (x : Receipt η ρ) : Prop where
  present : plan.Exists x.port
  link : plan.link y.port = plan.link x.port
  nextHop : y.nextHop = plan.ip x.port
  dgram : Refreshed y.dgram x.dgram

/-- A router that was passed, by the interfaces at which the datagram came in and went out. -/
structure Hop (ρ : Type) where
  router : ρ
  enters : ℕ
  leaves : ℕ

/-- From what a host gave to what an interface was given in the end: each router of the way has
received the datagram where it was to go, has handled it, and has given it to one of its
interfaces. -/
inductive Journey (plan : Plan η ρ L) (l : Ledger η ρ) :
    Sending η ρ → List (Hop ρ) → Sending η ρ → Prop
  | start {h : η} {hop : Address} {d : InternetDatagram} : ⟨.host h,hop,d⟩ ∈ l.given →
      Journey plan l ⟨.host h,hop,d⟩ [] ⟨.host h,hop,d⟩
  | pass {y₀ y : Sending η ρ} {path : List (Hop ρ)} {r : ρ} {i j k : ℕ} {hop : Address}
      {d : InternetDatagram} : Journey plan l y₀ path y → ⟨.router r i,k,d⟩ ∈ l.received →
      ReceivedFor plan y ⟨.router r i,k,d⟩ → 2 ≤ d.header.ttl.toNat →
      (r,⟨d,[⟨j,hop,Router.lowerTTL d⟩]⟩) ∈ l.handled → plan.Exists (.router r j) →
      ⟨.router r j,hop,Router.lowerTTL d⟩ ∈ l.given →
      Journey plan l y₀ (path ++ [⟨r,i,j⟩]) ⟨.router r j,hop,Router.lowerTTL d⟩

/-- What was given there is what a host gave, after some routers. -/
def Sourced (plan : Plan η ρ L) (l : Ledger η ρ) (y : Sending η ρ) : Prop :=
  ∃ h hop d₀ path, Journey plan l ⟨.host h,hop,d₀⟩ path y

/-- What came in is what a host gave, after some routers, with the right checksum. -/
def Arrived (plan : Plan η ρ L) (l : Ledger η ρ) (x : Receipt η ρ) : Prop :=
  ∃ h hop d₀ path y, ⟨.host h,hop,d₀⟩ ∈ l.given ∧ Journey plan l ⟨.host h,hop,d₀⟩ path y ∧
    ReceivedFor plan y x ∧ Travelled d₀ path.length x.dgram ∧ x.dgram.header.Fresh

structure Sources (plan : Plan η ρ L) (l : Ledger η ρ) : Prop where
  sourced : ∀ y ∈ l.given, Sourced plan l y
  sendable : ∀ y ∈ l.given, Sendable y.dgram

variable {l l' : Ledger η ρ} {y₀ y : Sending η ρ} {path : List (Hop ρ)}

theorem Journey.given (h : Journey plan l y₀ path y) : y₀ ∈ l.given := by
  induction h with
  | start hgiven => exact hgiven
  | pass _ _ _ _ _ _ _ ih => exact ih

theorem Journey.travelled (h : Journey plan l y₀ path y) :
    Travelled y₀.dgram path.length y.dgram := by
  induction h with
  | start _ => exact .refl _
  | pass _ _ hfor httl _ _ _ ih =>
    rw [List.length_append]
    exact (ih.refreshed hfor.dgram).lowered httl

theorem Journey.mono (h : Journey plan l y₀ path y) (hgiven : l.given ⊆ l'.given)
    (hreceived : l.received ⊆ l'.received) (hhandled : l.handled ⊆ l'.handled) :
    Journey plan l' y₀ path y := by
  induction h with
  | start hy => exact .start (hgiven hy)
  | pass _ hx hfor httl hlog hexists hy ih =>
    exact ih.pass (hreceived hx) hfor httl (hhandled hlog) hexists (hgiven hy)

theorem Sources.append {new : List (Sending η ρ)} (h : Sources plan l)
    (hgiven : l'.given = l.given ++ new) (hreceived : l.received ⊆ l'.received)
    (hhandled : l.handled ⊆ l'.handled)
    (hnew : ∀ y ∈ new, Sourced plan l' y ∧ Sendable y.dgram) : Sources plan l' := by
  have hsub : l.given ⊆ l'.given := by
    rw [hgiven]
    exact List.subset_append_left _ _
  have hcases : ∀ y ∈ l'.given, y ∈ l.given ∨ y ∈ new := by
    rw [hgiven]
    exact fun y hy => List.mem_append.mp hy
  constructor
  · intro y hy
    rcases hcases y hy with hy | hy
    · obtain ⟨x,hop,d₀,path,hway⟩ := h.sourced y hy
      exact ⟨x,hop,d₀,path,hway.mono hsub hreceived hhandled⟩
    · exact (hnew y hy).1
  · intro y hy
    rcases hcases y hy with hy | hy
    · exact h.sendable y hy
    · exact (hnew y hy).2

theorem Sources.receivedFor {wire : List (Port η ρ × EthernetFrame)} {x : Receipt η ρ}
    (h : Sources plan l) (hx : Came plan l.given wire x) :
    ∃ y ∈ l.given, ReceivedFor plan y x ∧ x.dgram.header.Fresh := by
  obtain ⟨y,hy,f,ok,-,hexists,hlink,hhop,⟨payload,hser,rfl⟩,hparsed⟩ := hx
  exact ⟨y,hy,⟨hexists,hlink,hhop,(h.sendable y hy).refreshed hser hparsed⟩,
    IPv4Datagram.parsed_fresh hparsed⟩

theorem Sources.arrived {wire : List (Port η ρ × EthernetFrame)} {x : Receipt η ρ}
    (h : Sources plan l) (hx : Came plan l.given wire x) : Arrived plan l x := by
  obtain ⟨y,hy,hfor,hfresh⟩ := h.receivedFor hx
  obtain ⟨x',hop,d₀,path,hway⟩ := h.sourced y hy
  exact ⟨x',hop,d₀,path,y,hway.given,hway,hfor,hway.travelled.refreshed hfor.dgram,hfresh⟩

def SendsSendable : Op η ρ → Prop
  | .sendDatagram _ dgram _ => Sendable dgram
  | _ => True

theorem mem_forwards {r : ρ} {log : List Router.Handled} {y : Sending η ρ}
    (h : y ∈ Ledger.forwards r log) : ∃ x ∈ log, ∃ s ∈ x.sends,
      y = ⟨.router r s.interfaceNum,s.nextHop,s.datagram⟩ := by
  obtain ⟨x,hx,hy⟩ := List.mem_flatMap.mp h
  obtain ⟨s,hs,rfl⟩ := List.mem_map.mp hy
  exact ⟨x,hx,s,hs,rfl⟩

variable [DecidableEq ρ] [DecidableEq η] {s s' : State η ρ}

/-- What a router sends on has come one router further. -/
theorem Sources.route (h : Sources plan l) (hi : Inv plan l s) (hq : Queued l s) {r : ρ}
    {t : Router} {res : Except RuntimeError Unit} {log : List Router.Handled}
    (hs : (s.routers r).routeLogged = .ok ((t,res),log)) : Sources plan (l.handle r log) := by
  have hhandled : l.handled ⊆ (l.handle r log).handled := List.subset_append_left _ _
  have hgiven : l.given ⊆ (l.handle r log).given := List.subset_append_left _ _
  refine h.append rfl (List.Subset.refl _) hhandled ?_
  intro y hy
  obtain ⟨⟨d,sends⟩,hx,send,hsend,rfl⟩ := mem_forwards hy
  have hlog : (r,⟨d,sends⟩) ∈ (l.handle r log).handled :=
    List.mem_append_right _ (List.mem_map.mpr ⟨_,hx,rfl⟩)
  obtain ⟨i,k,hreceipt⟩ := (hq.route hs).of_handled hlog
  obtain ⟨x',hop,d₀,path,y,hd₀,hway,hfor,htravel,-⟩ := h.arrived (hi.received _ hreceipt)
  rcases Router.routeLogged_sends hs _ hx with hnone | ⟨j,hop',hj,httl,hone⟩
  · obtain rfl : sends = [] := hnone
    cases hsend
  · obtain rfl : sends = [⟨j,hop',Router.lowerTTL d⟩] := hone
    obtain rfl := List.mem_singleton.mp hsend
    have hexists : plan.Exists (.router r j) := by
      rw [hi.interfaces] at hj
      exact hj
    have hnew := (hway.mono hgiven (List.Subset.refl _) hhandled).pass hreceipt hfor httl hlog
      hexists (List.mem_append_right _ hy)
    exact ⟨⟨x',hop,d₀,_,hnew⟩,(htravel.lowered httl).sendable (h.sendable _ hd₀)⟩

variable [DecidableEq L] {op : Op η ρ} {out : Output}

theorem Sources.step (h : Sources plan l) (hi : Inv plan l s) (hq : Queued l s)
    (hg : SendsSendable op) (hs : step plan s op = .ok (s',out)) :
    Sources plan (l.record ⟨s,op,out⟩) := by
  cases op with
  | sendDatagram x d hop =>
    refine h.append rfl (List.Subset.refl _) (List.Subset.refl _) ?_
    intro y hy
    rw [List.mem_singleton.mp hy]
    exact ⟨⟨x,hop,d,[],.start (List.mem_append_right _ List.mem_cons_self)⟩,hg⟩
  | route r =>
    obtain ⟨t,res,log,hroute,rfl,rfl⟩ := routeOn_ok hs
    exact h.route hi hq hroute
  | deliver k p =>
    exact h.append (List.append_nil _).symm (List.subset_append_left _ _) (List.Subset.refl _)
      (by simp)
  | maybeReceive x =>
    exact h.append (List.append_nil _).symm (List.Subset.refl _) (List.Subset.refl _) (by simp)
  | addRoute | tick | maybeSend => exact h

variable {tr : Trace η ρ}

theorem run_sources (hsound : plan.Sound) (hr : Run (step plan) plan.start tr s)
    (hg : ∀ e ∈ tr, SendsSendable e.op) :
    Inv plan (ledger tr) s ∧ Queued (ledger tr) s ∧ Sources plan (ledger tr) := by
  refine Run.history_invariant (fun tr s => Inv plan (ledger tr) s ∧ Queued (ledger tr) s ∧
    Sources plan (ledger tr)) (fun e => SendsSendable e.op)
    ⟨start_inv plan,start_queued plan,by simp [ledger],by simp [ledger]⟩ ?_ hr hg
  rintro tr s s' op out ⟨hi,hq,hsrc⟩ hg hs
  rw [ledger_snoc]
  exact ⟨hi.step hsound hs,hq.step hs,hsrc.step hi hq hg hs⟩

/-- Only the owner of the hop of a datagram receives it, from an interface of its link, with the
checksum that the header should have. -/
theorem received_at_its_hop (hsound : plan.Sound) (hr : Run (step plan) plan.start tr s)
    (hg : ∀ e ∈ tr, SendsSendable e.op) : ∀ x ∈ (ledger tr).received, ∃ y ∈ (ledger tr).given,
      plan.link y.port = plan.link x.port ∧ y.nextHop = plan.ip x.port ∧
        Refreshed y.dgram x.dgram := by
  obtain ⟨hi,-,hsrc⟩ := run_sources hsound hr hg
  intro x hx
  obtain ⟨y,hy,hfor,-⟩ := hsrc.receivedFor (hi.received x hx)
  exact ⟨y,hy,hfor.link,hfor.nextHop,hfor.dgram⟩

/-- A host takes what came in, in its order; and each datagram that came in is one that a host sent,
over a way through routers, each of which has lowered its time to live by one, with a right checksum
and unchanged in everything else. -/
theorem journeys (hsound : plan.Sound) (hr : Run (step plan) plan.start tr s)
    (hg : ∀ e ∈ tr, SendsSendable e.op) :
    (∀ h, (ledger tr).takenBy h <+: (ledger tr).receivedAt (.host h)) ∧
      ∀ x ∈ (ledger tr).received, Arrived plan (ledger tr) x := by
  obtain ⟨hi,hq,hsrc⟩ := run_sources hsound hr hg
  constructor
  · intro h
    rw [hq.hosts h]
    exact List.prefix_append _ _
  · intro x hx
    exact hsrc.arrived (hi.received x hx)

theorem sendable_iff (d : InternetDatagram) : Sendable d ↔
    d.header.ver = 4 ∧ d.header.hlen = 5 ∧ d.header.offset.toNat < 2^13 :=
  ⟨fun h => ⟨h.ver,h.hlen,h.offset⟩,fun ⟨hver,hhlen,hoffset⟩ => ⟨hver,hhlen,hoffset⟩⟩

instance (d : InternetDatagram) : Decidable (Sendable d) :=
  decidable_of_iff _ (sendable_iff d).symm

instance (op : Op η ρ) : Decidable (SendsSendable op) :=
  match op with
  | .sendDatagram _ dgram _ => inferInstanceAs (Decidable (Sendable dgram))
  | .maybeReceive _ | .addRoute _ _ | .route _ | .tick _ _ | .maybeSend _ | .deliver _ _ =>
    inferInstanceAs (Decidable True)

theorem crossing_run : ∃ tr s, Run (step twoLinks) twoLinks.start tr s ∧
    (∀ e ∈ tr, SendsSendable e.op) ∧ (ledger tr).received.length = 2 ∧
      ((ledger tr).takenBy true).length = 1 :=
  Run.exists_of_exec (step twoLinks) twoLinks.start crossing
    (fun tr _ => (∀ e ∈ tr, SendsSendable e.op) ∧ (ledger tr).received.length = 2 ∧
      ((ledger tr).takenBy true).length = 1) (by decide +kernel)

theorem received_at_its_hop_crossing : ∃ tr s, Run (step twoLinks) twoLinks.start tr s ∧
    (ledger tr).received.length = 2 ∧ ∀ x ∈ (ledger tr).received, ∃ y ∈ (ledger tr).given,
      twoLinks.link y.port = twoLinks.link x.port ∧ y.nextHop = twoLinks.ip x.port ∧
        Refreshed y.dgram x.dgram := by
  obtain ⟨tr,s,hr,hg,hlen,-⟩ := crossing_run
  exact ⟨tr,s,hr,hlen,received_at_its_hop twoLinks_sound hr hg⟩

theorem journeys_crossing : ∃ tr s, Run (step twoLinks) twoLinks.start tr s ∧
    ((ledger tr).takenBy true).length = 1 ∧
      (∀ h, (ledger tr).takenBy h <+: (ledger tr).receivedAt (.host h)) ∧
      ∀ x ∈ (ledger tr).received, Arrived twoLinks (ledger tr) x := by
  obtain ⟨tr,s,hr,hg,-,htaken⟩ := crossing_run
  exact ⟨tr,s,hr,htaken,journeys twoLinks_sound hr hg⟩

end Internet
end Minnow
