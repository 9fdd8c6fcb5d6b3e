import Minnow.Stations

/-! Runs of a network. The state of every interface is a station, and what has come in somewhere was
given to a station on the same link, for the hop that it came in at. -/
namespace Minnow
namespace Internet

open Library EthernetHeader NetworkInterface InterfaceRuns Router State

variable {η ρ L : Type}

/-- The datagram came in as its frame carried it, from an interface on the link of `x.port` that was
given it for this hop. -/
def Came (plan : Plan η ρ L) (given : List (Sending η ρ)) (wire : List (Port η ρ × EthernetFrame))
    (x : Receipt η ρ) : Prop :=
  ∃ y ∈ given, ∃ f ok, wire[x.frame]? = some (y.port,f) ∧ plan.Exists x.port ∧
    plan.link y.port = plan.link x.port ∧ y.nextHop = plan.ip x.port ∧
    Carries (plan.eth y.port) (plan.eth x.port) y.dgram f ∧
    IPv4Datagram.parsed f.payload = .ok (x.dgram,ok)

variable {plan : Plan η ρ L}

theorem Came.mono {given given' : List (Sending η ρ)} {wire : List (Port η ρ × EthernetFrame)}
    {x : Receipt η ρ} (h : Came plan given wire x) (hsub : ∀ y ∈ given, y ∈ given')
    (more : List (Port η ρ × EthernetFrame)) : Came plan given' (wire ++ more) x := by
  obtain ⟨y,hy,f,ok,hf,hrest⟩ := h
  have hlt : x.frame < wire.length := by
    by_contra hout
    rw [List.getElem?_eq_none (Nat.not_lt.mp hout)] at hf
    cases hf
  exact ⟨y,hsub y hy,f,ok,by rwa [List.getElem?_append_left hlt],hrest⟩

variable [DecidableEq ρ]

theorem setRouter_lengths {s : State η ρ} {r : ρ} {router : Router}
    (h : router.interfaces.length = (s.routers r).interfaces.length) (r' : ρ) :
    ((s.setRouter r router).routers r').interfaces.length = (s.routers r').interfaces.length := by
  by_cases hr : r' = r
  · subst hr
    simpa [setRouter] using h
  · simp [setRouter,Function.update_of_ne hr]

theorem routeOn_ok {s s' : State η ρ} {r : ρ} {out : Output}
    (hs : routeOn s r = .ok (s',out)) : ∃ t res log,
    (s.routers r).routeLogged = .ok ((t,res),log) ∧ s' = s.setRouter r t ∧
      out = { handled := log, thrown := thrownBy res } := by
  unfold routeOn at hs
  split at hs
  · cases hs
  · rename_i t res log hroute
    cases hs
    exact ⟨t,res,log,hroute,rfl,rfl⟩

theorem setRouter_self (s : State η ρ) (r : ρ) : s.setRouter r (s.routers r) = s := by
  simp [setRouter]

variable [DecidableEq η]

structure Inv (plan : Plan η ρ L) (l : Ledger η ρ) (s : State η ρ) : Prop where
  stations : ∀ p a, s.interfaceAt p = some a → ∃ E Q,
    Station plan p (l.givenAt p) (s.sentBy p) E Q a.toNetworkInterface
  interfaces : ∀ r, (s.routers r).interfaces.length = plan.interfaces r
  wire : ∀ x ∈ s.wire, plan.Exists x.1 ∧
    (x.2.header.type ≠ TYPE_IPv4 → Truthful plan x.1 x.2)
  received : ∀ x ∈ l.received, Came plan l.given s.wire x

variable {l l' : Ledger η ρ} {s s' : State η ρ} {p q : Port η ρ}
  {a b : AsyncNetworkInterface} {tr : Trace η ρ} {op : Op η ρ} {out : Output}

theorem Inv.exists_iff (h : Inv plan l s) (p : Port η ρ) :
    plan.Exists p ↔ s.interfaceAt p ≠ none := by
  cases p with
  | host x => simp [Plan.Exists,interfaceAt]
  | router r i => simp [Plan.Exists,interfaceAt,h.interfaces]

theorem mem_sentBy {f : EthernetFrame} : f ∈ s.sentBy p ↔ (p,f) ∈ s.wire := by
  simp [sentBy]

theorem mem_givenAt {x : Address × InternetDatagram} :
    x ∈ l.givenAt p ↔ ⟨p,x.1,x.2⟩ ∈ l.given := by
  unfold Ledger.givenAt
  constructor
  · intro hx
    obtain ⟨y,hy,rfl⟩ := List.mem_map.mp hx
    obtain ⟨hy,hp⟩ := List.mem_filter.mp hy
    have hport : y.port = p := by simpa using hp
    rw [← hport]
    exact hy
  · intro hx
    exact List.mem_map.mpr ⟨_,List.mem_filter.mpr ⟨hx,by simp⟩,rfl⟩

theorem start_inv (plan : Plan η ρ L) : Inv plan {} plan.start where
  stations := by
    intro p a ha
    refine ⟨[],[],?_⟩
    have hnew : a.toNetworkInterface = NetworkInterface.new (plan.eth p) (plan.ip p) := by
      cases p with
      | host x =>
        obtain rfl := Option.some.inj ha
        rfl
      | router r i =>
        obtain ⟨j,hj,rfl⟩ : ∃ j, (List.range (plan.interfaces r))[i]? = some j ∧
            AsyncNetworkInterface.new (plan.eth (.router r j)) (plan.ip (.router r j)) = a := by
          simpa [interfaceAt,Plan.start] using ha
        obtain ⟨-,rfl⟩ := List.getElem?_eq_some_iff.mp hj
        rw [List.getElem_range]
        rfl
    rw [hnew]
    exact new_station plan p
  interfaces := by simp [Plan.start]
  wire := by simp [Plan.start]
  received := by simp

theorem setInterface_lengths (s : State η ρ) (p : Port η ρ) (a : AsyncNetworkInterface) (r : ρ) :
    ((s.setInterface p a).routers r).interfaces.length = (s.routers r).interfaces.length := by
  cases p with
  | host x => rfl
  | router r' i => exact setRouter_lengths List.length_set r

/-- The interface `p` changes, sends the frames `fs`, and may be given something. -/
theorem Inv.change (h : Inv plan l s) (hp : s.interfaceAt p = some a) (b : AsyncNetworkInterface)
    (fs : List EthernetFrame) (hgiven : ∀ q, q ≠ p → l'.givenAt q = l.givenAt q)
    (hsub : ∀ y ∈ l.given, y ∈ l'.given)
    (hst : ∃ E Q, Station plan p (l'.givenAt p) (s.sentBy p ++ fs) E Q b.toNetworkInterface)
    (htruth : ∀ f ∈ fs, f.header.type ≠ TYPE_IPv4 → Truthful plan p f)
    (hrec : ∀ x ∈ l'.received, x ∈ l.received ∨ Came plan l.given s.wire x) :
    Inv plan l' { s.setInterface p b with wire := s.wire ++ fs.map fun f => (p,f) } := by
  have hne : s.interfaceAt p ≠ none := by simp [hp]
  have hat : ∀ q, ({ s.setInterface p b with wire := s.wire ++ fs.map fun f => (p,f) } :
      State η ρ).interfaceAt q = if q = p then some b else s.interfaceAt q := by
    intro q
    rw [← setInterface_interfaceAt hne b q]
    cases q <;> rfl
  have hsent : ∀ q, ({ s.setInterface p b with wire := s.wire ++ fs.map fun f => (p,f) } :
      State η ρ).sentBy q = if q = p then s.sentBy p ++ fs else s.sentBy q := by
    intro q
    by_cases hq : q = p
    · subst hq
      simp [sentBy,List.filter_map,Function.comp_def]
    · simp [sentBy,List.filter_map,Function.comp_def,hq,Ne.symm hq]
  constructor
  · intro q c hc
    rw [hat] at hc
    rw [hsent]
    by_cases hq : q = p
    · subst hq
      rw [if_pos rfl] at hc ⊢
      obtain rfl := Option.some.inj hc
      exact hst
    · rw [if_neg hq] at hc ⊢
      rw [hgiven q hq]
      exact h.stations q c hc
  · intro r
    exact (setInterface_lengths s p b r).trans (h.interfaces r)
  · intro x hx
    rcases List.mem_append.mp hx with hx | hx
    · exact h.wire x hx
    · obtain ⟨f,hf,rfl⟩ := List.mem_map.mp hx
      exact ⟨(h.exists_iff p).mpr hne,htruth f hf⟩
  · intro x hx
    rcases hrec x hx with hx | hcame
    · exact (h.received x hx).mono hsub _
    · exact hcame.mono hsub _

theorem Inv.set (h : Inv plan l s) (hp : s.interfaceAt p = some a) (b : AsyncNetworkInterface)
    (hgiven : ∀ q, q ≠ p → l'.givenAt q = l.givenAt q) (hsub : ∀ y ∈ l.given, y ∈ l'.given)
    (hst : ∃ E Q, Station plan p (l'.givenAt p) (s.sentBy p) E Q b.toNetworkInterface)
    (hrec : ∀ x ∈ l'.received, x ∈ l.received ∨ Came plan l.given s.wire x) :
    Inv plan l' (s.setInterface p b) := by
  have hchange := h.change hp b [] hgiven hsub (by rwa [List.append_nil]) (by simp) hrec
  have hsame : ({ s.setInterface p b with wire := s.wire ++ [].map fun f => (p,f) } :
      State η ρ) = s.setInterface p b := by
    rw [List.map_nil,List.append_nil,← setInterface_wire s p b]
  rwa [hsame] at hchange

theorem givenAt_append (l : Ledger η ρ) (ys : List (Sending η ρ)) (q : Port η ρ) :
    ({ l with given := l.given ++ ys } : Ledger η ρ).givenAt q =
      l.givenAt q ++ (ys.filter fun y => y.port = q).map fun y => (y.nextHop,y.dgram) := by
  simp [Ledger.givenAt]

theorem Inv.sendDatagram (h : Inv plan l s) (hp : s.interfaceAt p = some a)
    {d : InternetDatagram} {hop : Address} {n : NetworkInterface} {r : Except RuntimeError Unit}
    (hs : a.toNetworkInterface.sendDatagram d hop = .ok (n,r)) :
    Inv plan { l with given := l.given ++ [⟨p,hop,d⟩] }
      (s.setInterface p { a with toNetworkInterface := n }) := by
  obtain ⟨E,Q,hst⟩ := h.stations p a hp
  obtain ⟨Q',hst'⟩ := hst.sendDatagram hs
  refine h.set hp _ ?_ (fun y hy => List.mem_append_left _ hy) ⟨E,Q',?_⟩ (fun x hx => Or.inl hx)
  · intro q hq
    rw [givenAt_append]
    simp [Ne.symm hq]
  · rw [givenAt_append]
    simpa using hst'

theorem Inv.quiet (h : Inv plan l s) (hp : s.interfaceAt p = some a) (b : AsyncNetworkInterface)
    (hgiven : l'.given = l.given) (hrec : l'.received = l.received)
    (hst : ∀ {E Q : List (Address × InternetDatagram)},
      Station plan p (l.givenAt p) (s.sentBy p) E Q a.toNetworkInterface →
      ∃ Q', Station plan p (l.givenAt p) (s.sentBy p) E Q' b.toNetworkInterface) :
    Inv plan l' (s.setInterface p b) := by
  have hsame : ∀ q, l'.givenAt q = l.givenAt q := by
    intro q
    rw [Ledger.givenAt,hgiven,Ledger.givenAt]
  obtain ⟨E,Q,hstation⟩ := h.stations p a hp
  obtain ⟨Q',hst'⟩ := hst hstation
  refine h.set hp b (fun q _ => hsame q) (fun y hy => hgiven ▸ hy) ⟨E,Q',?_⟩ ?_
  · rw [hsame]
    exact hst'
  · intro x hx
    exact Or.inl (hrec ▸ hx)

theorem Inv.addressed (h : Inv plan l s) {f : EthernetFrame} (hf : (q,f) ∈ s.wire)
    (htype : f.header.type = TYPE_IPv4) : ∃ hop d eth, ⟨q,hop,d⟩ ∈ l.given ∧
      plan.Owns q hop eth ∧ Carries (plan.eth q) eth d f := by
  obtain ⟨a,ha⟩ := Option.ne_none_iff_exists'.mp ((h.exists_iff q).mp (h.wire _ hf).1)
  obtain ⟨E,Q,hst⟩ := h.stations q a ha
  have hmem : f ∈ ipv4Frames (s.sentBy q) :=
    List.mem_filter.mpr ⟨mem_sentBy.mpr hf,by simpa using htype⟩
  obtain ⟨⟨hop,d⟩,hE,eth,howns,hcarries⟩ := RouterRuns.exists_of_mem_right hst.sent hmem
  refine ⟨hop,d,eth,?_,howns,hcarries⟩
  have hcount := hst.count hop d
  have hpos : 0 < E.count (hop,d) := List.count_pos_iff.mpr hE
  have hin : (hop,d) ∈ l.givenAt q := List.count_pos_iff.mp (by omega)
  exact mem_givenAt.mp hin

theorem recvFrame_dst {n n' : NetworkInterface} {f : EthernetFrame} {d : InternetDatagram}
    (h : n.recvFrame f = .ok (n',.ok (some d))) :
    f.header.dst = n.ethernetAddress ∨ f.header.dst = ETHERNET_BROADCAST := by
  by_contra hother
  rw [NetworkInterface.recvFrame,if_pos (not_or.mp hother)] at h
  cases h

/-- A frame of the wire that brings a datagram to an interface of its link. -/
theorem Inv.came (h : Inv plan l s) (hsound : plan.Sound) (hp : s.interfaceAt p = some a) {k : ℕ}
    {f : EthernetFrame} (hf : s.wire[k]? = some (q,f)) (hlink : plan.link q = plan.link p)
    {d : InternetDatagram} {n : NetworkInterface}
    (hs : a.toNetworkInterface.recvFrame f = .ok (n,.ok (some d))) :
    Came plan l.given s.wire ⟨p,k,d⟩ := by
  have hmem := List.mem_of_getElem? hf
  obtain ⟨htype,ok,hparsed⟩ := recvFrame_some hs
  obtain ⟨hop,e,eth,hgiven,⟨o,ho,holink,hoip,hoeth⟩,hcarries⟩ := h.addressed hmem htype
  have hpe := (h.exists_iff p).mpr (by simp [hp])
  obtain ⟨E,Q,hst⟩ := h.stations p a hp
  have hdst : f.header.dst = eth := by
    obtain ⟨payload,-,rfl⟩ := hcarries
    rfl
  -- the frame is for the one interface of the link with this address
  obtain rfl : o = p := by
    refine hsound.eth o p ho hpe (holink.trans hlink) ?_
    rcases recvFrame_dst hs with hto | hto
    · rw [hoeth,← hdst,hto,hst.eth]
    · exact absurd (hoeth.trans (hdst.symm.trans hto)) (hsound.unicast o ho)
  rw [← hoeth] at hcarries
  exact ⟨_,hgiven,f,ok,hf,hpe,hlink,hoip.symm,hcarries,hparsed⟩

theorem Inv.owns (h : Inv plan l s) {f : EthernetFrame} (hf : (q,f) ∈ s.wire)
    (hlink : plan.link q = plan.link p) {n : NetworkInterface} {msg : ARPMessage}
    (hmsg : n.arpFor f = some msg) : plan.Owns p msg.senderIpAddress msg.senderEthernetAddress := by
  obtain ⟨hq,htruth⟩ := h.wire _ hf
  refine (htruth ?_).owns hq hlink hmsg
  intro htype
  rw [arpFor_ipv4 htype] at hmsg
  cases hmsg

theorem Inv.addRoute (h : Inv plan l s) (r : ρ) (route : RoutingTable.Route) :
    Inv plan l (s.setRouter r ((s.routers r).addRoute route)) where
  stations := by
    intro p a ha
    refine h.stations p a ?_
    rw [← ha]
    cases p with
    | host x => rfl
    | router r' i =>
      by_cases hr : r' = r
      · subst hr
        rw [setRouter_router]
        rfl
      · rw [setRouter_interfaceAt _ _ _ _ (by simp [hr])]
  interfaces := fun r' => by
    have hsame : ((s.routers r).addRoute route).interfaces.length =
        (s.routers r).interfaces.length := rfl
    exact (setRouter_lengths hsame r').trans (h.interfaces r')
  wire := h.wire
  received := h.received

theorem onPort_ok {call : AsyncNetworkInterface → Except Fault (AsyncNetworkInterface × Output)}
    (hs : onPort s p call = .ok (s',out)) : ∃ a b, s.interfaceAt p = some a ∧
      call a = .ok (b,out) ∧ s' = s.setInterface p b := by
  unfold onPort at hs
  split at hs
  · cases hs
  · rename_i a ha
    split at hs
    · cases hs
    · rename_i b out' hcall
      cases hs
      exact ⟨a,b,ha,hcall,rfl⟩

theorem onPort_eq {call : AsyncNetworkInterface → Except Fault (AsyncNetworkInterface × Output)}
    (hp : s.interfaceAt p = some a) (hcall : call a = .ok (b,out)) :
    onPort s p call = .ok (s.setInterface p b,out) := by
  simp only [onPort,hp,hcall]

theorem transmit_eq (hp : s.interfaceAt p = some a) : transmit s p =
    .ok ({ s.setInterface p { a with toNetworkInterface := a.toNetworkInterface.maybeSend.1 } with
      wire := s.wire ++ a.toNetworkInterface.maybeSend.2.toList.map fun f => (p,f) },{}) := by
  simp only [transmit,hp]

theorem sendDatagramOn_ok {d : InternetDatagram} {hop : Address}
    (hs : sendDatagramOn d hop a = .ok (b,out)) : ∃ n r,
      a.toNetworkInterface.sendDatagram d hop = .ok (n,r) ∧ b = { a with toNetworkInterface := n } ∧
        out = { thrown := thrownBy r } := by
  unfold sendDatagramOn at hs
  split at hs
  · cases hs
  · rename_i n r hsend
    cases hs
    exact ⟨n,r,hsend,rfl,rfl⟩

theorem recvFrameOn_ok {f : EthernetFrame} (hs : recvFrameOn f a = .ok (b,out)) : ∃ n r,
    a.toNetworkInterface.recvFrame f = .ok (n,r) ∧ out.thrown = thrownBy r ∧
      out.handled = [] ∧ out.taken = none ∧
      b = ⟨n,a.datagramsIn ++ out.received.toList⟩ ∧
      ∀ d, out.received = some d → r = .ok (some d) := by
  unfold recvFrameOn AsyncNetworkInterface.recvFrame at hs
  cases hrecv : a.toNetworkInterface.recvFrame f with
  | error e => simp [hrecv] at hs
  | ok res =>
    obtain ⟨n,res⟩ := res
    rcases res with e | _ | d
    · simp only [hrecv] at hs
      cases hs
      exact ⟨n,_,rfl,rfl,rfl,rfl,by simp,by simp⟩
    · simp only [hrecv] at hs
      cases hs
      exact ⟨n,_,rfl,rfl,rfl,rfl,by simp,by simp⟩
    · simp only [hrecv] at hs
      cases hs
      exact ⟨n,_,rfl,rfl,rfl,rfl,by simp,by simp⟩

theorem setRouter_setInterface (s : State η ρ) (r : ρ) (t : Router) (i : ℕ)
    (b : AsyncNetworkInterface) : (s.setRouter r t).setInterface (.router r i) b =
      s.setRouter r { t with interfaces := t.interfaces.set i b } := by
  simp [setInterface,setRouter]

/-- One call of `route()`: each datagram is taken from its interface, and then given to another. -/
theorem Inv.route (h : Inv plan l s) {r : ρ} {t : Router} {res : Except RuntimeError Unit}
    {log : List Handled} (hs : (s.routers r).routeLogged = .ok ((t,res),log)) :
    Inv plan (l.handle r log) (s.setRouter r t) := by
  refine routeLogged_induction (fun log t => Inv plan (l.handle r log) (s.setRouter r t)) ?_ ?_ hs
  · rw [setRouter_self]
    simpa [Ledger.handle,Ledger.forwards] using h
  · intro log t t' i a d ds res sends hI ha hds hforward
    have hat : (s.setRouter r t).interfaceAt (.router r i) = some a := by rw [setRouter_router,ha]
    let l₁ : Ledger η ρ :=
      { l.handle r (log ++ [⟨d,sends⟩]) with given := (l.handle r log).given }
    have htake : Inv plan l₁ ((s.setRouter r t).setInterface (.router r i)
        { a with datagramsIn := ds }) :=
      hI.quiet hat _ rfl rfl fun {_ Q} hst => ⟨Q,hst⟩
    rw [setRouter_setInterface] at htake
    rcases forwardLogged_cases hforward with ⟨rfl,rfl⟩ | ⟨j,hop,c,n,-,hc,hsend,rfl,rfl⟩
    · have hsame : l₁ = l.handle r (log ++ [⟨d,[]⟩]) := by
        simp [l₁,Ledger.handle,Ledger.forwards]
      rwa [hsame] at htake
    · have hsend' := htake.sendDatagram (p := .router r j) (by rw [setRouter_router]; exact hc) hsend
      rw [setRouter_setInterface] at hsend'
      have hsame : ({ l₁ with given := l₁.given ++ [⟨.router r j,hop,lowerTTL d⟩] } :
          Ledger η ρ) = l.handle r (log ++ [⟨d,[⟨j,hop,lowerTTL d⟩]⟩]) := by
        simp [l₁,Ledger.handle,Ledger.forwards]
      rwa [hsame] at hsend'

theorem Inv.maybeSend (h : Inv plan l s) (hs : transmit s p = .ok (s',out)) : Inv plan l s' := by
  unfold transmit at hs
  split at hs
  · cases hs
  · rename_i a ha
    cases hs
    obtain ⟨E,Q,hst⟩ := h.stations p a ha
    obtain ⟨hst',htruth⟩ := hst.maybeSend
    refine h.change ha _ _ (fun _ _ => rfl) (fun _ hy => hy) hst' ?_ (fun _ hx => Or.inl hx)
    intro f hf
    exact htruth f (Option.mem_toList.mp hf)

theorem Inv.deliver (h : Inv plan l s) (hsound : plan.Sound) {k : ℕ} {f : EthernetFrame}
    (hf : s.wire[k]? = some (q,f)) (hlink : plan.link q = plan.link p)
    (hs : onPort s p (recvFrameOn f) = .ok (s',out)) :
    Inv plan { l with received := l.received ++ out.received.toList.map fun d => ⟨p,k,d⟩ } s' := by
  obtain ⟨a,b,ha,hcall,rfl⟩ := onPort_ok hs
  obtain ⟨n,r,hrecv,-,-,-,rfl,hd⟩ := recvFrameOn_ok hcall
  obtain ⟨E,Q,hst⟩ := h.stations p a ha
  obtain ⟨Q',hst'⟩ := hst.recvFrame (fun msg hmsg => h.owns (List.mem_of_getElem? hf) hlink hmsg) hrecv
  refine h.set ha _ (fun _ _ => rfl) (fun _ hy => hy) ⟨E,Q',hst'⟩ ?_
  intro x hx
  rcases List.mem_append.mp hx with hx | hx
  · exact Or.inl hx
  · obtain ⟨d,hrec,rfl⟩ := List.mem_map.mp hx
    rw [hd d (by simpa using hrec)] at hrecv
    exact Or.inr (h.came hsound ha hf hlink hrecv)

variable [DecidableEq L]

theorem deliver_eq {k : ℕ} {f : EthernetFrame} {n : NetworkInterface} {d : Option InternetDatagram}
    (hf : s.wire[k]? = some (q,f)) (hlink : plan.link q = plan.link p) (hp : s.interfaceAt p = some a)
    (hrecv : a.toNetworkInterface.recvFrame f = .ok (n,.ok d)) : step plan s (.deliver k p) =
      .ok (s.setInterface p ⟨n,a.datagramsIn ++ d.toList⟩,{ received := d }) := by
  have hcall : recvFrameOn f a = .ok (⟨n,a.datagramsIn ++ d.toList⟩,{ received := d }) := by
    cases d with
    | none => simp [recvFrameOn,AsyncNetworkInterface.recvFrame,hrecv]
    | some d => simp [recvFrameOn,AsyncNetworkInterface.recvFrame,hrecv]
  rw [← onPort_eq hp hcall]
  simp only [step,hf,if_pos hlink]

theorem deliver_ok {k : ℕ} (hs : step plan s (.deliver k p) = .ok (s',out)) :
    s' = s ∧ out = {} ∨ ∃ q f, s.wire[k]? = some (q,f) ∧ plan.link q = plan.link p ∧
      onPort s p (recvFrameOn f) = .ok (s',out) := by
  simp only [step] at hs
  split at hs
  · cases hs
    exact Or.inl ⟨rfl,rfl⟩
  · rename_i q f hf
    split_ifs at hs with hlink
    · exact Or.inr ⟨q,f,hf,hlink,hs⟩
    · cases hs
      exact Or.inl ⟨rfl,rfl⟩

theorem Inv.step (h : Inv plan l s) (hsound : plan.Sound)
    (hs : step plan s op = .ok (s',out)) : Inv plan (l.record ⟨s,op,out⟩) s' := by
  cases op with
  | sendDatagram x d hop =>
    have hs : onPort s (.host x) (sendDatagramOn d hop) = .ok (s',out) := hs
    obtain ⟨a,b,ha,hcall,rfl⟩ := onPort_ok hs
    obtain ⟨n,r,hsend,rfl,rfl⟩ := sendDatagramOn_ok hcall
    exact h.sendDatagram ha hsend
  | maybeReceive x =>
    have hs : onPort s (.host x) maybeReceiveOn = .ok (s',out) := hs
    obtain ⟨a,b,ha,hcall,rfl⟩ := onPort_ok hs
    cases hcall
    refine h.quiet ha _ rfl rfl fun {_ Q} hst => ⟨Q,?_⟩
    unfold AsyncNetworkInterface.maybeReceive
    split <;> exact hst
  | addRoute r route =>
    cases hs
    exact h.addRoute r route
  | route r =>
    obtain ⟨t,res,log,hroute,rfl,rfl⟩ := routeOn_ok hs
    exact h.route hroute
  | tick p ms =>
    have hs : onPort s p (tickOn ms) = .ok (s',out) := hs
    obtain ⟨a,b,ha,hcall,rfl⟩ := onPort_ok hs
    cases hcall
    exact h.quiet ha _ rfl rfl fun {_ Q} hst => ⟨Q,hst.tick ms⟩
  | maybeSend p => exact h.maybeSend hs
  | deliver k p =>
    rcases deliver_ok hs with ⟨rfl,rfl⟩ | ⟨q,f,hf,hlink,hs⟩
    · rwa [Ledger.record_deliver_none]
    · exact h.deliver hsound hf hlink hs

theorem run_inv (hsound : plan.Sound) (hr : Run (step plan) plan.start tr s) :
    Inv plan (ledger tr) s := by
  refine Run.history_invariant (fun tr s => Inv plan (ledger tr) s) (fun _ => True)
    (start_inv plan) ?_ hr fun _ _ => trivial
  intro tr s s' op out h _ hs
  rw [ledger_snoc]
  exact h.step hsound hs

/-- All mappings are true, and every IPv4 frame on a link carries a datagram that its sender was
given, to the interface there that owns the hop. -/
theorem mappings_true (hsound : plan.Sound) (hr : Run (step plan) plan.start tr s) :
    (∀ p a ip eth, s.interfaceAt p = some a → Maps a.toNetworkInterface ip eth →
        plan.Owns p ip eth) ∧
      ∀ q f, (q,f) ∈ s.wire → f.header.type = TYPE_IPv4 → ∃ hop d,
        ⟨q,hop,d⟩ ∈ (ledger tr).given ∧ plan.Owns q hop f.header.dst ∧
          Carries (plan.eth q) f.header.dst d f := by
  have h := run_inv hsound hr
  constructor
  · rintro p a ip eth ha ⟨ptr,node,-,hnode,rfl,rfl⟩
    obtain ⟨E,Q,hst⟩ := h.stations p a ha
    exact hst.mappings node (Deque.mem_of_deref hnode)
  · intro q f hf htype
    obtain ⟨hop,d,eth,hgiven,howns,hcarries⟩ := h.addressed hf htype
    have hdst : f.header.dst = eth := by
      obtain ⟨payload,-,rfl⟩ := hcarries
      rfl
    rw [hdst]
    exact ⟨hop,d,hgiven,howns,hcarries⟩

/-- A host on each of two links, and a router between them. -/
def twoLinks : Plan Bool Unit Bool where
  link
    | .host x => x
    | .router _ i => i = 1
  eth
    | .host x => ⟨[2,0,0,0,0,if x then 2 else 1],rfl⟩
    | .router _ i => ⟨[2,0,0,0,1,UInt8.ofNat i],rfl⟩
  ip
    | .host x => if x then 2 else 1
    | .router _ i => 16 + UInt32.ofNat i
  interfaces := fun _ => 2

theorem twoLinks_sound : twoLinks.Sound := by
  have hcases : ∀ p, twoLinks.Exists p →
      p = .host false ∨ p = .host true ∨ p = .router () 0 ∨ p = .router () 1 := by
    rintro (x | ⟨r,i⟩) hp
    · cases x <;> simp
    · have hlt : i < 2 := hp
      obtain rfl | rfl : i = 0 ∨ i = 1 := by omega
      · simp
      · simp
  constructor
  · intro p q hp hq
    rcases hcases p hp with rfl | rfl | rfl | rfl <;>
      rcases hcases q hq with rfl | rfl | rfl | rfl <;> decide
  · intro p q hp hq
    rcases hcases p hp with rfl | rfl | rfl | rfl <;>
      rcases hcases q hq with rfl | rfl | rfl | rfl <;> decide
  · intro p hp
    rcases hcases p hp with rfl | rfl | rfl | rfl <;> decide

/-- The one host sends a datagram to the other one. -/
def crossing : List (Op Bool Unit) :=
  [.addRoute () ⟨⟨0,0,none⟩,1⟩,.sendDatagram false { header := { dst := 2 }, payload := [[7]] } 16,
    .maybeSend (.host false),.deliver 0 (.router () 0),.maybeSend (.router () 0),
    .deliver 1 (.host false),.maybeSend (.host false),.deliver 2 (.router () 0),.route (),
    .maybeSend (.router () 1),.deliver 3 (.host true),.maybeSend (.host true),
    .deliver 4 (.router () 1),.maybeSend (.router () 1),.deliver 5 (.host true),.maybeReceive true]

theorem mappings_true_crossing : ∃ tr s, Run (step twoLinks) twoLinks.start tr s ∧
    s.wire.length = 6 ∧ ∀ q f, (q,f) ∈ s.wire → f.header.type = TYPE_IPv4 → ∃ hop d,
      ⟨q,hop,d⟩ ∈ (ledger tr).given ∧ twoLinks.Owns q hop f.header.dst ∧
        Carries (twoLinks.eth q) f.header.dst d f := by
  obtain ⟨tr,s,hr,hwire⟩ := Run.exists_of_exec (step twoLinks) twoLinks.start crossing
    (fun _ s => s.wire.length = 6) (by decide +kernel)
  exact ⟨tr,s,hr,hwire,(mappings_true twoLinks_sound hr).2⟩

end Internet
end Minnow
