import Minnow.Journeys

/-! No call that the network makes fails: as long as the datagrams of the hosts can be serialized and
the routes are valid, every call is defined, and none of them throws. -/
namespace Minnow
namespace Internet

open Library EthernetHeader NetworkInterface InterfaceRuns Router RoutingTable State

variable {η ρ L : Type} {plan : Plan η ρ L}

/-- What the owners of the interfaces may do: give datagrams that can be serialized, add routes of a
valid length to interfaces that exist, and use interfaces that exist. -/
def Admissible (plan : Plan η ρ L) : Op η ρ → Prop
  | .sendDatagram _ dgram _ => Sendable dgram
  | .addRoute r route => route.entry.prefixLength.toNat ≤ 32 ∧ route.interfaceNum < plan.interfaces r
  | .tick p _ | .maybeSend p | .deliver _ p => plan.Exists p
  | .maybeReceive _ | .route _ => True

theorem Admissible.sendsSendable {op : Op η ρ} (h : Admissible plan op) : SendsSendable op := by
  cases op with
  | sendDatagram x d hop => exact h
  | _ => trivial

def Tables (plan : Plan η ρ L) (s : State η ρ) : Prop :=
  ∀ r, ∀ route ∈ consulted (s.routers r).routerTable,
    route.entry.prefixLength.toNat ≤ 32 ∧ route.interfaceNum < plan.interfaces r

theorem mem_addRoute {table : Table} {route x : Route} (h : x ∈ consulted (RoutingTable.addRoute table route)) :
    x ∈ consulted table ∨ x = route := by
  by_cases hx : x = route
  · exact Or.inr hx
  · have hpos := List.count_pos_iff.mpr h
    have hzero : [route].count x = 0 := by
      rw [List.count_eq_zero,List.mem_singleton]
      exact hx
    rw [count_addRoute,hzero] at hpos
    split_ifs at hpos
    · exact Or.inl (List.count_pos_iff.mp hpos)
    · exact absurd hpos (lt_irrefl 0)

variable {p q : Port η ρ} {E Q : List (Address × InternetDatagram)} {W : List EthernetFrame}

theorem Station.pending {G : List (Address × InternetDatagram)} {n : NetworkInterface}
    (h : Station plan p G W E Q n) {ip : Address} {d : InternetDatagram}
    (hd : d ∈ (n.arpTable ip).pendingIpDatagrams) : (ip,d) ∈ G := by
  have hcount := h.count ip d
  have hpos : 0 < (n.arpTable ip).pendingIpDatagrams.count d := List.count_pos_iff.mpr hd
  exact List.count_pos_iff.mp (by omega)

variable [DecidableEq ρ] {s s' : State η ρ}

theorem setRouter_table {r : ρ} {t : Router} (h : t.routerTable = (s.routers r).routerTable) (r' : ρ) :
    ((s.setRouter r t).routers r').routerTable = (s.routers r').routerTable := by
  by_cases hr : r' = r
  · subst hr
    simpa [setRouter] using h
  · simp [setRouter,Function.update_of_ne hr]

variable [DecidableEq η] {l : Ledger η ρ} {a : AsyncNetworkInterface}

theorem setInterface_table (s : State η ρ) (p : Port η ρ) (b : AsyncNetworkInterface) (r : ρ) :
    ((s.setInterface p b).routers r).routerTable = (s.routers r).routerTable := by
  cases p with
  | host x => rfl
  | router r' i =>
    exact setRouter_table
      (t := { s.routers r' with interfaces := (s.routers r').interfaces.set i b }) rfl r

theorem Station.learn_ok {n : NetworkInterface} (h : Station plan p (l.givenAt p) W E Q n)
    (hsrc : Sources plan l) (ip : Address) (eth : EthernetAddress) :
    (n.learn ip eth).2 = .ok () := by
  rcases learn_spec n ip eth with ⟨-,hlearn⟩ | ⟨-,sent,rest,fs,r,hsplit,-,hlearn,hall⟩
  · rw [hlearn]
  · rw [hlearn]
    refine (hall fun d hd => ?_).2
    have hmem : d ∈ (n.arpTable ip).pendingIpDatagrams := by
      rw [hsplit]
      exact List.mem_append_right _ hd
    exact (hsrc.sendable _ (mem_givenAt.mp (h.pending hmem))).ver

theorem Inv.recvFrame_ok (h : Inv plan l s) (hsrc : Sources plan l)
    (hp : s.interfaceAt p = some a) {f : EthernetFrame} (hf : (q,f) ∈ s.wire) :
    ∃ n d, a.toNetworkInterface.recvFrame f = .ok (n,.ok d) := by
  obtain ⟨E,Q,hst⟩ := h.stations p a hp
  by_cases hdst : f.header.dst ≠ a.ethernetAddress ∧ f.header.dst ≠ ETHERNET_BROADCAST
  · exact ⟨a.toNetworkInterface,none,if_pos hdst⟩
  · by_cases htype : f.header.type = TYPE_IPv4
    · obtain ⟨hop,d,eth,hgiven,-,payload,hser,rfl⟩ := h.addressed hf htype
      obtain ⟨d',ok,hparsed,-⟩ := (hsrc.sendable _ hgiven).parsed hser
      refine ⟨a.toNetworkInterface,some d',?_⟩
      rw [NetworkInterface.recvFrame,if_neg hdst,if_pos htype,hparsed]
    · obtain ⟨hq,htruth⟩ := h.wire _ hf
      obtain ⟨harp,m,hm,hpayload,-,-⟩ := htruth htype
      have hparsed := ARPMessage.parsed_serialized hm (ARPMessage.serialized_eq hm)
      rw [← hpayload] at hparsed
      by_cases htarget : m.targetIpAddress ≠ a.ipv4
      · refine ⟨a.toNetworkInterface,none,?_⟩
        rw [NetworkInterface.recvFrame,if_neg hdst,if_neg htype,if_pos harp,hparsed]
        exact if_pos htarget
      · obtain ⟨n,hrecv⟩ : ∃ n, a.toNetworkInterface.recvArp m = .ok (n,.ok none) := by
          obtain ⟨replies,hrecv,-,-⟩ := recvArp_eq a.toNetworkInterface m
          rw [hst.learn_ok hsrc] at hrecv
          exact ⟨_,hrecv⟩
        refine ⟨n,none,?_⟩
        rw [NetworkInterface.recvFrame,if_neg hdst,if_neg htype,if_pos harp,hparsed]
        simp only [if_neg htarget]
        exact hrecv

theorem Queued.of_waiting (h : Queued l s) {r : ρ} (ha : a ∈ (s.routers r).interfaces)
    {d : InternetDatagram} (hd : d ∈ a.datagramsIn) : ∃ x ∈ l.received, x.dgram = d := by
  have hmem : d ∈ waitingIn (s.routers r) := List.mem_flatMap.mpr ⟨a,ha,hd⟩
  have hpos : 0 < (waitingIn (s.routers r)).count d := List.count_pos_iff.mpr hmem
  have hcount := h.routers r d
  have hin : d ∈ l.receivedBy r := List.count_pos_iff.mp (by omega)
  obtain ⟨x,hx,hxd⟩ := List.mem_map.mp hin
  exact ⟨x,(List.mem_filter.mp hx).1,hxd⟩

theorem Inv.ready (h : Inv plan l s) (hq : Queued l s) (r : ρ) : Ready (s.routers r) := by
  constructor
  · intro a ha
    obtain ⟨i,hi⟩ := List.getElem?_of_mem ha
    obtain ⟨E,Q,hst⟩ := h.stations (.router r i) a hi
    exact hst.wf
  · intro a ha d hd
    obtain ⟨x,hx,rfl⟩ := hq.of_waiting ha hd
    obtain ⟨y,-,f,ok,-,-,-,-,-,hparsed⟩ := h.received x hx
    exact (IPv4Datagram.parsed_fresh hparsed).ver

theorem Inv.route_ok (h : Inv plan l s) (hq : Queued l s) (htables : Tables plan s) (r : ρ) :
    ∃ t log, (s.routers r).routeLogged = .ok ((t,.ok ()),log) := by
  obtain ⟨t,log,hroute,-⟩ := routeLogged_ok (h.ready hq r) fun a ha d hd =>
    ⟨fun route hroute => (htables r route hroute).1,fun _ route hroute => by
      rw [h.interfaces]
      exact (htables r route hroute.mem).2⟩
  exact ⟨t,log,hroute⟩

variable [DecidableEq L] {op : Op η ρ} {out : Output} {tr : Trace η ρ}

theorem onPort_routers {call : AsyncNetworkInterface → Except Fault (AsyncNetworkInterface × Output)}
    (hs : onPort s p call = .ok (s',out)) (r : ρ) :
    (s'.routers r).routerTable = (s.routers r).routerTable := by
  obtain ⟨a,b,-,-,rfl⟩ := onPort_ok hs
  exact setInterface_table s p b r

theorem step_table (hs : step plan s op = .ok (s',out)) (hop : ∀ r route, op ≠ .addRoute r route)
    (r : ρ) : (s'.routers r).routerTable = (s.routers r).routerTable := by
  cases op with
  | sendDatagram x d ip =>
    exact onPort_routers (show onPort s (.host x) (sendDatagramOn d ip) = _ from hs) r
  | maybeReceive x => exact onPort_routers (show onPort s (.host x) maybeReceiveOn = _ from hs) r
  | tick p ms => exact onPort_routers (show onPort s p (tickOn ms) = _ from hs) r
  | addRoute r' route => exact absurd rfl (hop r' route)
  | route r' =>
    obtain ⟨t,res,log,hroute,rfl,rfl⟩ := routeOn_ok hs
    exact setRouter_table (routeLogged_chosen hroute).1 r
  | maybeSend p =>
    have hs : transmit s p = .ok (s',out) := hs
    unfold transmit at hs
    split at hs
    · cases hs
    · cases hs
      exact setInterface_table s p _ r
  | deliver k p =>
    rcases deliver_ok hs with ⟨rfl,rfl⟩ | ⟨q,f,hf,hlink,hs⟩
    · rfl
    · exact onPort_routers hs r

theorem Tables.step (h : Tables plan s) (hg : Admissible plan op)
    (hs : step plan s op = .ok (s',out)) : Tables plan s' := by
  intro r' x hx
  by_cases hadd : ∃ r route, op = .addRoute r route
  · obtain ⟨r,route,rfl⟩ := hadd
    cases hs
    by_cases hr : r' = r
    · subst hr
      simp only [setRouter,Function.update_self] at hx
      rcases mem_addRoute hx with hx | rfl
      · exact h r' x hx
      · exact hg
    · simp only [setRouter,Function.update_of_ne hr] at hx
      exact h r' x hx
  · have hsame := step_table hs (fun r route hop => hadd ⟨r,route,hop⟩) r'
    rw [hsame] at hx
    exact h r' x hx

theorem Inv.step_ok (h : Inv plan l s) (hq : Queued l s) (hsrc : Sources plan l)
    (htables : Tables plan s) (hop : Admissible plan op) :
    ∃ s' out, Internet.step plan s op = .ok (s',out) ∧ out.thrown = none := by
  cases op with
  | sendDatagram x d ip =>
    obtain ⟨E,Q,hst⟩ := h.stations (.host x) _ rfl
    obtain ⟨n,hsend,-⟩ := sendDatagram_sends hst.wf hop.ver ip
    have hcall : sendDatagramOn d ip (s.hosts x) =
        .ok ({ s.hosts x with toNetworkInterface := n },{}) := by
      simp only [sendDatagramOn,hsend]
      rfl
    have hstep : onPort s (.host x) (sendDatagramOn d ip) = _ := onPort_eq rfl hcall
    exact ⟨_,_,hstep,rfl⟩
  | maybeReceive x => exact ⟨_,_,rfl,rfl⟩
  | addRoute r route => exact ⟨_,_,rfl,rfl⟩
  | route r =>
    obtain ⟨t,log,hroute⟩ := h.route_ok hq htables r
    refine ⟨s.setRouter r t,{ handled := log },?_,rfl⟩
    simp only [Internet.step,routeOn,hroute]
    rfl
  | tick p ms =>
    obtain ⟨a,ha⟩ := Option.ne_none_iff_exists'.mp ((h.exists_iff p).mp hop)
    have hstep : onPort s p (tickOn ms) = _ := onPort_eq ha rfl
    exact ⟨_,_,hstep,rfl⟩
  | maybeSend p =>
    obtain ⟨a,ha⟩ := Option.ne_none_iff_exists'.mp ((h.exists_iff p).mp hop)
    exact ⟨_,_,transmit_eq ha,rfl⟩
  | deliver k p =>
    obtain ⟨a,ha⟩ := Option.ne_none_iff_exists'.mp ((h.exists_iff p).mp hop)
    cases hf : s.wire[k]? with
    | none => exact ⟨s,{},by simp only [Internet.step,hf],rfl⟩
    | some x =>
      obtain ⟨q,f⟩ := x
      by_cases hlink : plan.link q = plan.link p
      · obtain ⟨n,d,hrecv⟩ := h.recvFrame_ok hsrc ha (List.mem_of_getElem? hf)
        exact ⟨_,_,deliver_eq hf hlink ha hrecv,rfl⟩
      · exact ⟨s,{},by simp only [Internet.step,hf,if_neg hlink],rfl⟩

theorem run_tables (hr : Run (step plan) plan.start tr s)
    (hg : ∀ e ∈ tr, Admissible plan e.op) : Tables plan s := by
  refine Run.invariant (Tables plan) (fun e => Admissible plan e.op) ?_ (fun h hg hs => h.step hg hs)
    hr hg
  intro r route hroute
  cases hroute

/-- What is known of a network in all that its runs with admissible calls reach. -/
def Live (plan : Plan η ρ L) (s : State η ρ) : Prop :=
  ∃ l, Inv plan l s ∧ Queued l s ∧ Sources plan l ∧ Tables plan s

theorem run_live (hsound : plan.Sound) (hr : Run (step plan) plan.start tr s)
    (hg : ∀ e ∈ tr, Admissible plan e.op) : Live plan s := by
  obtain ⟨hi,hq,hsrc⟩ := run_sources hsound hr fun e he => (hg e he).sendsSendable
  exact ⟨ledger tr,hi,hq,hsrc,run_tables hr hg⟩

theorem Live.step (h : Live plan s) (hsound : plan.Sound) (hop : Admissible plan op)
    (hs : Internet.step plan s op = .ok (s',out)) : Live plan s' := by
  obtain ⟨l,hi,hq,hsrc,htables⟩ := h
  exact ⟨_,hi.step hsound hs,hq.step hs,hsrc.step hi hq hop.sendsSendable hs,htables.step hop hs⟩

theorem Live.step_ok (h : Live plan s) (hop : Admissible plan op) :
    ∃ s' out, Internet.step plan s op = .ok (s',out) ∧ out.thrown = none := by
  obtain ⟨l,hi,hq,hsrc,htables⟩ := h
  exact hi.step_ok hq hsrc htables hop

/-- In every reachable state every admissible call returns, and does not throw. -/
theorem network_never_throws (hsound : plan.Sound) (hr : Run (step plan) plan.start tr s)
    (hg : ∀ e ∈ tr, Admissible plan e.op) (hop : Admissible plan op) :
    ∃ s' out, step plan s op = .ok (s',out) ∧ out.thrown = none :=
  (run_live hsound hr hg).step_ok hop

instance (plan : Plan η ρ L) (p : Port η ρ) : Decidable (plan.Exists p) :=
  match p with
  | .host _ => inferInstanceAs (Decidable True)
  | .router r i => inferInstanceAs (Decidable (i < plan.interfaces r))

instance (plan : Plan η ρ L) (op : Op η ρ) : Decidable (Admissible plan op) :=
  match op with
  | .sendDatagram _ dgram _ => inferInstanceAs (Decidable (Sendable dgram))
  | .addRoute r route => inferInstanceAs (Decidable
      (route.entry.prefixLength.toNat ≤ 32 ∧ route.interfaceNum < plan.interfaces r))
  | .tick p _ | .maybeSend p | .deliver _ p => inferInstanceAs (Decidable (plan.Exists p))
  | .maybeReceive _ | .route _ => inferInstanceAs (Decidable True)

theorem network_never_throws_crossing : ∃ tr s, Run (step twoLinks) twoLinks.start tr s ∧
    (waitingIn (s.routers ())).length = 1 ∧
      ∃ s' out, step twoLinks s (.route ()) = .ok (s',out) ∧ out.thrown = none := by
  obtain ⟨tr,s,hr,hg,hlen⟩ := Run.exists_of_exec (step twoLinks) twoLinks.start (crossing.take 8)
    (fun tr s => (∀ e ∈ tr, Admissible twoLinks e.op) ∧ (waitingIn (s.routers ())).length = 1)
    (by decide +kernel)
  have hroute : Admissible twoLinks (.route ()) := trivial
  exact ⟨tr,s,hr,hlen,network_never_throws twoLinks_sound hr hg hroute⟩

end Internet
end Minnow
