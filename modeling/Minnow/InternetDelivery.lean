import Minnow.Resolution

/-! Datagrams get through. From every reachable state the network can carry a datagram along the
routes, over every router of its way, to the host that they lead to. -/
namespace Minnow
namespace Internet

open Library EthernetHeader NetworkInterface Router RoutingTable State

variable {d d' d₀ : InternetDatagram}

theorem Travelled.trans {n m : ℕ} (h : Travelled d₀ n d) (h' : Travelled d m d') :
    Travelled d₀ (n+m) d' := by
  refine ⟨?_,?_,h'.payload.trans h.payload⟩
  · have hfirst := h.ttl
    have hsecond := h'.ttl
    omega
  · rw [h'.header,h.header]

variable {η ρ L : Type} {plan : Plan η ρ L} {s s' : State η ρ} {p q : Port η ρ}
  {a b : AsyncNetworkInterface}

theorem incoming_router (s : State η ρ) (r : ρ) (i : ℕ) :
    s.incoming (.router r i) = (s.routers r).waiting i := rfl

theorem incoming_at (ha : s.interfaceAt p = some a) : s.incoming p = a.datagramsIn := by
  rw [State.incoming,ha]

theorem incoming_congr (h : s'.interfaceAt p = s.interfaceAt p) : s'.incoming p = s.incoming p := by
  rw [State.incoming,h,State.incoming]

variable [DecidableEq ρ]

theorem setRouter_incoming (s : State η ρ) (r : ρ) (t : Router) (i : ℕ) :
    (s.setRouter r t).incoming (.router r i) = t.waiting i := by
  rw [State.incoming,setRouter_router]
  rfl

theorem setRouter_others (s : State η ρ) (r : ρ) (t : Router) (hq : q.router? ≠ some r) :
    (s.setRouter r t).interfaceAt q = s.interfaceAt q := by
  refine setRouter_interfaceAt s r t q ?_
  rintro i rfl
  exact hq rfl

variable [DecidableEq η]

theorem Live.chosen_exists (h : Live plan s) {dst : Address} {r : ρ} {j : ℕ}
    {nextHop : Option Address}
    (hscan : scan dst (consulted (s.routers r).routerTable) 0 none = .ok (some (j,nextHop))) :
    plan.Exists (.router r j) := by
  obtain ⟨l,-,-,-,htables⟩ := h
  rcases scan_longest (s.routers r).routerTable dst fun route hroute => (htables r route hroute).1
    with ⟨-,hnone⟩ | ⟨route,hlongest,-,hsome⟩
  · rw [hscan] at hnone
    cases hnone
  · rw [hscan] at hsome
    obtain ⟨rfl,-⟩ := Prod.mk.inj (Option.some.inj (Except.ok.inj hsome))
    exact (htables r route hlongest.mem).2

variable [DecidableEq L]

theorem Live.reaches (h : Live plan s) (hsound : plan.Sound)
    (hreach : GoesOn plan s s') : Live plan s' :=
  hreach.invariant (Live plan) (fun h hop hs => h.step hsound hop.admissible hs) h

theorem Live.route (h : Live plan s) (r : ρ) : ∃ t log,
    (s.routers r).routeLogged = .ok ((t,.ok ()),log) ∧
      Internet.step plan s (.route r) = .ok (s.setRouter r t,{ handled := log }) ∧
      (∀ i, t.waiting i = (s.incoming (.router r i)).tail) ∧
      log.map Handled.datagram = (List.range (plan.interfaces r)).flatMap fun i =>
        (s.incoming (.router r i)).head?.toList := by
  obtain ⟨l,hi,hq,-,htables⟩ := h
  have hlookup : ∀ d, Lookup (s.routers r) d := fun d =>
    ⟨fun route hroute => (htables r route hroute).1,fun _ route hroute => by
      rw [hi.interfaces]
      exact (htables r route hroute.mem).2⟩
  obtain ⟨t,log,hroute,hkeeps,hwait,hlog,-⟩ := routeFromLogged_ok
    (List.range (s.routers r).interfaces.length) List.nodup_range (hi.ready hq r)
    (fun i hi => List.mem_range.mp hi) fun i _ d _ => hlookup d
  have hroute : (s.routers r).routeLogged = .ok ((t,.ok ()),log) := hroute
  refine ⟨t,log,hroute,?_,?_,?_⟩
  · simp only [Internet.step,routeOn,hroute]
    rfl
  · intro i
    rw [hwait]
    split_ifs with hin
    · rfl
    · have hout : (s.routers r).interfaces[i]? = none := by
        simpa using hin
      simp [incoming_router,waiting,hout]
  · rw [hlog,hi.interfaces]
    rfl

theorem Live.drain (h : Live plan s) (hsound : plan.Sound) (r : ρ) :
    ∃ s', GoesOn plan s s' ∧
      (∀ i, s'.incoming (.router r i) = []) ∧
      ∀ q, q.router? ≠ some r → s'.incoming q = s.incoming q := by
  obtain ⟨n,hn⟩ : ∃ n, ∀ i, (s.incoming (.router r i)).length ≤ n := by
    refine ⟨(waitingIn (s.routers r)).length,?_⟩
    intro i
    rw [incoming_router,waiting]
    cases ha : (s.routers r).interfaces[i]? with
    | none => exact Nat.zero_le _
    | some a =>
      have hmem : a.datagramsIn ∈ (s.routers r).interfaces.map (·.datagramsIn) :=
        List.mem_map.mpr ⟨a,List.mem_of_getElem? ha,rfl⟩
      exact (List.sublist_flatten_of_mem hmem).length_le
  induction n generalizing s with
  | zero =>
    refine ⟨s,.refl _ _ _,?_,fun _ _ => rfl⟩
    intro i
    exact List.length_eq_zero_iff.mp (Nat.le_zero.mp (hn i))
  | succ n ih =>
    obtain ⟨t,log,-,hstep,hwait,-⟩ := h.route r
    obtain ⟨s',hreach,hempty,hothers⟩ := ih (h.step hsound
      (show Admissible plan (.route r) from trivial) hstep) (by
      intro i
      rw [setRouter_incoming,hwait,List.length_tail]
      exact Nat.sub_le_of_le_add (hn i))
    refine ⟨s',(Reaches.single hstep trivial).trans hreach,hempty,?_⟩
    intro q hq
    rw [hothers q hq,incoming_congr (setRouter_others s r t hq)]

/-- Other datagrams that wait at routers on the way would be in the way of this one. -/
theorem Live.drain_all (h : Live plan s) (hsound : plan.Sound) (rs : List ρ) :
    ∃ s', GoesOn plan s s' ∧
      ∀ r ∈ rs, ∀ i, s'.incoming (.router r i) = [] := by
  induction rs with
  | nil => exact ⟨s,.refl _ _ _,by simp⟩
  | cons r rs ih =>
    obtain ⟨t,hreach,hempty⟩ := ih
    obtain ⟨s',hreach',hempty',hothers⟩ := (h.reaches hsound hreach).drain hsound r
    refine ⟨s',hreach.trans hreach',?_⟩
    intro r' hr' i
    by_cases hr : r' = r
    · rw [hr]
      exact hempty' i
    · rw [hothers (.router r' i) fun hsame => hr (Option.some.inj hsame)]
      exact hempty r' ((List.mem_cons.mp hr').resolve_left hr) i

/-- An interface that waits long enough knows nothing, and has no request outstanding. -/
theorem Live.forgets (h : Live plan s) (ha : s.interfaceAt p = some a) : ∃ s' a',
    Internet.step plan s (.tick p (remaining a.toNetworkInterface)) = .ok (s',{}) ∧
      s'.interfaceAt p = some a' ∧
      (∀ ip, (a'.arpTable ip).arpMappingNodePtr = none ∧ (a'.arpTable ip).arpRequestPtr = none) ∧
      ∀ q, s'.incoming q = s.incoming q := by
  let n := a.toNetworkInterface.tick (remaining a.toNetworkInterface)
  have hne : s.interfaceAt p ≠ none := by simp [ha]
  have hcall : tickOn (remaining a.toNetworkInterface) a = .ok (⟨n,a.datagramsIn⟩,{}) := rfl
  refine ⟨s.setInterface p ⟨n,a.datagramsIn⟩,⟨n,a.datagramsIn⟩,onPort_eq ha hcall,?_,?_,?_⟩
  · rw [setInterface_interfaceAt hne,if_pos rfl]
  · exact fun ip => tick_forgets (h.station ha).2.2.2.1 ip
  · intro q
    by_cases hq : q = p
    · subst hq
      rw [incoming_at ha,State.incoming,setInterface_interfaceAt hne,if_pos rfl]
    · exact incoming_congr (by rw [setInterface_interfaceAt hne,if_neg hq])

theorem sends_nil {n n' : NetworkInterface} (h : Sends n [] n') : n' = n := by
  generalize hcalls : [] = calls at h
  cases h with
  | nil => rfl
  | snoc => simp at hcalls

theorem sends_one {n n' : NetworkInterface} {hop : Address} (h : Sends n [(hop,d)] n') :
    ∃ res, n.sendDatagram d hop = .ok (n',res) := by
  generalize hcalls : [(hop,d)] = calls at h
  cases h with
  | nil => cases hcalls
  | @snoc m _ calls' hop' e res hm hsend =>
    obtain ⟨rfl,hlast⟩ := List.append_inj' (show [] ++ [(hop,d)] = calls' ++ [(hop',e)] from hcalls) rfl
    obtain ⟨rfl,rfl⟩ := Prod.mk.inj (List.head_eq_of_cons_eq hlast)
    rw [sends_nil hm] at hsend
    exact ⟨res,hsend⟩

theorem flatMap_range_one {α : Type} {n i : ℕ} {f : ℕ → List α} (hi : i < n)
    (h : ∀ k, k ≠ i → f k = []) : (List.range n).flatMap f = f i := by
  obtain ⟨front,back,hsplit⟩ := List.append_of_mem (List.mem_range.mpr hi)
  have hnodup := List.nodup_range (n := n)
  rw [hsplit,List.nodup_append] at hnodup
  obtain ⟨-,hback,hdisjoint⟩ := hnodup
  rw [hsplit,List.flatMap_append,List.flatMap_cons,List.flatMap_eq_nil_iff.mpr,
    List.flatMap_eq_nil_iff.mpr,List.nil_append,List.append_nil]
  · intro k hk
    refine h k ?_
    rintro rfl
    exact (List.nodup_cons.mp hback).1 hk
  · intro k hk
    exact h k (hdisjoint k hk i List.mem_cons_self)

/-- The only datagram at a router goes to the interface that the scan chooses, which asks for its
next hop. -/
theorem Live.passes (h : Live plan s) {r : ρ} {i j : ℕ} {nextHop : Option Address}
    (hi : i < plan.interfaces r) (hone : s.incoming (.router r i) = [d])
    (hothers : ∀ k, k ≠ i → s.incoming (.router r k) = [])
    (hscan : scan d.header.dst (consulted (s.routers r).routerTable) 0 none = .ok (some (j,nextHop)))
    (httl : 2 ≤ d.header.ttl.toNat) (ha : s.interfaceAt (.router r j) = some a)
    (hclear : ∀ ip, (a.arpTable ip).arpMappingNodePtr = none ∧
      (a.arpTable ip).arpRequestPtr = none) : ∃ s' out a',
    Internet.step plan s (.route r) = .ok (s',out) ∧ s'.interfaceAt (.router r j) = some a' ∧
      Asks a'.toNetworkInterface (nextHop.getD d.header.dst) (lowerTTL d) ∧
      (∀ k, s'.incoming (.router r k) = []) ∧
      ∀ q, q.router? ≠ some r → s'.incoming q = s.incoming q := by
  obtain ⟨t,log,hroute,hstep,hwait,hlog⟩ := h.route r
  rw [flatMap_range_one hi fun k hk => by rw [hothers k hk]; rfl,hone] at hlog
  obtain ⟨x,rfl⟩ : ∃ x, log = [x] := List.length_eq_one_iff.mp (by
    rw [← List.length_map Handled.datagram,hlog]
    rfl)
  obtain rfl : x.datagram = d := List.head_eq_of_cons_eq hlog
  have hsends : x.sends = [⟨j,nextHop.getD x.datagram.header.dst,lowerTTL x.datagram⟩] := by
    rw [(routeLogged_chosen hroute).2 x List.mem_cons_self,chosen]
    simp only [hscan,if_neg ((ttl_iff x.datagram).mpr httl)]
  obtain ⟨a',ha',hsees⟩ := routeLogged_sees hroute ha
  have hcalls : callsOn j [x] = [(nextHop.getD x.datagram.header.dst,lowerTTL x.datagram)] := by
    simp [callsOn,hsends]
  rw [hcalls] at hsees
  obtain ⟨res,hsend⟩ := sends_one hsees
  refine ⟨_,_,a',hstep,by rw [setRouter_router]; exact ha',
    asks_of_sendDatagram (hclear _).1 (hclear _).2 hsend,?_,?_⟩
  · intro k
    rw [setRouter_incoming,hwait]
    by_cases hk : k = i
    · rw [hk,hone]
      rfl
    · rw [hothers k hk]
      rfl
  · exact fun q hq => incoming_congr (setRouter_others s r t hq)

/-- What an interface is given for a hop and for the destination `dst` is led to the host `y`, over
the routers of the path. -/
inductive Leads (plan : Plan η ρ L) (tables : ρ → Table) (dst : Address) (y : η) :
    Port η ρ → Address → List (Hop ρ) → Prop
  | arrive {p : Port η ρ} : p ≠ .host y → plan.link p = plan.link (.host y) →
      Leads plan tables dst y p (plan.ip (.host y)) []
  | pass {p : Port η ρ} {r : ρ} {i j : ℕ} {nextHop : Option Address} {path : List (Hop ρ)} :
      p ≠ .router r i → i < plan.interfaces r → plan.link p = plan.link (.router r i) →
      scan dst (consulted (tables r)) 0 none = .ok (some (j,nextHop)) →
      Leads plan tables dst y (.router r j) (nextHop.getD dst) path →
      Leads plan tables dst y p (plan.ip (.router r i)) (⟨r,i,j⟩::path)

variable {dst hop : Address} {x y : η} {path : List (Hop ρ)} {tables : ρ → Table}

theorem reaches_table (h : GoesOn plan s s') (r : ρ) :
    (s'.routers r).routerTable = (s.routers r).routerTable := by
  refine h.invariant (fun t => (t.routers r).routerTable = (s.routers r).routerTable) ?_ rfl
  intro t t' op out hold hop hs
  refine (step_table hs ?_ r).trans hold
  rintro r' route rfl
  exact hop

/-- By induction on the way: each router that is passed asks for the next hop in its turn. -/
theorem Leads.carries (hsound : plan.Sound) (hl : Leads plan tables dst y p hop path) :
    ∀ {s : State η ρ} {a : AsyncNetworkInterface} {d : InternetDatagram}, Live plan s →
      (∀ r, (s.routers r).routerTable = tables r) →
      (∀ x ∈ path, ∀ i, s.incoming (.router x.router i) = []) → s.interfaceAt p = some a →
      Asks a.toNetworkInterface hop d → d.header.dst = dst → path.length < d.header.ttl.toNat →
      ∃ s' d' ds, GoesOn plan s s' ∧
        s'.incoming (.host y) = ds ++ [d'] ∧ Travelled d path.length d' := by
  induction hl with
  | arrive hne hlink =>
    intro s a d hlive htables hempty ha hasks hdst httl
    obtain ⟨s',d',hreach,href,hin,-⟩ := hlive.exchange hne trivial hlink ha hasks
    exact ⟨s',d',_,hreach,hin,(Travelled.refl d).refreshed href⟩
  | @pass p r i j nextHop path hne hi hlink hscan hl ih =>
    intro s a d hlive htables hempty ha hasks hdst httl
    rw [List.length_cons] at httl
    obtain ⟨s₁,d₁,hreach₁,href,hin,hothers₁⟩ := hlive.exchange hne hi hlink ha hasks
    have hlive₁ := hlive.reaches hsound hreach₁
    have hfirst := (Travelled.refl d).refreshed href
    have httl₁ := hfirst.ttl
    have hdst₁ : d₁.header.dst = dst := by
      rw [href.header]
      exact hdst
    have hempty_r : ∀ k, s.incoming (.router r k) = [] := hempty ⟨r,i,j⟩ List.mem_cons_self
    rw [hempty_r i,List.nil_append] at hin
    -- what the datagram's arrival has taught the next interface is forgotten first
    have hscan₁ : scan dst (consulted (s₁.routers r).routerTable) 0 none = .ok (some (j,nextHop)) := by
      rw [reaches_table hreach₁,htables]
      exact hscan
    obtain ⟨b,hb⟩ := hlive₁.interface (hlive₁.chosen_exists hscan₁)
    obtain ⟨s₂,b',hstep₂,hb',hclear,hsame⟩ := hlive₁.forgets hb
    have hexists := (hlive₁.station hb).1
    have hlive₂ := hlive₁.step hsound (show Admissible plan (.tick (.router r j) _) from hexists) hstep₂
    have hreach₂ := hreach₁.trans (.single hstep₂ hexists)
    obtain ⟨s₃,out,c,hstep₃,hc,hasks₃,hempty₃,hothers₃⟩ := hlive₂.passes (d := d₁) (i := i) hi
      (by rw [hsame,hin])
      (by intro k hk; rw [hsame,hothers₁ _ (by simp [hk]),hempty_r])
      (by rw [reaches_table hreach₂,htables,hdst₁]; exact hscan) (by omega) hb' hclear
    have hreach₃ := hreach₂.trans (.single hstep₃ trivial)
    have hlow := hfirst.lowered (by omega)
    rw [hdst₁] at hasks₃
    obtain ⟨s',d',ds,hreach,hlast,htravel⟩ := ih
      (hlive₂.step hsound (show Admissible plan (.route r) from trivial) hstep₃)
      (fun r' => (reaches_table hreach₃ r').trans (htables r'))
      (by
        intro x hx k
        by_cases hr : x.router = r
        · rw [hr]
          exact hempty₃ k
        · have hother : Port.router? (.router x.router k : Port η ρ) ≠ some r :=
            fun heq => hr (Option.some.inj heq)
          have hne' : (.router x.router k : Port η ρ) ≠ .router r i := by simp [hr]
          rw [hothers₃ _ hother,hsame,hothers₁ _ hne',hempty x (List.mem_cons_of_mem _ hx)])
      hc hasks₃ hdst₁ (by have := hlow.ttl; omega)
    refine ⟨s',d',ds,hreach₃.trans hreach,hlast,?_⟩
    rw [List.length_cons,Nat.add_comm]
    exact hlow.trans htravel

theorem takes (plan : Plan η ρ L) {ds : List InternetDatagram} (h : s.incoming (.host y) = ds ++ [d]) :
    ∃ s' s'', Reaches (step plan) (fun _ op => op = .maybeReceive y) s s' ∧
      step plan s' (.maybeReceive y) = .ok (s'',{ taken := some d }) := by
  have hstep : ∀ {t : State η ρ} {e : InternetDatagram} {es : List InternetDatagram},
      t.incoming (.host y) = e::es → ∃ t', step plan t (.maybeReceive y) =
        .ok (t',{ taken := some e }) ∧ t'.incoming (.host y) = es := by
    intro t e es ht
    have hds : (t.hosts y).datagramsIn = e::es := ht
    let a : AsyncNetworkInterface := { t.hosts y with datagramsIn := es }
    have hcall : maybeReceiveOn (t.hosts y) = .ok (a,{ taken := some e }) := by
      simp only [maybeReceiveOn,AsyncNetworkInterface.maybeReceive,hds]
      rfl
    have hp : t.interfaceAt (.host y) = some (t.hosts y) := rfl
    refine ⟨t.setInterface (.host y) a,onPort_eq hp hcall,incoming_at (a := a) ?_⟩
    rw [setInterface_interfaceAt (by simp [hp]),if_pos rfl]
  induction ds generalizing s with
  | nil =>
    obtain ⟨s',hs,-⟩ := hstep h
    exact ⟨s,s',.refl _ _ _,hs⟩
  | cons e ds ih =>
    obtain ⟨t,hs,ht⟩ := hstep h
    obtain ⟨s',s'',hreach,hlast⟩ := ih ht
    exact ⟨s',s'',(Reaches.single (P := fun _ op => op = .maybeReceive y) hs rfl).trans hreach,hlast⟩

/-- From every reachable state the network can get ready for a host to send a datagram, and then go on
until the host that the routes lead to takes it, unchanged but for its time to live and checksum. -/
theorem network_delivers {tr : Trace η ρ} (hsound : plan.Sound)
    (hr : Run (step plan) plan.start tr s) (hg : ∀ e ∈ tr, Admissible plan e.op) (hd : Sendable d)
    (hl : Leads plan (fun r => (s.routers r).routerTable) d.header.dst y (.host x) hop path)
    (httl : path.length < d.header.ttl.toNat) : ∃ s₁ s₂ s₃ s₄ d',
      GoesOn plan s s₁ ∧
      step plan s₁ (.sendDatagram x d hop) = .ok (s₂,{}) ∧
      Reaches (step plan) (fun _ op => Unattended plan op ∨ op = .maybeReceive y) s₂ s₃ ∧
      step plan s₃ (.maybeReceive y) = .ok (s₄,{ taken := some d' }) ∧
      Travelled d path.length d' := by
  have hlive := run_live hsound hr hg
  obtain ⟨t,hdrain,hempty⟩ := hlive.drain_all hsound (path.map Hop.router)
  have hlive₀ := hlive.reaches hsound hdrain
  obtain ⟨s₁,a,htick,ha,hclear,hsame⟩ := hlive₀.forgets (p := .host x) rfl
  have hready := hdrain.trans (.single htick trivial)
  have hlive₁ := hlive.reaches hsound hready
  obtain ⟨n,hsend,-⟩ := sendDatagram_sends (hlive₁.station ha).2.2.2.1 hd.ver hop
  let b : AsyncNetworkInterface := { a with toNetworkInterface := n }
  let s₂ := s₁.setInterface (.host x) b
  have hne : s₁.interfaceAt (.host x) ≠ none := by simp [ha]
  have hat : ∀ q, s₂.interfaceAt q = if q = .host x then some b else s₁.interfaceAt q :=
    setInterface_interfaceAt hne b
  have hstep : step plan s₁ (.sendDatagram x d hop) = .ok (s₂,{}) := by
    have hcall : sendDatagramOn d hop a = .ok (b,{}) := by
      simp only [sendDatagramOn,hsend]
      rfl
    exact onPort_eq ha hcall
  have htables : ∀ r, (s₂.routers r).routerTable = (s.routers r).routerTable := by
    intro r
    rw [step_table hstep (by simp) r,reaches_table hready r]
  have hqueues : ∀ z ∈ path, ∀ i, s₂.incoming (.router z.router i) = [] := by
    intro z hz i
    rw [incoming_congr (s := s₁) (by rw [hat,if_neg (by simp)]),hsame]
    exact hempty z.router (List.mem_map.mpr ⟨z,hz,rfl⟩) i
  obtain ⟨s',d',ds,hreach,hlast,htravel⟩ := hl.carries hsound
    (hlive₁.step hsound (show Admissible plan (.sendDatagram x d hop) from hd) hstep) htables hqueues
    (by rw [hat,if_pos rfl]) (asks_of_sendDatagram (hclear hop).1 (hclear hop).2 hsend) rfl httl
  obtain ⟨s₃,s₄,htake,htaken⟩ := takes plan hlast
  exact ⟨s₁,s₂,s₃,s₄,d',hready,hstep,(hreach.mono fun _ _ => Or.inl).trans
      (htake.mono fun _ _ => Or.inr),
    htaken,htravel⟩

theorem network_delivers_again : ∃ tr s, Run (step twoLinks) twoLinks.start tr s ∧ tr.length = 16 ∧
    ∃ s₁ s₂ s₃ s₄ d', GoesOn twoLinks s s₁ ∧
      step twoLinks s₁ (.sendDatagram false ⟨{ dst := 2, ttl := 2 },[[8],[9]]⟩ 16) = .ok (s₂,{}) ∧
      Reaches (step twoLinks) (fun _ op => Unattended twoLinks op ∨ op = .maybeReceive true) s₂ s₃ ∧
      step twoLinks s₃ (.maybeReceive true) = .ok (s₄,{ taken := some d' }) ∧
      Travelled ⟨{ dst := 2, ttl := 2 },[[8],[9]]⟩ 1 d' := by
  obtain ⟨tr,s,hr,hg,hscan,hlen⟩ := Run.exists_of_exec (step twoLinks) twoLinks.start crossing
    (fun tr s => (∀ e ∈ tr, Admissible twoLinks e.op) ∧
      scan 2 (consulted (s.routers ()).routerTable) 0 none = .ok (some (1,none)) ∧ tr.length = 16)
    (by decide +kernel)
  have hleads : Leads twoLinks (fun r => (s.routers r).routerTable) 2 true (.host false) 16
      [⟨(),0,1⟩] :=
    .pass (p := .host false) (r := ()) (i := 0) (by simp) (by decide) rfl hscan
      (.arrive (p := .router () 1) (by simp) rfl)
  exact ⟨tr,s,hr,hlen,network_delivers (d := ⟨{ dst := 2, ttl := 2 },[[8],[9]]⟩) twoLinks_sound hr hg
    (by decide) hleads (by decide)⟩

end Internet
end Minnow
