import Minnow.InternetRuns

/-! Between the wire and those who take the datagrams: what came in at a host is taken in its order,
or still waits; what came in at a router has been handled, or waits at one of its interfaces. -/
namespace Minnow
namespace Internet

variable {η ρ L : Type} [DecidableEq ρ]

theorem count_flatMap_set {α β : Type} [BEq β] (f : α → List β) {xs : List α} {i : ℕ} {a : α}
    (h : xs[i]? = some a) (b : α) (y : β) : ((xs.set i b).flatMap f).count y + (f a).count y =
      (xs.flatMap f).count y + (f b).count y := by
  induction xs generalizing i with
  | nil => simp at h
  | cons x xs ih =>
    cases i with
    | zero =>
      obtain rfl : x = a := by simpa using h
      simp only [List.set_cons_zero,List.flatMap_cons,List.count_append]
      omega
    | succ i =>
      have hrest := ih (i := i) (by simpa using h)
      simp only [List.set_cons_succ,List.flatMap_cons,List.count_append]
      omega

def waitingIn (r : Router) : List InternetDatagram := r.interfaces.flatMap (·.datagramsIn)

theorem count_waitingIn {r : Router} {i : ℕ} {a : AsyncNetworkInterface}
    (h : r.interfaces[i]? = some a) (b : AsyncNetworkInterface) (d : InternetDatagram) :
    (waitingIn { r with interfaces := r.interfaces.set i b }).count d + a.datagramsIn.count d =
      (waitingIn r).count d + b.datagramsIn.count d :=
  count_flatMap_set _ h b d

variable [DecidableEq η]

/-- What came in is taken in order, or waits; a router takes it in some order. -/
structure Queued (l : Ledger η ρ) (s : State η ρ) : Prop where
  hosts : ∀ x, l.receivedAt (.host x) = l.takenBy x ++ (s.hosts x).datagramsIn
  routers : ∀ r d, (l.receivedBy r).count d =
    (l.handledBy r).count d + (waitingIn (s.routers r)).count d

open State

variable {l l' : Ledger η ρ} {s : State η ρ} {p : Port η ρ} {a b : AsyncNetworkInterface}

theorem setInterface_hosts (s : State η ρ) (p : Port η ρ) (b : AsyncNetworkInterface) (x : η) :
    (s.setInterface p b).hosts x = if p = .host x then b else s.hosts x := by
  cases p with
  | host y =>
    by_cases hx : x = y
    · simp [setInterface,hx]
    · simp [setInterface,hx,Ne.symm hx]
  | router r i => simp [setInterface,setRouter]

theorem setInterface_waiting (hp : s.interfaceAt p = some a) (b : AsyncNetworkInterface) (r : ρ)
    (d : InternetDatagram) :
    (waitingIn ((s.setInterface p b).routers r)).count d +
        (if p.router? = some r then a.datagramsIn.count d else 0) =
      (waitingIn (s.routers r)).count d +
        (if p.router? = some r then b.datagramsIn.count d else 0) := by
  cases p with
  | host x => simp [setInterface,Port.router?]
  | router r' i =>
    by_cases hr : r' = r
    · subst hr
      simpa [setInterface,setRouter,Port.router?] using count_waitingIn hp b d
    · simp [setInterface,setRouter,Port.router?,hr,Function.update_of_ne (Ne.symm hr)]

theorem start_queued (plan : Plan η ρ L) : Queued {} plan.start where
  hosts := fun _ => rfl
  routers := by
    intro r d
    have hnone : waitingIn (plan.start.routers r) = [] := by
      rw [waitingIn,List.flatMap_eq_nil_iff]
      intro a ha
      obtain ⟨i,-,rfl⟩ := List.mem_map.mp ha
      rfl
    rw [hnone]
    rfl

theorem Queued.receive (h : Queued l s) (hp : s.interfaceAt p = some a) {k : ℕ}
    (ds : List InternetDatagram) (hb : b.datagramsIn = a.datagramsIn ++ ds)
    (hrec : l'.received = l.received ++ ds.map fun d => ⟨p,k,d⟩) (hhandled : l'.handled = l.handled)
    (htaken : l'.taken = l.taken) : Queued l' (s.setInterface p b) := by
  constructor
  · intro x
    have hold := h.hosts x
    have hnew : l'.receivedAt (.host x) =
        l.receivedAt (.host x) ++ if p = .host x then ds else [] := by
      rw [Ledger.receivedAt,hrec]
      by_cases hx : p = .host x
      · simp [Ledger.receivedAt,hx,List.filter_map,Function.comp_def]
      · simp [Ledger.receivedAt,hx,List.filter_map,Function.comp_def]
    have hsame : l'.takenBy x = l.takenBy x := by rw [Ledger.takenBy,htaken,Ledger.takenBy]
    rw [hnew,hold,hsame,setInterface_hosts]
    by_cases hx : p = .host x
    · subst hx
      obtain rfl := Option.some.inj hp
      simp [hb]
    · simp [hx]
  · intro r d
    have hold := h.routers r d
    have hset := setInterface_waiting hp b r d
    have hnew : l'.receivedBy r =
        l.receivedBy r ++ if p.router? = some r then ds else [] := by
      rw [Ledger.receivedBy,hrec]
      by_cases hr : p.router? = some r
      · simp [Ledger.receivedBy,hr,List.filter_map,Function.comp_def]
      · simp [Ledger.receivedBy,hr,List.filter_map,Function.comp_def]
    have hsame : l'.handledBy r = l.handledBy r := by rw [Ledger.handledBy,hhandled,Ledger.handledBy]
    rw [hnew,hsame,List.count_append,hold]
    rw [hb,List.count_append] at hset
    split_ifs at hset ⊢ with hr
    · omega
    · simp only [List.count_nil]
      omega

theorem Queued.quiet (h : Queued l s) (hp : s.interfaceAt p = some a)
    (hb : b.datagramsIn = a.datagramsIn) (hrec : l'.received = l.received)
    (hhandled : l'.handled = l.handled) (htaken : l'.taken = l.taken) :
    Queued l' (s.setInterface p b) :=
  h.receive hp (k := 0) [] (by simpa using hb) (by simpa using hrec) hhandled htaken

theorem Queued.maybeReceive (h : Queued l s) (x : η) :
    Queued { l with taken := l.taken ++ (s.hosts x).maybeReceive.2.toList.map fun d => (x,d) }
      (s.setInterface (.host x) (s.hosts x).maybeReceive.1) := by
  have hqueue : (s.hosts x).datagramsIn = (s.hosts x).maybeReceive.2.toList ++
      (s.hosts x).maybeReceive.1.datagramsIn := by
    unfold AsyncNetworkInterface.maybeReceive
    cases hd : (s.hosts x).datagramsIn with
    | nil => simp [hd]
    | cons d ds => simp
  constructor
  · intro y
    rw [setInterface_hosts]
    have hold := h.hosts y
    change l.receivedAt (.host y) = _
    by_cases hy : x = y
    · subst hy
      rw [hold,hqueue,if_pos rfl]
      simp [Ledger.takenBy,List.filter_map,Function.comp_def]
    · rw [hold,if_neg (by simpa using hy)]
      simp [Ledger.takenBy,List.filter_map,Function.comp_def,hy]
  · exact h.routers

theorem Queued.take (h : Queued l s) {r : ρ} {i : ℕ} (hp : s.interfaceAt (.router r i) = some a)
    {x : Router.Handled} {ds : List InternetDatagram} (ha : a.datagramsIn = x.datagram::ds)
    (hb : b.datagramsIn = ds) (hrec : l'.received = l.received)
    (hhandled : l'.handled = l.handled ++ [(r,x)]) (htaken : l'.taken = l.taken) :
    Queued l' (s.setInterface (.router r i) b) := by
  constructor
  · intro y
    rw [setInterface_hosts,if_neg (by simp),Ledger.receivedAt,hrec,Ledger.takenBy,htaken]
    exact h.hosts y
  · intro r' d
    have hold := h.routers r' d
    have hset := setInterface_waiting hp b r' d
    have hsame : l'.receivedBy r' = l.receivedBy r' := by
      rw [Ledger.receivedBy,hrec,Ledger.receivedBy]
    have hnew : l'.handledBy r' = l.handledBy r' ++ if r = r' then [x.datagram] else [] := by
      rw [Ledger.handledBy,hhandled]
      by_cases hr : r = r'
      · simp [Ledger.handledBy,hr]
      · simp [Ledger.handledBy,hr]
    rw [hsame,hnew,List.count_append,hold]
    rw [ha,hb,← List.singleton_append,List.count_append] at hset
    simp only [Port.router?,Option.some.injEq] at hset
    split_ifs at hset ⊢ with hr
    · omega
    · simp only [List.count_nil]
      omega

theorem Queued.route (h : Queued l s) {r : ρ} {t : Router} {res : Except RuntimeError Unit}
    {log : List Router.Handled} (hs : (s.routers r).routeLogged = .ok ((t,res),log)) :
    Queued (l.handle r log) (s.setRouter r t) := by
  refine Router.routeLogged_induction (fun log t => Queued (l.handle r log) (s.setRouter r t))
    ?_ ?_ hs
  · rw [setRouter_self]
    simpa [Ledger.handle,Ledger.forwards] using h
  · intro log t t' i a d ds res sends hI ha hds hforward
    have hat : (s.setRouter r t).interfaceAt (.router r i) = some a := by rw [setRouter_router,ha]
    have htake : Queued (l.handle r (log ++ [⟨d,sends⟩]))
        ((s.setRouter r t).setInterface (.router r i) { a with datagramsIn := ds }) :=
      hI.take hat (x := ⟨d,sends⟩) hds rfl rfl (by simp [Ledger.handle]) rfl
    rw [setRouter_setInterface] at htake
    rcases Router.forwardLogged_cases hforward with ⟨rfl,rfl⟩ | ⟨j,hop,c,n,-,hc,hsend,rfl,rfl⟩
    · exact htake
    · have hsent := htake.quiet (p := .router r j) (a := c)
        (b := { c with toNetworkInterface := n }) (by rw [setRouter_router]; exact hc) rfl rfl rfl rfl
      rwa [setRouter_setInterface] at hsent

/-- Whatever a router takes came in at one of its interfaces. -/
theorem Queued.of_handled (h : Queued l s) {r : ρ} {x : Router.Handled}
    (hx : (r,x) ∈ l.handled) : ∃ i k, ⟨.router r i,k,x.datagram⟩ ∈ l.received := by
  have hmem : x.datagram ∈ l.handledBy r :=
    List.mem_map.mpr ⟨(r,x),List.mem_filter.mpr ⟨hx,by simp⟩,rfl⟩
  have hpos : 0 < (l.handledBy r).count x.datagram := List.count_pos_iff.mpr hmem
  have hcount := h.routers r x.datagram
  have hin : x.datagram ∈ l.receivedBy r := List.count_pos_iff.mp (by omega)
  obtain ⟨y,hy,hd⟩ := List.mem_map.mp hin
  obtain ⟨hin',hport⟩ := List.mem_filter.mp hy
  obtain ⟨port,k,d⟩ := y
  cases port with
  | host x => simp [Port.router?] at hport
  | router r' i =>
    obtain rfl : r' = r := by simpa [Port.router?] using hport
    obtain rfl : d = x.datagram := hd
    exact ⟨i,k,hin'⟩

variable [DecidableEq L] {plan : Plan η ρ L} {s' : State η ρ} {op : Op η ρ} {out : Output}

theorem Queued.step (h : Queued l s) (hs : step plan s op = .ok (s',out)) :
    Queued (l.record ⟨s,op,out⟩) s' := by
  cases op with
  | sendDatagram x d hop =>
    have hs : onPort s (.host x) (sendDatagramOn d hop) = .ok (s',out) := hs
    obtain ⟨a,b,ha,hcall,rfl⟩ := onPort_ok hs
    obtain ⟨n,r,hsend,rfl,rfl⟩ := sendDatagramOn_ok hcall
    exact h.quiet ha rfl rfl rfl rfl
  | maybeReceive x =>
    have hs : onPort s (.host x) maybeReceiveOn = .ok (s',out) := hs
    obtain ⟨a,b,ha,hcall,rfl⟩ := onPort_ok hs
    obtain rfl := Option.some.inj ha
    cases hcall
    exact h.maybeReceive x
  | addRoute r route =>
    cases hs
    refine ⟨h.hosts,fun r' d => (h.routers r' d).trans ?_⟩
    by_cases hr : r' = r
    · subst hr
      simp [Ledger.record,setRouter,Router.addRoute,waitingIn]
    · simp [Ledger.record,setRouter,Function.update_of_ne hr]
  | route r =>
    obtain ⟨t,res,log,hroute,rfl,rfl⟩ := routeOn_ok hs
    exact h.route hroute
  | tick p ms =>
    have hs : onPort s p (tickOn ms) = .ok (s',out) := hs
    obtain ⟨a,b,ha,hcall,rfl⟩ := onPort_ok hs
    cases hcall
    exact h.quiet ha rfl rfl rfl rfl
  | maybeSend p =>
    have hs : transmit s p = .ok (s',out) := hs
    unfold transmit at hs
    split at hs
    · cases hs
    · rename_i a ha
      cases hs
      have hquiet : Queued l (s.setInterface p
          { a with toNetworkInterface := a.toNetworkInterface.maybeSend.1 }) :=
        h.quiet ha rfl rfl rfl rfl
      exact ⟨hquiet.hosts,hquiet.routers⟩
  | deliver k p =>
    rcases deliver_ok hs with ⟨rfl,rfl⟩ | ⟨q,f,hf,hlink,hs⟩
    · rwa [Ledger.record_deliver_none]
    · obtain ⟨a,b,ha,hcall,rfl⟩ := onPort_ok hs
      obtain ⟨n,r,hrecv,-,-,-,rfl,-⟩ := recvFrameOn_ok hcall
      exact h.receive ha _ rfl rfl rfl rfl

end Internet
end Minnow
