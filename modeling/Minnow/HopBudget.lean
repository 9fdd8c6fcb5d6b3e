import Minnow.Library.Weights
import Minnow.InternetProgress

/-! The time to live as a budget: however the routes lead, the datagrams that hosts give pay for
every time that a router sends one on. -/
namespace Minnow
namespace Internet

open Library EthernetHeader NetworkInterface InterfaceRuns

variable {η ρ L : Type}

def isHost : Port η ρ → Bool
  | .host _ => true
  | .router _ _ => false

def ttl (d : InternetDatagram) : ℕ := d.header.ttl.toNat

namespace Ledger

def hostGiven (l : Ledger η ρ) : List InternetDatagram :=
  (l.given.filter fun y => isHost y.port).map Sending.dgram

def routerGiven (l : Ledger η ρ) : List InternetDatagram :=
  (l.given.filter fun y => !isHost y.port).map Sending.dgram

def hostReceived (l : Ledger η ρ) : List InternetDatagram :=
  (l.received.filter fun x => isHost x.port).map Receipt.dgram

end Ledger

def deliveredBy : Op η ρ → List (ℕ × Port η ρ)
  | .deliver k p => [(k,p)]
  | _ => []

def deliveries (tr : Trace η ρ) : List (ℕ × Port η ρ) := tr.flatMap fun e => deliveredBy e.op

/-- What a weight of the datagrams has to satisfy for `c` to be paid when one is sent on. -/
def Pays (w : ℕ → ℕ) (c : ℕ) : Prop := ∀ t, 1 ≤ t → w t + c ≤ w (t+1)

def frameWeight (w : ℕ → ℕ) (f : EthernetFrame) : ℕ :=
  match IPv4Datagram.parsed f.payload with
  | .ok (d,_) => w (ttl d)
  | .error _ => 0

variable {plan : Plan η ρ L} {w : ℕ → ℕ} {c : ℕ} {l : Ledger η ρ}

theorem Refreshed.ttl_eq {d d' : InternetDatagram} (h : Refreshed d d') : ttl d' = ttl d := by
  rw [ttl,h.header]
  rfl

/-- One frame is for one interface of its link. -/
theorem Came.port_eq (hsound : plan.Sound) {given : List (Sending η ρ)}
    {wire : List (Port η ρ × EthernetFrame)} {x x' : Receipt η ρ} (hx : Came plan given wire x)
    (hx' : Came plan given wire x') (hframe : x.frame = x'.frame) : x.port = x'.port := by
  obtain ⟨y,-,f,ok,hf,hp,hlink,-,⟨payload,-,rfl⟩,-⟩ := hx
  obtain ⟨y',-,f',ok',hf',hp',hlink',-,⟨payload',-,rfl⟩,-⟩ := hx'
  rw [← hframe,hf] at hf'
  obtain ⟨hport,hheader⟩ := Prod.mk.inj (Option.some.inj hf')
  refine hsound.eth _ _ hp hp' ?_ (congrArg (fun f => f.header.dst) hheader)
  rw [← hlink,hport,hlink']

/-- What routers have sent on is logged, and its time to live was lowered. -/
structure Logged (l : Ledger η ρ) : Prop where
  sends : ∀ y ∈ l.handled, y.2.sends = [] ∨ ∃ i hop, 2 ≤ ttl y.2.datagram ∧
    y.2.sends = [⟨i,hop,Router.lowerTTL y.2.datagram⟩]
  given : l.routerGiven = l.handled.flatMap fun y => y.2.sends.map Router.Send.datagram

theorem ttl_lowerTTL {d : InternetDatagram} (h : 2 ≤ ttl d) : ttl (Router.lowerTTL d) + 1 = ttl d :=
  (Router.lowered h).ttl

/-- A router pays for what it sends on out of what it takes. -/
theorem Logged.pays (h : Logged l) (hw : Pays w c) :
    (l.routerGiven.map fun d => w (ttl d)).sum + c*l.routerGiven.length ≤
      (l.handled.map fun y => w (ttl y.2.datagram)).sum := by
  have hsends := h.sends
  rw [h.given]
  generalize l.handled = log at hsends
  induction log with
  | nil => simp
  | cons y log ih =>
    have hrest := ih fun z hz => hsends z (List.mem_cons_of_mem _ hz)
    rcases hsends y List.mem_cons_self with hnone | ⟨i,hop,httl,hone⟩
    · simp only [List.flatMap_cons,hnone,List.map_nil,List.nil_append,List.map_cons,List.sum_cons]
      omega
    · have hlow := ttl_lowerTTL httl
      have hpay := hw (ttl (Router.lowerTTL y.2.datagram)) (by omega)
      rw [hlow] at hpay
      simp only [List.flatMap_cons,hone,List.map_cons,List.map_nil,List.singleton_append,
        List.sum_cons,List.length_cons,Nat.mul_succ]
      omega

theorem routerGiven_handle (l : Ledger η ρ) (r : ρ) (log : List Router.Handled) :
    (l.handle r log).routerGiven = l.routerGiven ++
      log.flatMap fun x => x.sends.map Router.Send.datagram := by
  have hforwards : ((Ledger.forwards r log : List (Sending η ρ)).filter fun y => !isHost y.port) =
      Ledger.forwards r log := by
    rw [List.filter_eq_self]
    intro y hy
    obtain ⟨x,-,s,-,rfl⟩ := mem_forwards hy
    rfl
  simp only [Ledger.routerGiven,Ledger.handle,List.filter_append,List.map_append,hforwards]
  simp [Ledger.forwards,List.map_flatMap,Function.comp_def]

variable [DecidableEq ρ] [DecidableEq η] {s s' : State η ρ} {p q : Port η ρ}

theorem Inv.sent_le (h : Inv plan l s) (hsrc : Sources plan l) (w : ℕ → ℕ)
    (p : Port η ρ) : ((ipv4Frames (s.sentBy p)).map (frameWeight w)).sum ≤
      ((l.givenAt p).map fun x => w (ttl x.2)).sum := by
  by_cases hp : s.interfaceAt p = none
  · have hnone : s.sentBy p = [] := by
      rw [List.eq_nil_iff_forall_not_mem]
      intro f hf
      exact (h.exists_iff p).mp (h.wire _ (mem_sentBy.mp hf)).1 hp
    simp [hnone,ipv4Frames]
  · obtain ⟨a,ha⟩ := Option.ne_none_iff_exists'.mp hp
    obtain ⟨E,Q,hst⟩ := h.stations p a ha
    have hE : ∀ x, E.count x ≤ (l.givenAt p).count x := by
      rintro ⟨ip,d⟩
      have hcount := hst.count ip d
      omega
    have hweights : (ipv4Frames (s.sentBy p)).map (frameWeight w) =
        E.map fun x => w (ttl x.2) := by
      have hsub : ∀ x ∈ E, x ∈ l.givenAt p := by
        intro x hx
        exact List.count_pos_iff.mp (lt_of_lt_of_le (List.count_pos_iff.mpr hx) (hE x))
      have hsent := hst.sent
      generalize ipv4Frames (s.sentBy p) = fs at hsent
      clear hE hst
      induction hsent with
      | nil => rfl
      | @cons x f E fs hx _ ih =>
        obtain ⟨eth,-,payload,hser,rfl⟩ := hx
        have hd := hsrc.sendable _ (mem_givenAt.mp (hsub x List.mem_cons_self))
        obtain ⟨d',ok,hparsed,href⟩ := hd.parsed hser
        have hweight : frameWeight w ⟨⟨eth,plan.eth p,TYPE_IPv4⟩,payload⟩ = w (ttl x.2) := by
          simp only [frameWeight,hparsed,href.ttl_eq]
        rw [List.map_cons,List.map_cons,hweight,ih fun y hy => hsub y (List.mem_cons_of_mem _ hy)]
    rw [hweights]
    exact sum_le_of_count_le _ hE

def wireWeight (w : ℕ → ℕ) (x : Port η ρ × EthernetFrame) : ℕ :=
  if x.2.header.type = TYPE_IPv4 then frameWeight w x.2 else 0

theorem Inv.wire_le (h : Inv plan l s) (hsrc : Sources plan l) (w : ℕ → ℕ) :
    (s.wire.map (wireWeight w)).sum ≤ (l.given.map fun y => w (ttl y.dgram)).sum := by
  refine sum_le_of_groups Prod.fst Sending.port _ _ fun p => ?_
  have hwire : ((s.wire.filter fun x => x.1 = p).map (wireWeight w)).sum =
      ((ipv4Frames (s.sentBy p)).map (frameWeight w)).sum := by
    unfold State.sentBy ipv4Frames
    induction s.wire.filter fun x => x.1 = p with
    | nil => rfl
    | cons x xs ih =>
      rw [List.map_cons,List.sum_cons,ih,List.map_cons,List.filter_cons]
      by_cases htype : x.2.header.type = TYPE_IPv4
      · simp [wireWeight,htype]
      · simp [wireWeight,htype]
  have hgiven : ((l.givenAt p).map fun x => w (ttl x.2)) =
      (l.given.filter fun y => y.port = p).map fun y => w (ttl y.dgram) := by
    rw [Ledger.givenAt,List.map_map]
    rfl
  rw [hwire,← hgiven]
  exact h.sent_le hsrc w p

theorem Inv.received_le (h : Inv plan l s) (hsound : plan.Sound)
    (hnodup : (l.received.map fun x => (x.frame,x.port)).Nodup) (w : ℕ → ℕ) :
    (l.received.map fun x => w (ttl x.dgram)).sum ≤ (s.wire.map (wireWeight w)).sum := by
  refine sum_le_of_draws Receipt.frame _ _ ?_ ?_
  · refine List.Nodup.map_on ?_ (List.Nodup.of_map _ hnodup)
    intro x hx x' hx' hframe
    refine List.inj_on_of_nodup_map hnodup hx hx' ?_
    rw [hframe,(h.received x hx).port_eq hsound (h.received x' hx') hframe]
  · intro x hx
    obtain ⟨y,-,f,ok,hf,-,-,-,⟨payload,-,rfl⟩,hparsed⟩ := h.received x hx
    refine ⟨_,hf,le_of_eq ?_⟩
    simp only [wireWeight,if_true,frameWeight,hparsed]

theorem Queued.handled_le (h : Queued l s) (w : ℕ → ℕ) :
    (l.handled.map fun y => w (ttl y.2.datagram)).sum +
      (l.hostReceived.map fun d => w (ttl d)).sum ≤
        (l.received.map fun x => w (ttl x.dgram)).sum := by
  have hhost : (l.hostReceived.map fun d => w (ttl d)) =
      (l.received.filter fun x => isHost x.port).map fun x => w (ttl x.dgram) := by
    rw [Ledger.hostReceived,List.map_map]
    rfl
  have hrouters : (l.handled.map fun y => w (ttl y.2.datagram)).sum ≤
      ((l.received.filter fun x => !isHost x.port).map fun x => w (ttl x.dgram)).sum := by
    refine sum_le_of_groups (fun y => some y.1) (fun x => x.port.router?) _ _ fun k => ?_
    cases k with
    | none => simp
    | some r =>
      have hhandled : ((l.handled.filter fun y => some y.1 = some r).map
          fun y => w (ttl y.2.datagram)) = (l.handledBy r).map fun d => w (ttl d) := by
        simp [Ledger.handledBy,Function.comp_def]
      have hreceived : (((l.received.filter fun x => !isHost x.port).filter
          fun x => x.port.router? = some r).map fun x => w (ttl x.dgram)) =
          (l.receivedBy r).map fun d => w (ttl d) := by
        rw [Ledger.receivedBy,List.map_map,List.filter_filter]
        refine congrArg _ (List.filter_congr fun x _ => ?_)
        cases hport : x.port with
        | host y => simp [Port.router?]
        | router r' i => simp [isHost]
      rw [hhandled,hreceived]
      refine sum_le_of_count_le _ fun d => ?_
      have hcount := h.routers r d
      omega
  have hsplit := sum_filter_add (fun x : Receipt η ρ => isHost x.port)
    (fun x => w (ttl x.dgram)) l.received
  rw [hhost]
  omega

variable [DecidableEq L] {tr : Trace η ρ} {op : Op η ρ} {out : Output}

theorem Logged.step (h : Logged l) (hs : step plan s op = .ok (s',out)) :
    Logged (l.record ⟨s,op,out⟩) := by
  cases op with
  | sendDatagram x d hop =>
    refine ⟨h.sends,?_⟩
    refine Eq.trans ?_ h.given
    simp [Ledger.record,Ledger.routerGiven,isHost]
  | route r =>
    obtain ⟨t,res,log,hroute,rfl,rfl⟩ := routeOn_ok hs
    constructor
    · intro y hy
      rcases List.mem_append.mp hy with hy | hy
      · exact h.sends y hy
      · obtain ⟨x,hx,rfl⟩ := List.mem_map.mp hy
        rcases Router.routeLogged_sends hroute x hx with hnone | ⟨j,hop,-,httl,hone⟩
        · exact Or.inl hnone
        · exact Or.inr ⟨j,hop,httl,hone⟩
    · change (l.handle r log).routerGiven = _
      rw [routerGiven_handle,h.given]
      simp [Ledger.record,Ledger.handle,List.flatMap_map]
  | maybeReceive | addRoute | tick | maybeSend | deliver => exact ⟨h.sends,h.given⟩

theorem received_deliveries (hr : Run (step plan) plan.start tr s) :
    ((ledger tr).received.map fun x => (x.frame,x.port)).Sublist (deliveries tr) := by
  refine Run.history_invariant (fun tr _ =>
    ((ledger tr).received.map fun x => (x.frame,x.port)).Sublist (deliveries tr)) (fun _ => True)
    (List.Sublist.refl _) ?_ hr fun _ _ => trivial
  intro tr s s' op out h _ _
  have hnew : deliveries (tr ++ [⟨s,op,out⟩]) = deliveries tr ++ deliveredBy op := by
    simp [deliveries]
  rw [hnew,ledger_snoc]
  cases op with
  | deliver k p =>
    have hrec : (((ledger tr).record ⟨s,.deliver k p,out⟩).received.map
        fun x => (x.frame,x.port)) = ((ledger tr).received.map fun x => (x.frame,x.port)) ++
          out.received.toList.map fun _ => (k,p) := by
      simp [Ledger.record,Function.comp_def]
    rw [hrec]
    refine h.append ?_
    cases out.received with
    | none => exact List.nil_sublist _
    | some d => exact List.Sublist.refl _
  | _ => exact h.trans (List.sublist_append_left _ _)

/-- For every weight of the datagrams that pays `c` when one is sent on. -/
theorem weights_le (hsound : plan.Sound) (hr : Run (step plan) plan.start tr s)
    (hg : ∀ e ∈ tr, SendsSendable e.op) (hnodup : (deliveries tr).Nodup) (hw : Pays w c) :
    c*(ledger tr).routerGiven.length + ((ledger tr).hostReceived.map fun d => w (ttl d)).sum ≤
      ((ledger tr).hostGiven.map fun d => w (ttl d)).sum := by
  obtain ⟨hi,hq,hsrc⟩ := run_sources hsound hr hg
  have hlogged : Logged (ledger tr) := by
    refine Run.history_invariant (fun tr _ => Logged (ledger tr)) (fun _ => True)
      ⟨by simp [ledger],rfl⟩ ?_ hr fun _ _ => trivial
    intro tr s s' op out h _ hs
    rw [ledger_snoc]
    exact h.step hs
  have hpays := hlogged.pays hw
  have htaken := hq.handled_le w
  have hreceived := hi.received_le hsound ((received_deliveries hr).nodup hnodup) w
  have hwire := hi.wire_le hsrc w
  have hsplit := sum_filter_add (fun y : Sending η ρ => isHost y.port) (fun y => w (ttl y.dgram))
    (ledger tr).given
  have hhosts : ((ledger tr).hostGiven.map fun d => w (ttl d)) =
      ((ledger tr).given.filter fun y => isHost y.port).map fun y => w (ttl y.dgram) := by
    rw [Ledger.hostGiven,List.map_map]
    rfl
  have hrouters : ((ledger tr).routerGiven.map fun d => w (ttl d)) =
      ((ledger tr).given.filter fun y => !isHost y.port).map fun y => w (ttl y.dgram) := by
    rw [Ledger.routerGiven,List.map_map]
    rfl
  rw [hhosts]
  rw [hrouters] at hpays
  omega

/-- When no frame reaches an interface twice, routers send datagrams on no more often than the times
to live of the hosts' datagrams allow, however the routes lead; and hosts receive no more datagrams
than hosts have given. -/
theorem hop_budget (hsound : plan.Sound) (hr : Run (step plan) plan.start tr s)
    (hg : ∀ e ∈ tr, SendsSendable e.op) (hnodup : (deliveries tr).Nodup) :
    (ledger tr).routerGiven.length + ((ledger tr).hostReceived.map ttl).sum ≤
        ((ledger tr).hostGiven.map ttl).sum ∧
      (ledger tr).hostReceived.length ≤ (ledger tr).hostGiven.length := by
  have hhops := weights_le (w := fun t => t) (c := 1) hsound hr hg hnodup fun t _ => le_rfl
  have hone := weights_le (w := fun _ => 1) (c := 0) hsound hr hg hnodup fun t _ => le_rfl
  simp only [List.map_const',List.sum_replicate,smul_eq_mul,mul_one,zero_mul,zero_add] at hone
  rw [one_mul] at hhops
  exact ⟨hhops,hone⟩

theorem hop_budget_crossing : ∃ tr s, Run (step twoLinks) twoLinks.start tr s ∧
    (ledger tr).routerGiven.length = 1 ∧
      (ledger tr).routerGiven.length + ((ledger tr).hostReceived.map ttl).sum ≤
        ((ledger tr).hostGiven.map ttl).sum ∧
      (ledger tr).hostReceived.length ≤ (ledger tr).hostGiven.length := by
  obtain ⟨tr,s,hr,hg,hnodup,hlen⟩ := Run.exists_of_exec (step twoLinks) twoLinks.start crossing
    (fun tr _ => (∀ e ∈ tr, SendsSendable e.op) ∧ (deliveries tr).Nodup ∧
      (ledger tr).routerGiven.length = 1) (by decide +kernel)
  exact ⟨tr,s,hr,hlen,hop_budget twoLinks_sound hr hg hnodup⟩

end Internet
end Minnow
