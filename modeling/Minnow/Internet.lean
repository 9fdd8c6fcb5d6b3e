import Minnow.Forwarding

/-! Hosts and routers on links. A frame that an interface has sent stays on its link: it may reach
any interface there, at any time, more than once, or never. -/
namespace Minnow
namespace Internet

open Library EthernetHeader Router

variable {η ρ L : Type}

/-- An interface of the network: that of a host, or one of a router. -/
inductive Port (η ρ : Type)
  | host (h : η)
  | router (r : ρ) (i : ℕ)
  deriving DecidableEq

def Port.router? : Port η ρ → Option ρ
  | .host _ => none
  | .router r _ => some r

/-- Which link an interface is on, its addresses, and how many of them each router has. -/
structure Plan (η ρ L : Type) where
  link : Port η ρ → L
  eth : Port η ρ → EthernetAddress
  ip : Port η ρ → Address
  interfaces : ρ → ℕ

structure State (η ρ : Type) where
  hosts : η → AsyncNetworkInterface
  routers : ρ → Router
  wire : List (Port η ρ × EthernetFrame)

inductive Op (η ρ : Type)
  | sendDatagram (h : η) (dgram : InternetDatagram) (nextHop : Address)
  | maybeReceive (h : η)
  | addRoute (r : ρ) (route : RoutingTable.Route)
  | route (r : ρ)
  | tick (p : Port η ρ) (ms : ℕ)
  | maybeSend (p : Port η ρ)
  /-- the frame number `k` of the wire reaches `p` -/
  | deliver (k : ℕ) (p : Port η ρ)
  deriving DecidableEq

structure Output where
  received : Option InternetDatagram := none
  taken : Option InternetDatagram := none
  handled : List Handled := []
  thrown : Option RuntimeError := none
  deriving DecidableEq

namespace State

variable {s : State η ρ} {p q : Port η ρ} {a : AsyncNetworkInterface}

def interfaceAt (s : State η ρ) : Port η ρ → Option AsyncNetworkInterface
  | .host h => some (s.hosts h)
  | .router r i => (s.routers r).interfaces[i]?

variable [DecidableEq ρ]

def setRouter (s : State η ρ) (r : ρ) (router : Router) : State η ρ :=
  { s with routers := Function.update s.routers r router }

theorem setRouter_interfaceAt (s : State η ρ) (r : ρ) (router : Router) (q : Port η ρ)
    (h : ∀ i, q ≠ .router r i) : (s.setRouter r router).interfaceAt q = s.interfaceAt q := by
  cases q with
  | host h => rfl
  | router r' i =>
    have hr : r' ≠ r := by
      rintro rfl
      exact h i rfl
    simp only [interfaceAt,setRouter,Function.update_of_ne hr]

@[simp] theorem setRouter_router (s : State η ρ) (r : ρ) (router : Router) (i : ℕ) :
    (s.setRouter r router).interfaceAt (.router r i) = router.interfaces[i]? := by
  simp [interfaceAt,setRouter]

variable [DecidableEq η]

def setInterface (s : State η ρ) : Port η ρ → AsyncNetworkInterface → State η ρ
  | .host h, a => { s with hosts := Function.update s.hosts h a }
  | .router r i, a =>
    s.setRouter r { s.routers r with interfaces := (s.routers r).interfaces.set i a }

def sentBy (s : State η ρ) (p : Port η ρ) : List EthernetFrame :=
  (s.wire.filter fun x => x.1 = p).map Prod.snd

theorem setInterface_interfaceAt (h : s.interfaceAt p ≠ none) (a : AsyncNetworkInterface)
    (q : Port η ρ) :
    (s.setInterface p a).interfaceAt q = if q = p then some a else s.interfaceAt q := by
  cases p with
  | host x =>
    cases q with
    | host y =>
      by_cases heq : y = x
      · simp [setInterface,interfaceAt,heq]
      · simp [setInterface,interfaceAt,heq]
    | router r' i' => simp [setInterface,interfaceAt]
  | router r i =>
    have hlt : i < (s.routers r).interfaces.length := by
      by_contra hout
      exact h (List.getElem?_eq_none (Nat.not_lt.mp hout))
    by_cases heq : ∃ i', q = .router r i'
    · obtain ⟨i',rfl⟩ := heq
      rw [setInterface,setRouter_router,List.getElem?_set]
      by_cases hi : i = i'
      · subst hi
        simp [hlt]
      · simp [hi,Ne.symm hi,interfaceAt]
    · have hne : ∀ i', q ≠ .router r i' := fun i' hq => heq ⟨i',hq⟩
      rw [setInterface,setRouter_interfaceAt _ _ _ _ hne,if_neg (hne i)]

@[simp] theorem setInterface_wire (s : State η ρ) (p : Port η ρ) (a : AsyncNetworkInterface) :
    (s.setInterface p a).wire = s.wire := by
  cases p <;> rfl

end State

structure Sending (η ρ : Type) where
  port : Port η ρ
  nextHop : Address
  dgram : InternetDatagram
  deriving DecidableEq

/-- A datagram that came in with the frame number `frame` of the wire. -/
structure Receipt (η ρ : Type) where
  port : Port η ρ
  frame : ℕ
  dgram : InternetDatagram
  deriving DecidableEq

structure Ledger (η ρ : Type) where
  given : List (Sending η ρ) := []
  received : List (Receipt η ρ) := []
  handled : List (ρ × Handled) := []
  taken : List (η × InternetDatagram) := []

namespace Ledger

def forwards (r : ρ) (log : List Handled) : List (Sending η ρ) :=
  log.flatMap fun x => x.sends.map fun s => ⟨.router r s.interfaceNum,s.nextHop,s.datagram⟩

def handle (l : Ledger η ρ) (r : ρ) (log : List Handled) : Ledger η ρ :=
  { l with given := l.given ++ forwards r log, handled := l.handled ++ log.map fun x => (r,x) }

def record (l : Ledger η ρ) (e : Event (State η ρ) (Op η ρ) Output) : Ledger η ρ :=
  match e.op with
  | .sendDatagram h dgram nextHop => { l with given := l.given ++ [⟨.host h,nextHop,dgram⟩] }
  | .maybeReceive h => { l with taken := l.taken ++ e.out.taken.toList.map fun d => (h,d) }
  | .route r => l.handle r e.out.handled
  | .deliver k p => { l with received := l.received ++ e.out.received.toList.map fun d => ⟨p,k,d⟩ }
  | _ => l

theorem record_deliver_none (l : Ledger η ρ) (s : State η ρ) (k : ℕ) (p : Port η ρ) :
    l.record ⟨s,.deliver k p,{}⟩ = l := by
  simp [record]

end Ledger

abbrev Trace (η ρ : Type) := List (Event (State η ρ) (Op η ρ) Output)

def ledger (tr : Trace η ρ) : Ledger η ρ := tr.foldl Ledger.record {}

@[simp] theorem ledger_snoc (tr : Trace η ρ) (e : Event (State η ρ) (Op η ρ) Output) :
    ledger (tr ++ [e]) = (ledger tr).record e := by
  simp [ledger]

variable [DecidableEq η] [DecidableEq ρ]

namespace Ledger

def givenAt (l : Ledger η ρ) (p : Port η ρ) : List (Address × InternetDatagram) :=
  (l.given.filter fun x => x.port = p).map fun x => (x.nextHop,x.dgram)

def receivedAt (l : Ledger η ρ) (p : Port η ρ) : List InternetDatagram :=
  (l.received.filter fun x => x.port = p).map Receipt.dgram

def receivedBy (l : Ledger η ρ) (r : ρ) : List InternetDatagram :=
  (l.received.filter fun x => x.port.router? = some r).map Receipt.dgram

def handledBy (l : Ledger η ρ) (r : ρ) : List InternetDatagram :=
  (l.handled.filter fun x => x.1 = r).map fun x => x.2.datagram

def takenBy (l : Ledger η ρ) (h : η) : List InternetDatagram :=
  (l.taken.filter fun x => x.1 = h).map Prod.snd

end Ledger

def onPort (s : State η ρ) (p : Port η ρ)
    (call : AsyncNetworkInterface → Except Fault (AsyncNetworkInterface × Output)) :
    Except Fault (State η ρ × Output) :=
  match s.interfaceAt p with
  | none => .error .outOfRange
  | some a =>
    match call a with
    | .error f => .error f
    | .ok (a,out) => .ok (s.setInterface p a,out)

def thrownBy {α : Type} : Except RuntimeError α → Option RuntimeError
  | .error e => some e
  | .ok _ => none

def sendDatagramOn (dgram : InternetDatagram) (nextHop : Address) (a : AsyncNetworkInterface) :
    Except Fault (AsyncNetworkInterface × Output) :=
  match a.toNetworkInterface.sendDatagram dgram nextHop with
  | .error f => .error f
  | .ok (s,res) => .ok ({ a with toNetworkInterface := s },{ thrown := thrownBy res })

def maybeReceiveOn (a : AsyncNetworkInterface) : Except Fault (AsyncNetworkInterface × Output) :=
  .ok (a.maybeReceive.1,{ taken := a.maybeReceive.2 })

def tickOn (ms : ℕ) (a : AsyncNetworkInterface) : Except Fault (AsyncNetworkInterface × Output) :=
  .ok ({ a with toNetworkInterface := a.toNetworkInterface.tick ms },{})

def recvFrameOn (frame : EthernetFrame) (a : AsyncNetworkInterface) :
    Except Fault (AsyncNetworkInterface × Output) :=
  match a.recvFrame frame with
  | .error f => .error f
  | .ok (a,.error e) => .ok (a,{ thrown := some e })
  | .ok (a,.ok dgram) => .ok (a,{ received := dgram })

/-- What an interface sends goes to the end of the wire. -/
def transmit (s : State η ρ) (p : Port η ρ) : Except Fault (State η ρ × Output) :=
  match s.interfaceAt p with
  | none => .error .outOfRange
  | some a =>
    let (n,frame) := a.toNetworkInterface.maybeSend
    .ok ({ s.setInterface p { a with toNetworkInterface := n } with
      wire := s.wire ++ frame.toList.map fun f => (p,f) },{})

def routeOn (s : State η ρ) (r : ρ) : Except Fault (State η ρ × Output) :=
  match (s.routers r).routeLogged with
  | .error f => .error f
  | .ok ((router,res),log) => .ok (s.setRouter r router,{ handled := log, thrown := thrownBy res })

def step [DecidableEq L] (plan : Plan η ρ L) (s : State η ρ) : Op η ρ → Except Fault (State η ρ × Output)
  | .sendDatagram h dgram nextHop => onPort s (.host h) (sendDatagramOn dgram nextHop)
  | .maybeReceive h => onPort s (.host h) maybeReceiveOn
  | .addRoute r route => .ok (s.setRouter r ((s.routers r).addRoute route),{})
  | .route r => routeOn s r
  | .tick p ms => onPort s p (tickOn ms)
  | .maybeSend p => transmit s p
  | .deliver k p =>
    match s.wire[k]? with
    | none => .ok (s,{})
    | some (q,frame) =>
      if plan.link q = plan.link p then onPort s p (recvFrameOn frame) else .ok (s,{})

namespace Plan

def Exists (plan : Plan η ρ L) : Port η ρ → Prop
  | .host _ => True
  | .router r i => i < plan.interfaces r

/-- On the link of `p` the address `ip` belongs to the interface with the address `eth`. -/
def Owns (plan : Plan η ρ L) (p : Port η ρ) (ip : Address) (eth : EthernetAddress) : Prop :=
  ∃ q, plan.Exists q ∧ plan.link q = plan.link p ∧ plan.ip q = ip ∧ plan.eth q = eth

/-- No address is used twice on a link, and none is the broadcast address. -/
structure Sound (plan : Plan η ρ L) : Prop where
  eth : ∀ p q, plan.Exists p → plan.Exists q → plan.link p = plan.link q →
    plan.eth p = plan.eth q → p = q
  ip : ∀ p q, plan.Exists p → plan.Exists q → plan.link p = plan.link q →
    plan.ip p = plan.ip q → p = q
  unicast : ∀ p, plan.Exists p → plan.eth p ≠ ETHERNET_BROADCAST

/-- The network before its first step: new interfaces and no routes. -/
def start (plan : Plan η ρ L) : State η ρ where
  hosts := fun h => AsyncNetworkInterface.new (plan.eth (.host h)) (plan.ip (.host h))
  routers := fun r => ⟨(List.range (plan.interfaces r)).map fun i =>
    AsyncNetworkInterface.new (plan.eth (.router r i)) (plan.ip (.router r i)),[]⟩
  wire := []

end Plan

end Internet
end Minnow
