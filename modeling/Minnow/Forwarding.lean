import Minnow.RouterRuns

/-! What one call of `route()` hands to the interfaces. The functions are repeated with a log of
the datagrams that they take and of the calls of `send_datagram` that they make. -/
namespace Minnow

open Library

namespace Router

open RoutingTable

/-- A call of `send_datagram` on an interface. -/
structure Send where
  interfaceNum : ℕ
  nextHop : Address
  datagram : InternetDatagram
  deriving DecidableEq

/-- A datagram that was taken from an interface, and what was sent for it. -/
structure Handled where
  datagram : InternetDatagram
  sends : List Send
  deriving DecidableEq

abbrev Logged (α : Type) := Except Fault ((Router × Except RuntimeError Unit) × List α)

/-- `forward` with its log. -/
def forwardLogged (r : Router) (datagram : InternetDatagram) : Logged Send :=
  match scan datagram.header.dst (consulted r.routerTable) 0 none with
  | .error f => .error f
  | .ok none => .ok ((r,.ok ()),[])
  | .ok (some (index,nextHop)) =>
    if datagram.header.ttl = 1 ∨ datagram.header.ttl = 0 then .ok ((r,.ok ()),[])
    else
      match r.interfaces[index]? with
      | none => .error .outOfRange
      | some interface =>
        match interface.toNetworkInterface.sendDatagram (lowerTTL datagram)
            (nextHop.getD datagram.header.dst) with
        | .error f => .error f
        | .ok (s,res) => .ok (({ r with
            interfaces := r.interfaces.set index { interface with toNetworkInterface := s } },res),
            [⟨index,nextHop.getD datagram.header.dst,lowerTTL datagram⟩])

def routeInterfaceLogged (r : Router) (i : ℕ) : Logged Handled :=
  match r.interfaces[i]? with
  | none => .error .outOfRange
  | some interface =>
    match interface.maybeReceive with
    | (_,none) => .ok ((r,.ok ()),[])
    | (interface,some datagram) =>
      match forwardLogged { r with interfaces := r.interfaces.set i interface } datagram with
      | .error f => .error f
      | .ok (res,sends) => .ok (res,[⟨datagram,sends⟩])

def routeFromLogged : List ℕ → Router → Logged Handled
  | [], r => .ok ((r,.ok ()),[])
  | i::is, r =>
    match r.routeInterfaceLogged i with
    | .error f => .error f
    | .ok ((r,.error e),log) => .ok ((r,.error e),log)
    | .ok ((r,.ok ()),log) =>
      match routeFromLogged is r with
      | .error f => .error f
      | .ok (res,rest) => .ok (res,log ++ rest)

def routeLogged (r : Router) : Logged Handled :=
  routeFromLogged (List.range r.interfaces.length) r

/-! Without the log these are the functions of the code. -/

theorem forwardLogged_fst (r : Router) (datagram : InternetDatagram) :
    (r.forwardLogged datagram).map Prod.fst = r.forward datagram := by
  unfold forwardLogged forward
  cases scan datagram.header.dst (consulted r.routerTable) 0 none with
  | error f => rfl
  | ok matched =>
    rcases matched with _ | ⟨index,nextHop⟩
    · rfl
    · simp only
      split_ifs
      · rfl
      · cases r.interfaces[index]? with
        | none => rfl
        | some interface =>
          simp only
          cases interface.toNetworkInterface.sendDatagram (lowerTTL datagram)
            (nextHop.getD datagram.header.dst) <;> rfl

theorem routeInterfaceLogged_fst (r : Router) (i : ℕ) :
    (r.routeInterfaceLogged i).map Prod.fst = r.routeInterface i := by
  unfold routeInterfaceLogged routeInterface
  cases r.interfaces[i]? with
  | none => rfl
  | some interface =>
    simp only
    rcases interface.maybeReceive with ⟨a,_ | datagram⟩
    · rfl
    · simp only [← forwardLogged_fst]
      cases forwardLogged { r with interfaces := r.interfaces.set i a } datagram <;> rfl

theorem routeFromLogged_fst (is : List ℕ) (r : Router) :
    (routeFromLogged is r).map Prod.fst = routeFrom is r := by
  induction is generalizing r with
  | nil => rfl
  | cons i is ih =>
    unfold routeFromLogged routeFrom
    rw [← routeInterfaceLogged_fst]
    rcases r.routeInterfaceLogged i with f | ⟨⟨t,e | u⟩,log⟩
    · rfl
    · rfl
    · simp only [Except.map,← ih t]
      cases routeFromLogged is t <;> rfl

theorem routeLogged_fst (r : Router) : r.routeLogged.map Prod.fst = r.route :=
  routeFromLogged_fst _ r

theorem forwardLogged_cases {r r' : Router} {d : InternetDatagram} {res : Except RuntimeError Unit}
    {sends : List Send} (hs : r.forwardLogged d = .ok ((r',res),sends)) :
    (r' = r ∧ sends = []) ∨ ∃ i hop a s, 2 ≤ d.header.ttl.toNat ∧ r.interfaces[i]? = some a ∧
      a.toNetworkInterface.sendDatagram (lowerTTL d) hop = .ok (s,res) ∧
      r' = { r with interfaces := r.interfaces.set i { a with toNetworkInterface := s } } ∧
      sends = [⟨i,hop,lowerTTL d⟩] := by
  unfold forwardLogged at hs
  split at hs
  · cases hs
  · cases hs
    exact Or.inl ⟨rfl,rfl⟩
  · rename_i index nextHop _
    split_ifs at hs with httl
    · cases hs
      exact Or.inl ⟨rfl,rfl⟩
    · split at hs
      · cases hs
      · rename_i a ha
        split at hs
        · cases hs
        · rename_i s res' hsend
          cases hs
          have h₁ : d.header.ttl.toNat ≠ 1 := fun h₁ => httl (Or.inl (UInt8.toNat_inj.mp h₁))
          have h₀ : d.header.ttl.toNat ≠ 0 := fun h₀ => httl (Or.inr (UInt8.toNat_inj.mp h₀))
          exact Or.inr ⟨index,_,a,s,by omega,ha,hsend,rfl,rfl⟩

/-- What holds at the start of the loop, and is kept when one datagram is taken and forwarded, holds
at its end. -/
theorem routeLogged_induction {r r' : Router} (I : List Handled → Router → Prop) (hinit : I [] r)
    (hstep : ∀ {log : List Handled} {t t' : Router} {i : ℕ} {a : AsyncNetworkInterface}
      {d : InternetDatagram} {ds : List InternetDatagram} {res : Except RuntimeError Unit}
      {sends : List Send}, I log t → t.interfaces[i]? = some a → a.datagramsIn = d::ds →
      forwardLogged { t with interfaces := t.interfaces.set i { a with datagramsIn := ds } } d =
        .ok ((t',res),sends) → I (log ++ [⟨d,sends⟩]) t')
    {res : Except RuntimeError Unit} {log : List Handled}
    (hs : r.routeLogged = .ok ((r',res),log)) : I log r' := by
  have hone : ∀ {log log' : List Handled} {t t' : Router} {i : ℕ} {res : Except RuntimeError Unit},
      I log t → t.routeInterfaceLogged i = .ok ((t',res),log') → I (log ++ log') t' := by
    intro log log' t t' i res h hs
    unfold routeInterfaceLogged at hs
    split at hs
    · cases hs
    · rename_i a ha
      unfold AsyncNetworkInterface.maybeReceive at hs
      cases hds : a.datagramsIn with
      | nil =>
        simp only [hds] at hs
        cases hs
        rwa [List.append_nil]
      | cons d ds =>
        simp only [hds] at hs
        split at hs
        · cases hs
        · rename_i out sends hforward
          cases hs
          exact hstep h ha hds hforward
  have hloop : ∀ (is : List ℕ) {log log' : List Handled} {t t' : Router}
      {res : Except RuntimeError Unit}, I log t →
      routeFromLogged is t = .ok ((t',res),log') → I (log ++ log') t' := by
    intro is
    induction is with
    | nil =>
      intro log log' t t' res h hs
      cases hs
      rwa [List.append_nil]
    | cons i is ih =>
      intro log log' t t' res h hs
      unfold routeFromLogged at hs
      split at hs
      · cases hs
      · rename_i u e log₁ hfirst
        cases hs
        exact hone h hfirst
      · rename_i u log₁ hfirst
        split at hs
        · cases hs
        · rename_i out rest hrest
          cases hs
          rw [← List.append_assoc]
          exact ih (hone h hfirst) hrest
  simpa using hloop _ hinit hs

theorem routeLogged_sends {r r' : Router} {res : Except RuntimeError Unit} {log : List Handled}
    (hs : r.routeLogged = .ok ((r',res),log)) : ∀ x ∈ log, x.sends = [] ∨ ∃ i hop,
      i < r.interfaces.length ∧ 2 ≤ x.datagram.header.ttl.toNat ∧
        x.sends = [⟨i,hop,lowerTTL x.datagram⟩] := by
  refine (routeLogged_induction (fun log t => t.interfaces.length = r.interfaces.length ∧
    ∀ x ∈ log, x.sends = [] ∨ ∃ i hop, i < r.interfaces.length ∧
      2 ≤ x.datagram.header.ttl.toNat ∧ x.sends = [⟨i,hop,lowerTTL x.datagram⟩])
    ⟨rfl,by simp⟩ ?_ hs).2
  rintro log t t' i a d ds res sends ⟨hlen,hI⟩ - - hforward
  have hnew : t'.interfaces.length = r.interfaces.length ∧ (sends = [] ∨ ∃ i hop,
      i < r.interfaces.length ∧ 2 ≤ d.header.ttl.toNat ∧ sends = [⟨i,hop,lowerTTL d⟩]) := by
    rcases forwardLogged_cases hforward with ⟨rfl,hnone⟩ | ⟨j,hop,a,s,httl,ha,-,rfl,hone⟩
    · exact ⟨by simpa using hlen,Or.inl hnone⟩
    · have hj := (List.getElem?_eq_some_iff.mp ha).1
      rw [List.length_set,hlen] at hj
      exact ⟨by simpa using hlen,Or.inr ⟨j,hop,hj,httl,hone⟩⟩
  refine ⟨hnew.1,?_⟩
  intro x hx
  rcases List.mem_append.mp hx with hx | hx
  · exact hI x hx
  · rw [List.mem_singleton.mp hx]
    exact hnew.2

/-- The calls of `send_datagram` for a datagram, as the scan decides. -/
def chosen (table : Table) (d : InternetDatagram) : List Send :=
  match scan d.header.dst (consulted table) 0 none with
  | .ok (some (index,nextHop)) =>
    if d.header.ttl = 1 ∨ d.header.ttl = 0 then []
    else [⟨index,nextHop.getD d.header.dst,lowerTTL d⟩]
  | _ => []

theorem forwardLogged_chosen {r : Router} {d : InternetDatagram}
    {res : Router × Except RuntimeError Unit} {sends : List Send}
    (hs : r.forwardLogged d = .ok (res,sends)) : sends = chosen r.routerTable d := by
  unfold forwardLogged at hs
  unfold chosen
  split at hs
  · cases hs
  · cases hs
    simp only [*]
  · rename_i index nextHop hscan
    simp only [hscan]
    split_ifs at hs ⊢ with httl
    · cases hs
      rfl
    · split at hs
      · cases hs
      · split at hs
        · cases hs
        · cases hs
          rfl

theorem routeLogged_chosen {r r' : Router} {res : Except RuntimeError Unit} {log : List Handled}
    (hs : r.routeLogged = .ok ((r',res),log)) : r'.routerTable = r.routerTable ∧
      ∀ x ∈ log, x.sends = chosen r.routerTable x.datagram := by
  refine routeLogged_induction (fun log t => t.routerTable = r.routerTable ∧
    ∀ x ∈ log, x.sends = chosen r.routerTable x.datagram) ⟨rfl,by simp⟩ ?_ hs
  rintro log t t' i a d ds res sends ⟨htable,hlog⟩ _ _ hforward
  constructor
  · rcases forwardLogged_cases hforward with ⟨rfl,-⟩ | ⟨_,_,_,_,-,-,-,rfl,-⟩
    · exact htable
    · exact htable
  · intro x hx
    rcases List.mem_append.mp hx with hx | hx
    · exact hlog x hx
    · have hsends := forwardLogged_chosen hforward
      rw [List.mem_singleton.mp hx,← htable]
      exact hsends

inductive Sends : NetworkInterface → List (Address × InternetDatagram) → NetworkInterface → Prop
  | nil (n : NetworkInterface) : Sends n [] n
  | snoc {n n' n'' : NetworkInterface} {calls : List (Address × InternetDatagram)} {hop : Address}
      {d : InternetDatagram} {res : Except RuntimeError Unit} : Sends n calls n' →
      n'.sendDatagram d hop = .ok (n'',res) → Sends n (calls ++ [(hop,d)]) n''

def callsOn (j : ℕ) (log : List Handled) : List (Address × InternetDatagram) :=
  ((log.flatMap Handled.sends).filter fun s => s.interfaceNum = j).map fun s =>
    (s.nextHop,s.datagram)

theorem callsOn_snoc (j : ℕ) (log : List Handled) (x : Handled) :
    callsOn j (log ++ [x]) = callsOn j log ++ callsOn j [x] := by
  simp [callsOn]

theorem routeLogged_sees {r r' : Router} {res : Except RuntimeError Unit} {log : List Handled}
    (hs : r.routeLogged = .ok ((r',res),log)) {j : ℕ} {a : AsyncNetworkInterface}
    (ha : r.interfaces[j]? = some a) : ∃ a', r'.interfaces[j]? = some a' ∧
      Sends a.toNetworkInterface (callsOn j log) a'.toNetworkInterface := by
  refine routeLogged_induction (fun log t => ∃ a', t.interfaces[j]? = some a' ∧
    Sends a.toNetworkInterface (callsOn j log) a'.toNetworkInterface) ⟨a,ha,.nil _⟩ ?_ hs
  rintro log t t' i c d ds res sends ⟨b,hb,hsends⟩ hc hds hforward
  -- taking a datagram changes no more than the queue
  obtain ⟨b',hb',hsame⟩ : ∃ b', (t.interfaces.set i { c with datagramsIn := ds })[j]? = some b' ∧
      b'.toNetworkInterface = b.toNetworkInterface := by
    by_cases hij : i = j
    · subst hij
      obtain rfl := Option.some.inj (hb.symm.trans hc)
      have hlt := (List.getElem?_eq_some_iff.mp hb).1
      exact ⟨{ b with datagramsIn := ds },by simp [hlt],rfl⟩
    · exact ⟨b,by simp [hij,hb],rfl⟩
  rw [callsOn_snoc]
  rcases forwardLogged_cases hforward with ⟨rfl,rfl⟩ | ⟨k,hop,c',n,-,hc',hsend,rfl,rfl⟩
  · refine ⟨b',hb',?_⟩
    rw [hsame]
    simpa [callsOn] using hsends
  · by_cases hkj : k = j
    · subst hkj
      obtain rfl := Option.some.inj (hb'.symm.trans hc')
      have hlt := (List.getElem?_eq_some_iff.mp hb').1
      rw [hsame] at hsend
      refine ⟨{ b' with toNetworkInterface := n },?_,?_⟩
      · rw [List.getElem?_set_self hlt]
      · simpa [callsOn] using hsends.snoc hsend
    · refine ⟨b',by simpa [hkj] using hb',?_⟩
      rw [hsame]
      simpa [callsOn,hkj] using hsends

theorem scan_cons {dst : Address} {route : Route} (hlen : route.entry.prefixLength.toNat ≤ 32)
    (routes : List Route) (m : UInt8) (matched : Option (ℕ × Option Address)) :
    scan dst (route::routes) m matched =
      if Matches dst route ∧ m ≤ route.entry.prefixLength then
        scan dst routes route.entry.prefixLength (some (route.interfaceNum,route.entry.nextHop))
      else scan dst routes m matched := by
  have hmatch : decide (topBits route.entry.prefixLength.toNat dst =
      topBits route.entry.prefixLength.toNat route.entry.routePrefix) = true ↔
      Matches dst route := decide_eq_true_iff
  rw [scan,ipPrefixMatched_eq hlen]
  simp only [hmatch]

/-- The scan ends with the last of the longest matches, unless all matches are shorter than the
length that it starts with. -/
theorem scan_spec (dst : Address) (routes : List Route)
    (hlen : ∀ route ∈ routes, route.entry.prefixLength.toNat ≤ 32) (m : UInt8)
    (matched : Option (ℕ × Option Address)) :
    (∀ route ∈ routes, Matches dst route → route.entry.prefixLength < m) ∧
      scan dst routes m matched = .ok matched ∨
    ∃ before route after, routes = before ++ route::after ∧ Matches dst route ∧
      m ≤ route.entry.prefixLength ∧
      (∀ r ∈ before, Matches dst r → r.entry.prefixLength ≤ route.entry.prefixLength) ∧
      (∀ r ∈ after, Matches dst r → r.entry.prefixLength < route.entry.prefixLength) ∧
      scan dst routes m matched = .ok (some (route.interfaceNum,route.entry.nextHop)) := by
  induction routes generalizing m matched with
  | nil => exact Or.inl ⟨by simp,rfl⟩
  | cons route routes ih =>
    have hrest := fun r hr => hlen r (List.mem_cons_of_mem _ hr)
    rw [scan_cons (hlen route List.mem_cons_self)]
    split_ifs with htake
    · obtain ⟨hmatch,hle⟩ := htake
      rcases ih hrest route.entry.prefixLength (some (route.interfaceNum,route.entry.nextHop)) with
        ⟨hshort,hscan⟩ | ⟨before,r,after,rfl,hr,hlonger,hbefore,hafter,hscan⟩
      · exact Or.inr ⟨[],route,routes,rfl,hmatch,hle,by simp,hshort,hscan⟩
      · refine Or.inr ⟨route::before,r,after,rfl,hr,UInt8.le_trans hle hlonger,?_,hafter,hscan⟩
        intro r' hr' hm
        rcases List.mem_cons.mp hr' with rfl | hr'
        · exact hlonger
        · exact hbefore r' hr' hm
    · -- an entry that is not taken is shorter than what was found before
      have hshorter : Matches dst route → route.entry.prefixLength < m :=
        fun hmatch => UInt8.not_le.mp fun hle => htake ⟨hmatch,hle⟩
      rcases ih hrest m matched with
        ⟨hshort,hscan⟩ | ⟨before,r,after,rfl,hr,hle,hbefore,hafter,hscan⟩
      · refine Or.inl ⟨?_,hscan⟩
        intro r' hr' hm
        rcases List.mem_cons.mp hr' with rfl | hr'
        · exact hshorter hm
        · exact hshort r' hr' hm
      · refine Or.inr ⟨route::before,r,after,rfl,hr,hle,?_,hafter,hscan⟩
        intro r' hr' hm
        rcases List.mem_cons.mp hr' with rfl | hr'
        · exact UInt8.le_trans (UInt8.le_of_lt (hshorter hm)) hle
        · exact hbefore r' hr' hm

/-- An entry with a length over 32 is undefined behaviour, wherever it stands. -/
theorem scan_lengths {dst : Address} {routes : List Route} {m : UInt8}
    {matched result : Option (ℕ × Option Address)} (h : scan dst routes m matched = .ok result) :
    ∀ route ∈ routes, route.entry.prefixLength.toNat ≤ 32 := by
  induction routes generalizing m matched with
  | nil => simp
  | cons route routes ih =>
    rw [scan] at h
    intro r hr
    rcases List.mem_cons.mp hr with rfl | hr
    · by_contra hlong
      have hbad : ipPrefixMatched dst r.entry.routePrefix r.entry.prefixLength =
          .error .arithmetic := by
        unfold ipPrefixMatched
        rw [if_neg,if_pos]
        · rw [UInt8.lt_iff_toNat_lt]
          simpa using hlong
        · intro hzero
          simp [hzero] at hlong
      simp [hbad] at h
    · split at h
      · cases h
      · split_ifs at h
        · exact ih h r hr
        · exact ih h r hr

variable {r r' : Router} {i : ℕ} {d : InternetDatagram}

def waiting (r : Router) (i : ℕ) : List InternetDatagram :=
  match r.interfaces[i]? with
  | none => []
  | some interface => interface.datagramsIn

/-- Every interface has sound pointers, and what waits there is of version 4. -/
structure Ready (r : Router) : Prop where
  wf : ∀ a ∈ r.interfaces, a.toNetworkInterface.WF
  version : ∀ a ∈ r.interfaces, ∀ d ∈ a.datagramsIn, d.header.ver = 4

/-- The lookup for the datagram has defined behaviour: all lengths are at most 32, and when the
datagram can be sent on, the longest matches are on interfaces that exist. -/
structure Lookup (r : Router) (d : InternetDatagram) : Prop where
  lengths : ∀ route ∈ consulted r.routerTable, route.entry.prefixLength.toNat ≤ 32
  valid : 2 ≤ d.header.ttl.toNat → ∀ route, Longest r.routerTable d.header.dst route →
    route.interfaceNum < r.interfaces.length

/-- What a datagram leads to: nothing, or one call of `send_datagram`. -/
structure Decision (table : Table) (h : Handled) : Prop where
  dropped : (∀ route ∈ consulted table, ¬ Matches h.datagram.header.dst route) ∨
    h.datagram.header.ttl.toNat < 2 → h.sends = []
  forwarded : (∃ route ∈ consulted table, Matches h.datagram.header.dst route) →
    2 ≤ h.datagram.header.ttl.toNat → ∃ route, Longest table h.datagram.header.dst route ∧
      h.sends = [⟨route.interfaceNum,route.entry.nextHop.getD h.datagram.header.dst,
        lowerTTL h.datagram⟩]

/-- Nothing but the interfaces' own states has changed. -/
structure Keeps (r r' : Router) : Prop where
  table : r'.routerTable = r.routerTable
  length : r'.interfaces.length = r.interfaces.length
  ready : Ready r'

theorem Lookup.keeps (h : Keeps r r') : Lookup r' d ↔ Lookup r d := by
  constructor
  · intro hl
    refine ⟨?_,?_⟩
    · rw [← h.table]
      exact hl.lengths
    · rw [← h.table,← h.length]
      exact hl.valid
  · intro hl
    refine ⟨?_,?_⟩
    · rw [h.table]
      exact hl.lengths
    · rw [h.table,h.length]
      exact hl.valid

theorem waiting_set (r : Router) {a : AsyncNetworkInterface} (hi : i < r.interfaces.length)
    (j : ℕ) : waiting { r with interfaces := r.interfaces.set i a } j =
      if i = j then a.datagramsIn else r.waiting j := by
  unfold waiting
  simp only [List.getElem?_set]
  split_ifs with hij
  · rfl
  · rfl

theorem Ready.set (h : Ready r) (i : ℕ) {a : AsyncNetworkInterface}
    (ha : a.toNetworkInterface.WF) (hd : ∀ d ∈ a.datagramsIn, d.header.ver = 4) :
    Keeps r { r with interfaces := r.interfaces.set i a } := by
  refine ⟨rfl,List.length_set,?_,?_⟩
  · intro b hb
    rcases List.mem_or_eq_of_mem_set hb with hb | rfl
    · exact h.wf b hb
    · exact ha
  · intro b hb
    rcases List.mem_or_eq_of_mem_set hb with hb | rfl
    · exact h.version b hb
    · exact hd

theorem sendDatagram_sends {s : NetworkInterface} (h : s.WF) (hver : d.header.ver = 4)
    (ip : Address) : ∃ s', s.sendDatagram d ip = .ok (s',.ok ()) ∧ s'.WF := by
  have hsends : ∃ s', s.sendDatagram d ip = .ok (s',.ok ()) := by
    cases hptr : (s.arpTable ip).arpMappingNodePtr with
    | none =>
      cases hreq : (s.arpTable ip).arpRequestPtr with
      | none => exact ⟨_,NetworkInterface.sendDatagram_request d hptr hreq⟩
      | some ptr => exact ⟨s,by simp only [NetworkInterface.sendDatagram,hptr,hreq]⟩
    | some ptr =>
      obtain ⟨node,hnode,-⟩ := h.mappings.deref hptr
      obtain ⟨rest,hser⟩ := IPv4Datagram.serialized_eq hver
      refine ⟨s.emplaceFrame ⟨⟨node.ethAddr,s.ethernetAddress,EthernetHeader.TYPE_IPv4⟩,
        d.header.bytes::rest⟩,?_⟩
      simp only [NetworkInterface.sendDatagram,hptr,hnode,hser]
  obtain ⟨s',hs⟩ := hsends
  exact ⟨s',hs,h.sendDatagram hs⟩

theorem ttl_iff (d : InternetDatagram) :
    ¬ (d.header.ttl = 1 ∨ d.header.ttl = 0) ↔ 2 ≤ d.header.ttl.toNat := by
  have hone : d.header.ttl = 1 ↔ d.header.ttl.toNat = 1 := UInt8.toNat_inj.symm
  have hzero : d.header.ttl = 0 ↔ d.header.ttl.toNat = 0 := UInt8.toNat_inj.symm
  rw [hone,hzero]
  omega

theorem scan_longest (table : Table) (dst : Address)
    (hlen : ∀ route ∈ consulted table, route.entry.prefixLength.toNat ≤ 32) :
    (∀ route ∈ consulted table, ¬ Matches dst route) ∧
      scan dst (consulted table) 0 none = .ok none ∨
    ∃ route, Longest table dst route ∧
      (∀ r, Longest table dst r → r.interfaceNum ≤ route.interfaceNum) ∧
      scan dst (consulted table) 0 none = .ok (some (route.interfaceNum,route.entry.nextHop)) := by
  rcases scan_spec dst (consulted table) hlen 0 none with
    ⟨hshort,hscan⟩ | ⟨before,route,after,hsplit,hmatch,-,hbefore,hafter,hscan⟩
  · refine Or.inl ⟨?_,hscan⟩
    intro route hroute hm
    exact UInt8.not_lt.mpr (UInt8.zero_le) (hshort route hroute hm)
  · have hmem : route ∈ consulted table := by
      rw [hsplit]
      simp
    refine Or.inr ⟨route,⟨hmem,hmatch,?_⟩,?_,hscan⟩
    · intro r hr hm
      rw [hsplit] at hr
      rcases List.mem_append.mp hr with hr | hr
      · exact hbefore r hr hm
      · rcases List.mem_cons.mp hr with rfl | hr
        · exact UInt8.le_refl _
        · exact UInt8.le_of_lt (hafter r hr hm)
    · rintro r ⟨hr,hm,hlongest⟩
      have hsorted := consulted_sorted table
      rw [hsplit] at hr
      rw [Ascending,hsplit,List.pairwise_append] at hsorted
      rcases List.mem_append.mp hr with hr | hr
      · exact hsorted.2.2 r hr route List.mem_cons_self
      · rcases List.mem_cons.mp hr with rfl | hr
        · exact le_rfl
        · exact absurd (hlongest route hmem hmatch) (UInt8.not_le.mpr (hafter r hr hm))

theorem forwardLogged_ok (h : Ready r) (hver : d.header.ver = 4) (hl : Lookup r d) :
    ∃ r' sends, r.forwardLogged d = .ok ((r',.ok ()),sends) ∧ Keeps r r' ∧
      (∀ j, r'.waiting j = r.waiting j) ∧ Decision r.routerTable ⟨d,sends⟩ := by
  rcases scan_longest r.routerTable d.header.dst hl.lengths with
    ⟨hnone,hscan⟩ | ⟨route,hroute,-,hscan⟩
  · refine ⟨r,[],by simp only [forwardLogged,hscan],⟨rfl,rfl,h⟩,fun _ => rfl,fun _ => rfl,?_⟩
    rintro ⟨route,hmem,hmatch⟩
    exact absurd hmatch (hnone route hmem)
  · by_cases httl : 2 ≤ d.header.ttl.toNat
    · have hvalid := hl.valid httl route hroute
      let a := r.interfaces[route.interfaceNum]
      have hget : r.interfaces[route.interfaceNum]? = some a := List.getElem?_eq_getElem hvalid
      have hmem : a ∈ r.interfaces := List.getElem_mem hvalid
      have hver' : (lowerTTL d).header.ver = 4 := hver
      obtain ⟨s,hsend,hs⟩ := sendDatagram_sends (h.wf a hmem) hver'
        (route.entry.nextHop.getD d.header.dst)
      let b : AsyncNetworkInterface := { a with toNetworkInterface := s }
      refine ⟨{ r with interfaces := r.interfaces.set route.interfaceNum b },
        [⟨route.interfaceNum,route.entry.nextHop.getD d.header.dst,lowerTTL d⟩],?_,
        h.set route.interfaceNum hs (h.version a hmem),?_,?_,?_⟩
      · simp only [forwardLogged,hscan,if_neg ((ttl_iff d).mpr httl),hget,hsend]
        rfl
      · intro j
        rw [waiting_set r hvalid]
        split_ifs with hj
        · rw [← hj,waiting,hget]
        · rfl
      · rintro (hnone | hlow)
        · exact absurd hroute.matched (hnone route hroute.mem)
        · exact absurd httl (Nat.not_le.mpr hlow)
      · exact fun _ _ => ⟨route,hroute,rfl⟩
    · have hlow : d.header.ttl = 1 ∨ d.header.ttl = 0 := by
        by_contra hnot
        exact httl ((ttl_iff d).mp hnot)
      refine ⟨r,[],?_,⟨rfl,rfl,h⟩,fun _ => rfl,fun _ => rfl,fun _ h₂ => absurd h₂ httl⟩
      simp only [forwardLogged,hscan,if_pos hlow]

/-- A datagram whose lookup is not defined is not survived. -/
theorem forwardLogged_lookup {out : (Router × Except RuntimeError Unit) × List Send}
    (hs : r.forwardLogged d = .ok out) : Lookup r d := by
  have hlen : ∀ route ∈ consulted r.routerTable, route.entry.prefixLength.toNat ≤ 32 := by
    unfold forwardLogged at hs
    cases hscan : scan d.header.dst (consulted r.routerTable) 0 none with
    | error f => simp [hscan] at hs
    | ok matched => exact scan_lengths hscan
  refine ⟨hlen,?_⟩
  intro httl route hroute
  rcases scan_longest r.routerTable d.header.dst hlen with ⟨hnone,-⟩ | ⟨last,-,hlast,hscan⟩
  · exact absurd hroute.matched (hnone route hroute.mem)
  · simp only [forwardLogged,hscan,if_neg ((ttl_iff d).mpr httl)] at hs
    refine Nat.lt_of_le_of_lt (hlast route hroute) ?_
    by_contra hout
    rw [List.getElem?_eq_none (by omega)] at hs
    cases hs

theorem routeInterfaceLogged_ok (h : Ready r) (hi : i < r.interfaces.length)
    (hl : ∀ d ∈ (r.waiting i).head?, Lookup r d) :
    ∃ r' log, r.routeInterfaceLogged i = .ok ((r',.ok ()),log) ∧ Keeps r r' ∧
      (∀ j, r'.waiting j = if i = j then (r.waiting i).tail else r.waiting j) ∧
      log.map Handled.datagram = (r.waiting i).head?.toList ∧
      ∀ x ∈ log, Decision r.routerTable x := by
  let a := r.interfaces[i]
  have hget : r.interfaces[i]? = some a := List.getElem?_eq_getElem hi
  have hmem : a ∈ r.interfaces := List.getElem_mem hi
  have hwait : r.waiting i = a.datagramsIn := by rw [waiting,hget]
  rw [hwait] at hl ⊢
  cases hin : a.datagramsIn with
  | nil =>
    refine ⟨r,[],?_,⟨rfl,rfl,h⟩,?_,rfl,by simp⟩
    · simp only [routeInterfaceLogged,hget,AsyncNetworkInterface.maybeReceive,hin]
    · intro j
      split_ifs with hj
      · rw [← hj,hwait,hin]
        rfl
      · rfl
  | cons d ds =>
    rw [hin] at hl
    let b : AsyncNetworkInterface := { a with datagramsIn := ds }
    have hversion : ∀ x ∈ d::ds, x.header.ver = 4 := by
      rw [← hin]
      exact h.version a hmem
    have hkeeps : Keeps r { r with interfaces := r.interfaces.set i b } :=
      h.set i (h.wf a hmem) fun x hx => hversion x (List.mem_cons_of_mem _ hx)
    obtain ⟨r',sends,hforward,hkeeps',hwait',hdecision⟩ := forwardLogged_ok hkeeps.ready
      (hversion d List.mem_cons_self) ((Lookup.keeps hkeeps).mpr (hl d rfl))
    refine ⟨r',[⟨d,sends⟩],?_,⟨hkeeps'.table.trans hkeeps.table,
      hkeeps'.length.trans hkeeps.length,hkeeps'.ready⟩,?_,rfl,?_⟩
    · simp only [routeInterfaceLogged,hget,AsyncNetworkInterface.maybeReceive,hin]
      rw [hforward]
    · intro j
      rw [hwait',waiting_set r hi]
      rfl
    · intro x hx
      rw [List.mem_singleton.mp hx]
      exact hdecision

theorem routeInterfaceLogged_lookup {out : (Router × Except RuntimeError Unit) × List Handled}
    (hs : r.routeInterfaceLogged i = .ok out) : ∀ d ∈ (r.waiting i).head?, Lookup r d := by
  intro d hd
  unfold routeInterfaceLogged at hs
  unfold waiting at hd
  cases hget : r.interfaces[i]? with
  | none => simp [hget] at hd
  | some a =>
    simp only [hget] at hs hd
    cases hin : a.datagramsIn with
    | nil => simp [hin] at hd
    | cons d' ds =>
      rw [hin] at hd
      obtain rfl := Option.some.inj hd
      simp only [AsyncNetworkInterface.maybeReceive,hin] at hs
      split at hs
      · cases hs
      · rename_i hforward
        have hl := forwardLogged_lookup hforward
        exact ⟨hl.lengths,fun httl route hroute => by simpa using hl.valid httl route hroute⟩

theorem routeFromLogged_ok (is : List ℕ) (hnodup : is.Nodup) (h : Ready r)
    (his : ∀ i ∈ is, i < r.interfaces.length)
    (hl : ∀ i ∈ is, ∀ d ∈ (r.waiting i).head?, Lookup r d) :
    ∃ r' log, routeFromLogged is r = .ok ((r',.ok ()),log) ∧ Keeps r r' ∧
      (∀ j, r'.waiting j = if j ∈ is then (r.waiting j).tail else r.waiting j) ∧
      log.map Handled.datagram = is.flatMap (fun i => (r.waiting i).head?.toList) ∧
      ∀ x ∈ log, Decision r.routerTable x := by
  induction is generalizing r with
  | nil => exact ⟨r,[],rfl,⟨rfl,rfl,h⟩,by simp,rfl,by simp⟩
  | cons i is ih =>
    obtain ⟨hi,hnodup⟩ := List.nodup_cons.mp hnodup
    obtain ⟨t,log,hstep,hkeeps,hwait,hlog,hdecision⟩ := routeInterfaceLogged_ok h
      (his i List.mem_cons_self) (hl i List.mem_cons_self)
    -- the interfaces that are still to come have what they had
    have hsame : ∀ j ∈ is, t.waiting j = r.waiting j := by
      intro j hj
      rw [hwait,if_neg]
      rintro rfl
      exact hi hj
    obtain ⟨r',rest,hrun,hkeeps',hwait',hrest,hdecision'⟩ := ih hnodup hkeeps.ready
      (fun j hj => hkeeps.length ▸ his j (List.mem_cons_of_mem _ hj))
      (fun j hj d hd => (Lookup.keeps hkeeps).mpr
        (hl j (List.mem_cons_of_mem _ hj) d (hsame j hj ▸ hd)))
    refine ⟨r',log ++ rest,?_,⟨hkeeps'.table.trans hkeeps.table,
      hkeeps'.length.trans hkeeps.length,hkeeps'.ready⟩,?_,?_,?_⟩
    · rw [routeFromLogged,hstep]
      simp only [hrun]
    · intro j
      rw [hwait']
      by_cases hj : j ∈ is
      · rw [if_pos hj,if_pos (List.mem_cons_of_mem _ hj),hsame j hj]
      · rw [if_neg hj,hwait]
        by_cases hij : i = j
        · rw [if_pos hij,if_pos (by simp [hij]),hij]
        · rw [if_neg hij,if_neg (by simp [hj,Ne.symm hij])]
    · rw [List.map_append,hlog,hrest,List.flatMap_cons]
      congr 1
      exact List.flatMap_congr fun j hj => by rw [hsame j hj]
    · intro x hx
      rcases List.mem_append.mp hx with hx | hx
      · exact hdecision x hx
      · rw [← hkeeps.table]
        exact hdecision' x hx

theorem routeFromLogged_lookup (is : List ℕ) (hnodup : is.Nodup) (h : Ready r)
    (his : ∀ i ∈ is, i < r.interfaces.length)
    {out : (Router × Except RuntimeError Unit) × List Handled}
    (hs : routeFromLogged is r = .ok out) :
    ∀ i ∈ is, ∀ d ∈ (r.waiting i).head?, Lookup r d := by
  induction is generalizing r out with
  | nil => simp
  | cons i is ih =>
    obtain ⟨hi,hnodup⟩ := List.nodup_cons.mp hnodup
    have hfirst : ∀ d ∈ (r.waiting i).head?, Lookup r d := by
      cases hstep : r.routeInterfaceLogged i with
      | error f => simp [routeFromLogged,hstep] at hs
      | ok first => exact routeInterfaceLogged_lookup hstep
    obtain ⟨t,log,hstep,hkeeps,hwait,-⟩ := routeInterfaceLogged_ok h
      (his i List.mem_cons_self) hfirst
    rw [routeFromLogged,hstep] at hs
    simp only at hs
    cases hrun : routeFromLogged is t with
    | error f => simp [hrun] at hs
    | ok rest =>
      intro j hj d hd
      rcases List.mem_cons.mp hj with rfl | hj
      · exact hfirst d hd
      · have hsame : t.waiting j = r.waiting j := by
          rw [hwait,if_neg]
          rintro rfl
          exact hi hj
        exact (Lookup.keeps hkeeps).mp (ih hnodup hkeeps.ready
          (fun k hk => hkeeps.length ▸ his k (List.mem_cons_of_mem _ hk)) hrun j hj d
          (hsame ▸ hd))

theorem range_waiting (r : Router) :
    (List.range r.interfaces.length).map r.waiting = r.interfaces.map (·.datagramsIn) := by
  apply List.ext_getElem
  · simp
  · intro _ _ h₂
    have hi := by simpa using h₂
    simp [waiting,List.getElem?_eq_getElem hi]

theorem mem_waiting (r : Router) {P : List InternetDatagram → Prop} :
    (∀ i ∈ List.range r.interfaces.length, P (r.waiting i)) ↔
      ∀ a ∈ r.interfaces, P a.datagramsIn := by
  have hall := List.forall_mem_map (f := r.waiting) (l := List.range r.interfaces.length) (P := P)
  rw [range_waiting,List.forall_mem_map] at hall
  exact hall.symm

theorem routeLogged_ok (h : Ready r)
    (hl : ∀ a ∈ r.interfaces, ∀ d ∈ a.datagramsIn.head?, Lookup r d) :
    ∃ r' log, r.routeLogged = .ok ((r',.ok ()),log) ∧ Keeps r r' ∧
      (r'.interfaces.map (·.datagramsIn)) = r.interfaces.map (fun a => a.datagramsIn.tail) ∧
      log.map Handled.datagram = r.interfaces.flatMap (fun a => a.datagramsIn.head?.toList) ∧
      ∀ x ∈ log, Decision r.routerTable x := by
  have hl' := r.mem_waiting (P := fun q => ∀ d ∈ q.head?, Lookup r d) |>.mpr hl
  obtain ⟨r',log,hroute,hkeeps,hwait,hlog,hdecision⟩ := routeFromLogged_ok
    (List.range r.interfaces.length) List.nodup_range h (fun i hi => List.mem_range.mp hi) hl'
  refine ⟨r',log,hroute,hkeeps,?_,?_,hdecision⟩
  · have htails : r.interfaces.map (fun a => a.datagramsIn.tail) =
        (r.interfaces.map (·.datagramsIn)).map List.tail := by simp
    rw [htails,← range_waiting,← range_waiting,hkeeps.length,List.map_map]
    apply List.map_congr_left
    intro i hi
    rw [hwait,if_pos hi]
    rfl
  · have hheads : r.interfaces.flatMap (fun a => a.datagramsIn.head?.toList) =
        (r.interfaces.map (·.datagramsIn)).flatMap (fun q => q.head?.toList) := by
      simp [List.flatMap_map]
    rw [hlog,hheads,← range_waiting,List.flatMap_map]

theorem routeLogged_lookup (h : Ready r)
    {out : (Router × Except RuntimeError Unit) × List Handled} (hs : r.routeLogged = .ok out) :
    ∀ a ∈ r.interfaces, ∀ d ∈ a.datagramsIn.head?, Lookup r d :=
  r.mem_waiting (P := fun q => ∀ d ∈ q.head?, Lookup r d) |>.mp
    (routeFromLogged_lookup (List.range r.interfaces.length) List.nodup_range h
      (fun _ hi => List.mem_range.mp hi) hs)

variable {tr : RouterRuns.Trace} {r₀ : Router} {op : RouterRuns.Op} {out : RouterRuns.Output}

/-- All interfaces are as they were made. -/
def New (r : Router) : Prop :=
  ∀ a ∈ r.interfaces, ∃ eth ip, a = AsyncNetworkInterface.new eth ip

theorem New.ready (h : New r) : Ready r := by
  constructor
  · intro a ha
    obtain ⟨eth,ip,rfl⟩ := h a ha
    exact NetworkInterface.new_wf eth ip
  · intro a ha d hd
    obtain ⟨eth,ip,rfl⟩ := h a ha
    cases hd

theorem Ready.recvFrame (h : Ready r) {frame : EthernetFrame}
    (hs : RouterRuns.onInterface r i (RouterRuns.recvFrameOn frame) = .ok (r',out)) :
    Ready r' := by
  obtain ⟨a,a',ha,hcall,rfl⟩ := RouterRuns.onInterface_ok hs
  obtain ⟨s,res,hrecv,⟨rfl,-⟩ | ⟨d,rfl,rfl,-⟩⟩ := RouterRuns.recvFrameOn_ok hcall
  · exact (h.set i (a := ⟨s,a.datagramsIn⟩) ((h.wf a ha).recvFrame hrecv) (h.version a ha)).ready
  · refine (h.set i (a := ⟨s,a.datagramsIn ++ [d]⟩) ((h.wf a ha).recvFrame hrecv) ?_).ready
    intro x hx
    rcases List.mem_append.mp hx with hx | hx
    · exact h.version a ha x hx
    · rw [List.mem_singleton.mp hx]
      exact (RouterRuns.recvFrame_fresh hrecv).ver

theorem Ready.route (h : Ready r) {res : Except RuntimeError Unit}
    (hs : r.route = .ok (r',res)) : Ready r' := by
  rw [← routeLogged_fst] at hs
  cases hlogged : r.routeLogged with
  | error f => simp [hlogged,Except.map] at hs
  | ok logged =>
    obtain ⟨t,log,hroute,hkeeps,-⟩ := routeLogged_ok h (routeLogged_lookup h hlogged)
    rw [hroute] at hs
    obtain ⟨rfl,-⟩ := Prod.mk.inj (Except.ok.inj hs)
    exact hkeeps.ready

theorem Ready.step (h : Ready r) (hs : RouterRuns.step r op = .ok (r',out)) : Ready r' := by
  cases op with
  | addRoute route =>
    cases hs
    exact ⟨h.wf,h.version⟩
  | recvFrame i frame => exact h.recvFrame hs
  | route =>
    simp only [RouterRuns.step] at hs
    split at hs
    · cases hs
    · rename_i t res hroute
      cases hs
      exact h.route hroute
  | tick i ms =>
    have hs : RouterRuns.onInterface r i (RouterRuns.tickOn ms) = .ok (r',out) := hs
    obtain ⟨a,a',ha,hcall,rfl⟩ := RouterRuns.onInterface_ok hs
    cases hcall
    exact (h.set i (a := ⟨a.toNetworkInterface.tick ms,a.datagramsIn⟩) ((h.wf a ha).tick ms)
      (h.version a ha)).ready
  | maybeSend i =>
    have hs : RouterRuns.onInterface r i RouterRuns.maybeSendOn = .ok (r',out) := hs
    obtain ⟨a,a',ha,hcall,rfl⟩ := RouterRuns.onInterface_ok hs
    cases hcall
    exact (h.set i (a := ⟨a.toNetworkInterface.maybeSend.1,a.datagramsIn⟩)
      (h.wf a ha).maybeSend (h.version a ha)).ready

theorem run_ready (hnew : New r₀) (hr : Run RouterRuns.step r₀ tr r) : Ready r :=
  Run.invariant Ready (fun _ => True) hnew.ready (fun h _ hs => h.step hs) hr fun _ _ => trivial

theorem twoInterfaces_new : New RouterRuns.twoInterfaces := by
  intro a ha
  rcases List.mem_cons.mp ha with rfl | ha
  · exact ⟨_,_,rfl⟩
  · rw [List.mem_singleton.mp ha]
    exact ⟨_,_,rfl⟩

/-- The lengths and the interface numbers of the table are valid. -/
structure Valid (r : Router) : Prop where
  lengths : ∀ route ∈ consulted r.routerTable, route.entry.prefixLength.toNat ≤ 32
  interfaces : ∀ route ∈ consulted r.routerTable, route.interfaceNum < r.interfaces.length

/-- The datagram with its time to live lowered by one, and otherwise the same but for the
checksum. -/
structure Lowered (d d' : InternetDatagram) : Prop where
  ttl : d'.header.ttl.toNat + 1 = d.header.ttl.toNat
  header : d'.header = { d.header with ttl := d'.header.ttl, cksum := d'.header.cksum }
  payload : d'.payload = d.payload

theorem lowered (httl : 2 ≤ d.header.ttl.toNat) : Lowered d (lowerTTL d) := by
  refine ⟨?_,rfl,rfl⟩
  change (d.header.ttl - 1).toNat + 1 = d.header.ttl.toNat
  have hone : (1 : UInt8).toNat = 1 := rfl
  rw [UInt8.toNat_sub_of_le _ _ (UInt8.le_iff_toNat_le.mpr (by omega)),hone]
  omega

/-- Nothing is sent, or one datagram on the longest match. -/
structure ByLongestPrefix (table : Table) (h : Handled) : Prop where
  dropped : (∀ route ∈ consulted table, ¬ Matches h.datagram.header.dst route) ∨
    h.datagram.header.ttl = 0 ∨ h.datagram.header.ttl = 1 → h.sends = []
  forwarded : ¬ ((∀ route ∈ consulted table, ¬ Matches h.datagram.header.dst route) ∨
    h.datagram.header.ttl = 0 ∨ h.datagram.header.ttl = 1) →
    ∃ route d, Longest table h.datagram.header.dst route ∧ Lowered h.datagram d ∧
      h.sends = [⟨route.interfaceNum,route.entry.nextHop.getD h.datagram.header.dst,d⟩]

theorem Decision.byLongestPrefix {table : Table} {x : Handled} (h : Decision table x) :
    ByLongestPrefix table x := by
  have httl := ttl_iff x.datagram
  constructor
  · rintro (hnone | hlow)
    · exact h.dropped (Or.inl hnone)
    · refine h.dropped (Or.inr (Nat.not_le.mp fun hle => ?_))
      exact httl.mpr hle hlow.symm
  · intro hnot
    obtain ⟨hmatch,hhigh⟩ := not_or.mp hnot
    have hle : 2 ≤ x.datagram.header.ttl.toNat := httl.mp fun hlow => hhigh hlow.symm
    obtain ⟨route,hroute,hsends⟩ := h.forwarded (by
      by_contra hnone
      exact hmatch fun route hmem hm => hnone ⟨route,hmem,hm⟩) hle
    exact ⟨route,lowerTTL x.datagram,hroute,lowered hle,hsends⟩

/-- With a valid table `route()` ends, and each datagram that it takes is dropped or sent on by
longest prefix. -/
theorem route_by_longest_prefix (hnew : New r₀) (hr : Run RouterRuns.step r₀ tr r)
    (hvalid : Valid r) : ∃ r' log, r.route = .ok (r',.ok ()) ∧
      r.routeLogged = .ok ((r',.ok ()),log) ∧
      log.map Handled.datagram = r.interfaces.flatMap (fun a => a.datagramsIn.head?.toList) ∧
      ∀ x ∈ log, ByLongestPrefix r.routerTable x := by
  obtain ⟨r',log,hroute,-,-,hlog,hdecision⟩ := routeLogged_ok (run_ready hnew hr)
    fun a ha d hd => ⟨hvalid.lengths,fun _ route hroute => hvalid.interfaces route hroute.mem⟩
  refine ⟨r',log,?_,hroute,hlog,fun x hx => (hdecision x hx).byLongestPrefix⟩
  rw [← routeLogged_fst,hroute]
  rfl

def broadcastFrame (dst : Address) : EthernetFrame :=
  let header : IPv4Header := { dst }
  { RouterRuns.validFrame with
    header := { RouterRuns.validFrame.header with dst := ETHERNET_BROADCAST }
    payload := [{ header with cksum := header.checksum }.bytes] }

/-- Four routes that match `7`, of the lengths 0, 24, 24 and 30; all but the last one match `200`. -/
def overlappingOps : List RouterRuns.Op :=
  [.addRoute ⟨⟨0,0,none⟩,0⟩,.addRoute ⟨⟨0,24,some 3⟩,0⟩,.addRoute ⟨⟨0,24,some 5⟩,1⟩,
    .addRoute ⟨⟨4,30,none⟩,1⟩,.recvFrame 0 (broadcastFrame 7),.recvFrame 1 (broadcastFrame 200)]

theorem route_by_longest_prefix_overlapping :
    ∃ tr r, Run RouterRuns.step RouterRuns.twoInterfaces tr r ∧
      (consulted r.routerTable).map (fun x => x.entry.prefixLength) = [0,24,24,30] ∧
      ∃ r', ∃ log : List Handled, r.route = .ok (r',.ok ()) ∧
        log.map (fun x => x.datagram.header.dst) = [7,200] ∧
        ∀ x ∈ log, ByLongestPrefix r.routerTable x := by
  obtain ⟨tr,r,hr,htable,hlengths,hinterfaces,hwaiting⟩ := Run.exists_of_exec RouterRuns.step
    RouterRuns.twoInterfaces overlappingOps
    (fun _ r => (consulted r.routerTable).map (fun x => x.entry.prefixLength) = [0,24,24,30] ∧
      (∀ route ∈ consulted r.routerTable, route.entry.prefixLength.toNat ≤ 32) ∧
      (∀ route ∈ consulted r.routerTable, route.interfaceNum < r.interfaces.length) ∧
      (r.interfaces.flatMap (fun a => a.datagramsIn.head?.toList)).map (fun d => d.header.dst) =
        [7,200])
    (by decide +kernel)
  obtain ⟨r',log,hroute,-,hlog,hdecision⟩ :=
    route_by_longest_prefix twoInterfaces_new hr ⟨hlengths,hinterfaces⟩
  refine ⟨tr,r,hr,htable,r',log,hroute,?_,hdecision⟩
  rw [← hwaiting,← hlog,List.map_map]
  rfl

/-- One call of `route()` takes every datagram that waits, and hands it to `send_datagram` once
or drops it. -/
def Consumes (r : Router) : Prop :=
  ∃ r' log, r.routeLogged = .ok ((r',.ok ()),log) ∧
    (∀ a ∈ r'.interfaces, a.datagramsIn = []) ∧
    (log.map Handled.datagram).Perm (r.interfaces.flatMap (·.datagramsIn)) ∧
    ∀ x ∈ log,
      if (∃ route ∈ consulted r.routerTable, Matches x.datagram.header.dst route) ∧
          2 ≤ x.datagram.header.ttl.toNat
      then x.sends.map Send.datagram = [lowerTTL x.datagram] else x.sends = []

theorem tail_eq_nil_iff (ds : List InternetDatagram) : ds.tail = [] ↔ ds.length ≤ 1 := by
  rw [← List.length_eq_zero_iff,List.length_tail]
  omega

theorem toList_head?_eq (ds : List InternetDatagram) (h : ds.length ≤ 1) :
    ds.head?.toList = ds := by
  match ds with
  | [] => rfl
  | [d] => rfl

theorem Consumes.queues (h : Ready r) (hc : Consumes r) : ∀ a ∈ r.interfaces,
    a.datagramsIn.length ≤ 1 ∧ ∀ d ∈ a.datagramsIn, Lookup r d := by
  obtain ⟨r',log,hroute,hempty,-⟩ := hc
  intro a ha
  have hl := routeLogged_lookup h hroute
  obtain ⟨t,_,hroute',-,htails,-⟩ := routeLogged_ok h hl
  obtain ⟨⟨rfl,-⟩,-⟩ := by simpa using Except.ok.inj (hroute.symm.trans hroute')
  have htail : a.datagramsIn.tail ∈ r'.interfaces.map (·.datagramsIn) := by
    rw [htails]
    exact List.mem_map.mpr ⟨a,ha,rfl⟩
  obtain ⟨b,hb,hbtail⟩ := List.mem_map.mp htail
  have hone := (tail_eq_nil_iff a.datagramsIn).mp (hbtail.symm.trans (hempty b hb))
  refine ⟨hone,?_⟩
  intro d hd
  rw [← toList_head?_eq _ hone] at hd
  exact hl a ha d (by simpa using hd)

theorem consumes_of_queues (h : Ready r) (hall : ∀ a ∈ r.interfaces,
    a.datagramsIn.length ≤ 1 ∧ ∀ d ∈ a.datagramsIn, Lookup r d) : Consumes r := by
  obtain ⟨r',log,hroute,-,htails,hlog,hdecision⟩ := routeLogged_ok h
    fun a ha d hd => (hall a ha).2 d (List.mem_of_mem_head? hd)
  refine ⟨r',log,hroute,?_,?_,?_⟩
  · intro a ha
    have hin : a.datagramsIn ∈ r'.interfaces.map (·.datagramsIn) := List.mem_map.mpr ⟨a,ha,rfl⟩
    rw [htails] at hin
    obtain ⟨b,hb,hbtail⟩ := List.mem_map.mp hin
    rw [← hbtail]
    exact (tail_eq_nil_iff _).mpr (hall b hb).1
  · rw [hlog]
    apply List.Perm.of_eq
    exact List.flatMap_congr fun a ha => toList_head?_eq _ (hall a ha).1
  · intro x hx
    split_ifs with hmatch
    · obtain ⟨route,-,hsends⟩ := (hdecision x hx).forwarded hmatch.1 hmatch.2
      rw [hsends]
      rfl
    · refine (hdecision x hx).dropped ?_
      by_contra hnot
      obtain ⟨hsome,hhigh⟩ := not_or.mp hnot
      refine hmatch ⟨?_,Nat.not_lt.mp hhigh⟩
      by_contra hnone
      exact hsome fun route hmem hm => hnone ⟨route,hmem,hm⟩

/-- Exactly when at most one datagram waits at each interface, and can be looked up. -/
theorem consumes_iff (hnew : New r₀) (hr : Run RouterRuns.step r₀ tr r) :
    Consumes r ↔ ∀ a ∈ r.interfaces, a.datagramsIn.length ≤ 1 ∧
      ∀ d ∈ a.datagramsIn, Lookup r d :=
  ⟨Consumes.queues (run_ready hnew hr),consumes_of_queues (run_ready hnew hr)⟩

theorem consumes_iff_one : ∃ tr r, Run RouterRuns.step RouterRuns.twoInterfaces tr r ∧
    (∃ a ∈ r.interfaces, a.datagramsIn ≠ []) ∧ Consumes r := by
  obtain ⟨tr,r,hr,hsome,hone,hlengths,hinterfaces⟩ := Run.exists_of_exec RouterRuns.step
    RouterRuns.twoInterfaces [.addRoute ⟨⟨0,0,none⟩,1⟩,.recvFrame 0 RouterRuns.validFrame]
    (fun _ r => (∃ a ∈ r.interfaces, a.datagramsIn ≠ []) ∧
      (∀ a ∈ r.interfaces, a.datagramsIn.length ≤ 1) ∧
      (∀ route ∈ consulted r.routerTable, route.entry.prefixLength.toNat ≤ 32) ∧
      ∀ route ∈ consulted r.routerTable, route.interfaceNum < r.interfaces.length)
    (by decide +kernel)
  refine ⟨tr,r,hr,hsome,(consumes_iff twoInterfaces_new hr).mpr fun a ha => ⟨hone a ha,?_⟩⟩
  exact fun d hd => ⟨hlengths,fun _ route hroute => hinterfaces route hroute.mem⟩

/-- Two datagrams wait at one interface; the table is valid. -/
theorem second_not_consumed : ∃ tr r, Run RouterRuns.step RouterRuns.twoInterfaces tr r ∧
    Valid r ∧ ¬ Consumes r := by
  obtain ⟨tr,r,hr,⟨a,ha,htwo⟩,hlengths,hinterfaces⟩ := Run.exists_of_exec RouterRuns.step
    RouterRuns.twoInterfaces [.addRoute ⟨⟨0,0,none⟩,1⟩,.recvFrame 0 RouterRuns.validFrame,
      .recvFrame 0 RouterRuns.validFrame]
    (fun _ r => (∃ a ∈ r.interfaces, 1 < a.datagramsIn.length) ∧
      (∀ route ∈ consulted r.routerTable, route.entry.prefixLength.toNat ≤ 32) ∧
      ∀ route ∈ consulted r.routerTable, route.interfaceNum < r.interfaces.length)
    (by decide +kernel)
  refine ⟨tr,r,hr,⟨hlengths,hinterfaces⟩,fun hc => ?_⟩
  exact Nat.not_le.mpr htwo (hc.queues (run_ready twoInterfaces_new hr) a ha).1

end Router
end Minnow
