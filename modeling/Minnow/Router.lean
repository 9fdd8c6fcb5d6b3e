import Minnow.NetworkInterface
import Minnow.RoutingTable

/-! The router: it takes datagrams from its interfaces, and forwards each one on the interface
of the longest prefix that matches. -/
namespace Minnow

open Library

/-- An interface that keeps the datagrams it receives until they are taken. -/
structure AsyncNetworkInterface extends NetworkInterface where
  datagramsIn : List InternetDatagram

namespace AsyncNetworkInterface

def new (ethernetAddress : EthernetAddress) (ipAddress : Address) : AsyncNetworkInterface :=
  ⟨NetworkInterface.new ethernetAddress ipAddress,[]⟩

/-- The result is the datagram that was queued. -/
def recvFrame (a : AsyncNetworkInterface) (frame : EthernetFrame) :
    Except Fault (AsyncNetworkInterface × Except RuntimeError (Option InternetDatagram)) :=
  match a.toNetworkInterface.recvFrame frame with
  | .error f => .error f
  | .ok (s,.error e) => .ok ({ a with toNetworkInterface := s },.error e)
  | .ok (s,.ok none) => .ok ({ a with toNetworkInterface := s },.ok none)
  | .ok (s,.ok (some dgram)) => .ok (⟨s,a.datagramsIn ++ [dgram]⟩,.ok (some dgram))

def maybeReceive (a : AsyncNetworkInterface) : AsyncNetworkInterface × Option InternetDatagram :=
  match a.datagramsIn with
  | [] => (a,none)
  | datagram::datagrams => ({ a with datagramsIn := datagrams },some datagram)

end AsyncNetworkInterface

structure Router where
  interfaces : List AsyncNetworkInterface
  routerTable : RoutingTable.Table

namespace Router

abbrev Result := Except Fault (Router × Except RuntimeError Unit)

def addRoute (r : Router) (route : RoutingTable.Route) : Router :=
  { r with routerTable := RoutingTable.addRoute r.routerTable route }

/-- The scan over the table: a match that is at least as long as the best one so far replaces it.
The best one is its interface number and next hop. -/
def scan (dstIpv4 : Address) : List RoutingTable.Route → UInt8 → Option (ℕ × Option Address) →
    Except Fault (Option (ℕ × Option Address))
  | [], _, matched => .ok matched
  | route::routes, maxMatchedLen, matched =>
    match RoutingTable.ipPrefixMatched dstIpv4 route.entry.routePrefix route.entry.prefixLength with
    | .error f => .error f
    | .ok b =>
      if b = true ∧ maxMatchedLen ≤ route.entry.prefixLength then
        scan dstIpv4 routes route.entry.prefixLength (some (route.interfaceNum,route.entry.nextHop))
      else scan dstIpv4 routes maxMatchedLen matched

/-- The time to live lowered by one; the checksum stays as it is. -/
def lowerTTL (datagram : InternetDatagram) : InternetDatagram :=
  { datagram with header := { datagram.header with ttl := datagram.header.ttl - 1 } }

def forward (r : Router) (datagram : InternetDatagram) : Result :=
  match scan datagram.header.dst (RoutingTable.consulted r.routerTable) 0 none with
  | .error f => .error f
  | .ok none => .ok (r,.ok ())
  | .ok (some (index,nextHop)) =>
    if datagram.header.ttl = 1 ∨ datagram.header.ttl = 0 then .ok (r,.ok ())
    else
      match r.interfaces[index]? with
      | none => .error .outOfRange
      | some interface =>
        match interface.toNetworkInterface.sendDatagram (lowerTTL datagram)
            (nextHop.getD datagram.header.dst) with
        | .error f => .error f
        | .ok (s,res) => .ok ({ r with
            interfaces := r.interfaces.set index { interface with toNetworkInterface := s } },res)

def routeInterface (r : Router) (i : ℕ) : Result :=
  match r.interfaces[i]? with
  | none => .error .outOfRange
  | some interface =>
    match interface.maybeReceive with
    | (_,none) => .ok (r,.ok ())
    | (interface,some datagram) =>
      forward { r with interfaces := r.interfaces.set i interface } datagram

/-- The loop over the interfaces; an exception leaves it. -/
def routeFrom : List ℕ → Router → Result
  | [], r => .ok (r,.ok ())
  | i::is, r =>
    match r.routeInterface i with
    | .error f => .error f
    | .ok (r,.error e) => .ok (r,.error e)
    | .ok (r,.ok ()) => routeFrom is r

def route (r : Router) : Result := routeFrom (List.range r.interfaces.length) r

end Router
end Minnow
