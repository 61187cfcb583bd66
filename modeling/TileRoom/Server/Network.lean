import TileRoom.Server.Link

/-! All connections of a server. They share one registry and take their steps one at
a time, so a request on one of them is over before the next is looked at. -/

namespace TileRoom

structure Peer where
  link : Link
  written : Bytes := []

structure Network where
  registry : Registry := {}
  peers : List Peer := []

namespace Network

def accept (network : Network) (remote : Address) : Network :=
  { network with peers := network.peers ++ [{ link := { remote } }] }

def advancePeer (network : Network) (index : Nat) (step : Link → Registry → LinkStep) :
    Network :=
  match network.peers[index]? with
  | none => network
  | some peer =>
      let result := step peer.link network.registry
      { registry := result.registry
        peers := network.peers.set index
          { link := result.link, written := peer.written ++ result.written } }

def receive (network : Network) (index : Nat) (bytes : Bytes) (now : Nat) (draw : Draw) :
    Network :=
  network.advancePeer index fun link registry => link.receive registry bytes now draw

def receiveEnd (network : Network) (index : Nat) (now : Nat) : Network :=
  network.advancePeer index fun link registry => link.receiveEnd registry now

def busy? (network : Network) : Option Nat :=
  network.peers.findIdx? fun peer => !peer.link.isIdle network.registry

/-- One step of the first connection that is not idle; nothing when all are. -/
def step? (network : Network) (now : Nat) : Option Network :=
  network.busy?.map fun index =>
    network.advancePeer index fun link registry => link.advance registry now

def takeWritten (network : Network) : List Bytes × Network :=
  (network.peers.map (·.written),
    { network with peers := network.peers.map ({ · with written := [] }) })

end Network

end TileRoom
