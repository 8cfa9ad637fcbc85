import LinkState.Network

/-!
What a router advertises. Each interface of its node is looked at on its own, in `sighting`; those
of well-formed channels to another router give a link to that router, those with an address and no
channel a stub network, and each configured stub network gives one more. An interface on a channel
with other than two ends leaves the router without an advertisement.
-/

namespace LinkState

/-- What an interface contributes to the advertisement of its router, or why it does not. -/
inductive Sighting where
  /-- Left out as administratively down. -/
  | down
  /-- Nothing to advertise. -/
  | nothing
  | record (r : LinkRecord)
  /-- A stub network whose mask has no form as an address. -/
  | unusableMask (fault : Fault)
  | malformed (channel : MalformedChannel)
  | noAddress
  | peerDown (channelId : String)
  | peerNotRouter (channelId : String)
deriving DecidableEq

namespace Network

/-- The cost of an interface, or else the configured one. -/
def costOf (c : Config) (x : Interface) : Metric := x.cost.getD c.interfaceCost

/-- The router of the node that an interface belongs to. -/
def ownerRouter? (n : Network) (i : InterfaceId) : Option Router :=
  (n.registered? (n.interface i).nodeId).bind n.routerOf

/-- A stub network as a link record. -/
def stubRecord (network : Address) (mask : Mask) (cost : Metric) : Except Fault LinkRecord := do
  return ⟨.stubNetwork, network, ← mask.toAddress, cost⟩

/-- An interface that is on no channel. -/
def sightStub (c : Config) (x : Interface) : Sighting :=
  match x.address, x.mask with
  | some address, some mask =>
    if c.advertiseUnconnected.isOn then
      match stubRecord (address.network mask) mask (costOf c x) with
      | .ok r => .record r
      | .error f => .unusableMask f
    else .nothing
  | _, _ => .nothing

/-- An interface with an address on a channel with two ends. -/
def sightLink (n : Network) (c : Config) (i : InterfaceId) (channel : Channel)
    (address : Address) : Sighting :=
  match (channel.peer? i).filter fun j => !c.skipDown.isOn || (n.interface j).isUp with
  | none => .peerDown channel.id
  | some j =>
    match n.ownerRouter? j with
    | none => .peerNotRouter channel.id
    | some r => .record ⟨.pointToPoint, r.id, address, costOf c (n.interface i)⟩

def sighting (n : Network) (r : Router) (i : InterfaceId) : Sighting :=
  let x := n.interface i
  if r.config.skipDown.isOn && !x.isUp then .down
  else
    match x.channel.map n.channel with
    | none => sightStub r.config x
    | some channel =>
      if !channel.isPointToPoint then
        .malformed ⟨(n.node r.node).id, channel.id, .ofNat channel.ends.length⟩
      else
        match x.address with
        | none => .noAddress
        | some address => sightLink n r.config i channel address

def textDatum (name value : String) : String × Datum := (name, .text value)

/-- Adds what an interface contributes to the records found so far. -/
def discoverInterface (r : RouterId) (found : List LinkRecord) (i : InterfaceId) :
    NetworkM (List LinkRecord) := do
  let n ← get
  let router := n.router r
  let node := n.node router.node
  let skip (why : String) : NetworkM (List LinkRecord) := do
    debug node.id "router:discover" s!"{(n.interface i).name}: {why}, skipped"
    return found
  match sighting n router i with
  | .down => skip "down"
  | .nothing => return found
  | .record x => return found ++ [x]
  | .unusableMask f => throw f
  | .malformed m =>
    log .error node.id "router:malformed-channel"
      s!"{node.name}: channel {m.channelId} has {m.endpoints.text} endpoints"
      (some (.record [textDatum "channel" m.channelId, ("endpoints", .number m.endpoints)]))
    throw (.malformedChannel m)
  | .noAddress => skip "no IPv4 address"
  | .peerDown channelId => skip s!"peer on {channelId} is down"
  | .peerNotRouter channelId => skip s!"peer on {channelId} is not a router"

def discoverStub (c : Config) (found : List LinkRecord) (s : StubNetwork) :
    NetworkM (List LinkRecord) := do
  return found ++ [← stubRecord s.network s.mask (s.cost.getD c.stubCost)]

/-- Makes the advertisement of a router anew. If that fails it has none. -/
def discover (r : RouterId) : NetworkM Unit := do
  modifyRouter r fun x => { x with advertisement := none }
  let n ← get
  let router := n.router r
  let node := n.node router.node
  let links ← node.interfaces.foldlM (discoverInterface r) []
  let records ← node.stubs.foldlM (discoverStub router.config) links
  modifyRouter r fun x =>
    { x with advertisement := some { Advertisement.ofRouter router.id with records := records } }
  log .info node.id "router:discover" s!"{node.name}: {records.length} link records advertised"
    (some (.record [textDatum "routerId" router.id.text]))

/-- How many advertisements a router has: one, or none. -/
def advertisementCount (n : Network) (r : RouterId) : Nat :=
  (n.router r).advertisement.toList.length

/-- Discovery that tells how many advertisements the router has now. -/
def rediscover (r : RouterId) : NetworkM Nat := do
  discover r
  return (← get).advertisementCount r

end Network

end LinkState
