import LinkState.Network

/-!
Attaching interfaces to channels, and their state. An interface is on at most one channel, and on
it exactly if it is among the channel's ends; a channel takes any number of ends.
-/

namespace LinkState

namespace Network

/-- `<node>.<interface>` -/
def endName (i : Interface) : String := s!"{i.nodeId}.{i.name}"

/-- Sets the channel of an interface that is on no other. -/
def occupy (i : InterfaceId) (c : ChannelId) : NetworkM Unit := do
  let n ← get
  match (n.interface i).channel with
  | some d =>
    if d ≠ c then
      throw (.interfaceOccupied (n.interface i).nodeId (n.interface i).name (n.channel d).id)
  | none => pure ()
  modifyInterface i fun x => { x with channel := some c }

def vacate (i : InterfaceId) : NetworkM Unit :=
  modifyInterface i fun x => { x with channel := none }

def attach (c : ChannelId) (i : InterfaceId) : NetworkM Unit := do
  if i ∈ ((← get).channel c).ends then return
  occupy i c
  modifyChannel c fun x => { x with ends := x.ends ++ [i] }
  let n ← get
  let x := n.channel c
  let count := x.ends.length
  if count > 2 then
    warn x.id "channel:attach"
      s!"Channel {x.id}: {count} endpoints attached to a point-to-point channel"
  else
    debug x.id "channel:attach" s!"{endName (n.interface i)} attached to {x.id}"

/-- Attaches two interfaces, one after the other. -/
def connect (c : ChannelId) (i j : InterfaceId) : NetworkM Unit := do
  attach c i
  attach c j
  let n ← get
  info (n.channel c).id "channel:connect"
    s!"Channel connected: {endName (n.interface i)} ↔ {endName (n.interface j)}"

/-- Detaches an interface, if it is an end of the channel. -/
def detach (c : ChannelId) (i : InterfaceId) : NetworkM Bool := do
  if i ∉ ((← get).channel c).ends then return false
  modifyChannel c fun x => { x with ends := x.ends.erase i }
  vacate i
  let n ← get
  let x := n.channel c
  debug x.id "channel:detach" s!"{endName (n.interface i)} detached from {x.id}"
  return true

def disconnect (c : ChannelId) : NetworkM Unit := do
  for i in ((← get).channel c).ends do vacate i
  modifyChannel c fun x => { x with ends := [] }
  let id := ((← get).channel c).id
  info id "channel:disconnect" s!"Channel {id} disconnected"

def configureAddress (i : InterfaceId) (address : Address) (mask : Mask) : NetworkM Unit := do
  modifyInterface i fun x => { x with address := some address, mask := some mask }
  let x := (← get).interface i
  info x.nodeId "port:ip-config" s!"{x.name}: IP set to {address.text}/{mask.length}"

/-- Sets the cost of an interface, or leaves it to the router's configuration. -/
def setCost (i : InterfaceId) (cost : Option Number) : NetworkM Unit := do
  let cost ← cost.mapM fun n => (Metric.check n .interfaceCost : Except Fault Metric)
  modifyInterface i fun x => { x with cost := cost }
  let x := (← get).interface i
  let text := cost.elim "default" Metric.text
  debug x.nodeId "port:cost" s!"{x.name}: cost set to {text}"

def setUp (i : InterfaceId) (up : Bool) : NetworkM Unit := do
  if ((← get).interface i).isUp = up then return
  modifyInterface i fun x => { x with isUp := up }
  let x := (← get).interface i
  let state := if up then "up" else "down"
  info x.nodeId "port:state" s!"{x.name}: {state}"

def setNodeId (i : InterfaceId) (id : String) : NetworkM Unit :=
  modifyInterface i fun x => { x with nodeId := id }

end Network

end LinkState
