import LinkState.Network.Wiring

/-!
Nodes with their interfaces and stub networks, and the routers on them. Nodes are registered under
their identifier; a router takes the next router ID, also if it then cannot be attached.
-/

namespace LinkState

namespace Network

/-- Sets the node of an identifier, in place of the one it had before or else as the last. -/
def register (id : String) (k : NodeId) (registry : List (String × NodeId)) :
    List (String × NodeId) :=
  if registry.any (·.1 = id) then registry.map fun e => if e.1 = id then (id, k) else e
  else registry ++ [(id, k)]

def newNode (name : String) : NetworkM NodeId := do
  let id ← newIdentifier "node"
  let table ← newTable id
  modifyGet fun n =>
    let k := n.nodes.size
    (k, { n with
      nodes := n.nodes.push ⟨id, n.nextIndex, name, [], [], table, none⟩
      nextIndex := n.nextIndex + 1
      registry := register id k n.registry })

/-- Forgets all nodes. Those that are still in use go on as before. -/
def clearRegistry : NetworkM Unit := modify fun n => { n with registry := [], nextIndex := 0 }

/-- The interface of a node that has a name. -/
def interfaceNamed? (n : Network) (k : NodeId) (name : String) : Option InterfaceId :=
  (n.node k).interfaces.find? fun i => (n.interface i).name = name

/-- The interface of a node that has an address. -/
def interfaceAt? (n : Network) (k : NodeId) (address : Address) : Option InterfaceId :=
  (n.node k).interfaces.find? fun i => (n.interface i).address = some address

/-- Configures an interface, which gives the node a connected route. -/
def configureInterface (k : NodeId) (name : String) (address : Address) (mask : Mask) :
    NetworkM Bool := do
  match interfaceNamed? (← get) k name with
  | none => return false
  | some i =>
    configureAddress i address mask
    let node := (← get).node k
    modifyRoutes node.table (·.addConnected address mask name)
    info node.id "node:interface-config"
      s!"{node.name}: {name} configured {address.text}/{mask.length}"
    return true

/-- Adds an interface, which is configured if it is given both an address and a mask. -/
def addInterface (k : NodeId) (name : String) (address : Option Address) (mask : Option Mask)
    (medium : Medium) : NetworkM InterfaceId := do
  let n ← get
  if (interfaceNamed? n k name).isSome then throw (.interfaceExists (n.node k).name name)
  let i ← newInterface { Interface.make name medium with nodeId := (n.node k).id }
  modifyNode k fun x => { x with interfaces := x.interfaces ++ [i] }
  match address, mask with
  | some a, some m => discard (configureInterface k name a m)
  | _, _ => pure ()
  return i

def addStub (k : NodeId) (address : Address) (mask : Mask) (cost : Option Number) :
    NetworkM Unit := do
  let cost ← cost.mapM fun n => (Metric.check n .stubCost : Except Fault Metric)
  let network := address.network mask
  modifyNode k fun x => { x with stubs := x.stubs ++ [⟨network, mask, cost⟩] }
  let node := (← get).node k
  info node.id "node:stub-add" s!"{node.name}: stub network {network.text}/{mask.length}"

/-- Removes every stub network with the address and mask, and tells whether there was one. -/
def removeStub (k : NodeId) (address : Address) (mask : Mask) : NetworkM Bool := do
  let stubs := ((← get).node k).stubs
  let rest := stubs.filter fun s => !(s.network = address.network mask && s.mask.same mask)
  modifyNode k fun x => { x with stubs := rest }
  return rest.length < stubs.length

/-- The next router ID. -/
def allocateRouterId : NetworkM Address := do
  let next := (← get).nextRouterId
  if next < 0x100000000 then
    modify fun n => { n with nextRouterId := next + 1 }
    return .ofNat next
  else throw .routerIdsExhausted

def resetRouterIds (base : Address) : NetworkM Unit :=
  modify fun n => { n with nextRouterId := base.toNat }

/-- Attaches a router, or none, to a node without another one. -/
def setRouter (k : NodeId) (r : Option RouterId) : NetworkM Unit := do
  let node := (← get).node k
  if node.router.isSome ∧ node.router ≠ r then throw (.routerExists node.name)
  modifyNode k fun x => { x with router := r }

/-- A new router on a node. -/
def newRouter (k : NodeId) (overrides : ConfigOverrides) : NetworkM Unit := do
  let config ← (Config.make overrides : Except Fault Config)
  let id ← allocateRouterId
  let r ← modifyGet fun n =>
    (n.routers.size, { n with routers := n.routers.push ⟨k, id, config, none⟩ })
  setRouter k (some r)
  let node := (← get).node k
  info node.id "router:create" s!"{node.name}: router ID {id.text}"

end Network

end LinkState
