import LinkState.Network.Databases
import LinkState.Network.Paths
import LinkState.Network.Tables

/-!
Filling the tables of nodes: a database built from their routers, then for each router the routes
of its shortest-path tree in place of those it had. The store is told of both.
-/

namespace LinkState

namespace Network

/-- The source of the events of managers. -/
def managerSource : String := "route-manager"

/-- A manager with a database and a store of its own. -/
def newManager (nodes : Option (List NodeId)) : NetworkM ManagerId := do
  let d ← newDatabase
  let s ← newSearcher d
  let store ← newStore
  modifyGet fun n => (n.managers.size, { n with managers := n.managers.push ⟨d, s, store, nodes⟩ })

/-- The nodes that a manager considers. -/
def nodesOf (n : Network) (m : ManagerId) : List NodeId :=
  (n.manager m).nodes.getD n.registeredNodes

/-- An action on a store, which its listeners take note of. -/
def act (s : StoreId) (update : RoutingState → RoutingUpdate) : NetworkM Unit :=
  modify fun n =>
    let (notes, store) := n.environment.stores.set update (n.store s)
    { n with stores := n.stores.setIfInBounds s store, notes := n.notes ++ notes }

/-- A new listener of a store, numbered over all stores. -/
def subscribe (s : StoreId) : NetworkM Nat :=
  modifyGet fun n =>
    (n.nextListener,
      { n with
        stores := n.stores.modify s (n.environment.stores.subscribe n.nextListener)
        nextListener := n.nextListener + 1 })

def unsubscribe (listener : Nat) : NetworkM Unit :=
  modify fun n => { n with stores := n.stores.map (n.environment.stores.unsubscribe listener) }

/-- What the listeners noted since it was last asked for. -/
def takeNotes : NetworkM (Array Note) := modifyGet fun n => (n.notes, { n with notes := #[] })

/-- Builds the database of a manager. -/
def buildDatabase (m : ManagerId) : NetworkM BuildReport := do
  let manager := (← get).manager m
  let report ← build manager.database ((← get).nodesOf m)
  act manager.store (.recordBuild report.summary)
  unless report.failures.isEmpty do
    let names := String.intercalate ", " (report.failures.map (·.nodeName))
    warn managerSource "route-manager:build"
      s!"{report.failures.length} router(s) failed discovery: {names}"
  return report

/-- The route counts so far, by node and in total. -/
structure Installed where
  tally : Tally
  total : Nat
deriving Inhabited

/-- Replaces the computed routes of a node, if it has a router. -/
def installNode (s : SearcherId) (done : Installed) (k : NodeId) : NetworkM Installed := do
  match (← get).routerOf k with
  | none => return done
  | some router =>
    let tree ← calculate s router.id
    let n ← get
    let node := n.node k
    let routes ← (tree.routes n.environment.names (n.interfacesOf k) :
      Except Fault (List (Route Nat)))
    let count ← replaceRoutes node.table .global (routes.map (·.map .ofNat))
    let done := ⟨done.tally.record node.name (.ofNat count), done.total + count⟩
    let stats := ((← get).searcher s).stats
    log .info node.id "route-manager:install" s!"{node.name}: {count} global routes installed"
      (some (.record (textDatum "routerId" router.id.text :: statsDatum stats)))
    return done

/-- Replaces the computed routes of all nodes with a router, in ascending order of index, and
returns their number. -/
def initializeRoutes (m : ManagerId) : NetworkM Nat := do
  let manager := (← get).manager m
  let nodes := (← get).byIndex ((← get).nodesOf m)
  let done ← nodes.foldlM (installNode manager.searcher) ⟨[], 0⟩
  act manager.store (.recordRoutes done.tally)
  return done.total

/-- Builds the database, then replaces the routes. -/
def populate (m : ManagerId) : NetworkM BuildReport := do
  let report ← buildDatabase m
  discard (initializeRoutes m)
  return report

end Network

end LinkState
