import LinkState.Collation
import LinkState.Config
import LinkState.Database
import LinkState.Forwarding
import LinkState.Identifier
import LinkState.Interface
import LinkState.Journal
import LinkState.Spf.Search
import LinkState.Store

/-!
The state of a network: its interfaces, channels, nodes and routers, their tables, and the
databases, searches, trees and stores made over them. Things are known by their number and refer to
each other by it. An operation may fail or be stopped by a subscriber of the journal; what it
changed before stays changed.
-/

namespace LinkState

abbrev InterfaceId := Nat

abbrev NodeId := Nat

abbrev RouterId := Nat

abbrev TableId := Nat

abbrev AdvertisementId := Nat

abbrev DatabaseId := Nat

abbrev SearcherId := Nat

abbrev TreeId := Nat

abbrev StoreId := Nat

abbrev ManagerId := Nat

/-- A link between interfaces. It is well formed if it has two ends. -/
structure Channel where
  id : String
  ends : List InterfaceId
deriving DecidableEq, Inhabited

namespace Channel

def isPointToPoint (c : Channel) : Bool := c.ends.length = 2

/-- The other end of a channel with two. -/
def peer? (c : Channel) (i : InterfaceId) : Option InterfaceId :=
  match c.ends with
  | [x, y] => if x = i then some y else if y = i then some x else none
  | _ => none

end Channel

/-- A subnet that a node is configured to advertise, with its cost or none. -/
structure StubNetwork where
  network : Address
  mask : Mask
  cost : Option Metric
deriving DecidableEq, Inhabited

structure Node where
  id : String
  index : Nat
  name : String
  interfaces : List InterfaceId
  stubs : List StubNetwork
  table : TableId
  router : Option RouterId
deriving Inhabited

/-- The routing capability of a node, and what it last found to advertise. -/
structure Router where
  node : NodeId
  id : Address
  config : Config
  advertisement : Option Advertisement
deriving Inhabited

/-- Computes shortest paths over a database and counts what the last search dropped. -/
structure Searcher where
  database : DatabaseId
  stats : SearchStats
deriving Inhabited

/-- Fills the tables of its nodes; without a list of them, of all that are registered. -/
structure Manager where
  database : DatabaseId
  searcher : SearcherId
  store : StoreId
  nodes : Option (List NodeId)
deriving Inhabited

/-- A tree whose vertices share their advertisements with others. -/
abbrev LiveTree := Tree Rat AdvertisementId

/-- What is not up to a network: in which order names come, what the subscribers of its journal do,
and what keeps its stores. -/
structure Environment where
  names : NameOrder
  subscribers : Reactions
  stores : Store.Library

/-- Subscribers do what their subscriptions state. -/
def Environment.standard : Environment := ⟨.plain, Subscription.reaction, .standard⟩

instance : Inhabited Environment := ⟨.standard⟩

structure Network where
  environment : Environment
  journal : Journal
  counter : Nat
  nextIndex : Nat
  nextRouterId : Nat
  registry : List (String × NodeId)
  interfaces : Array Interface
  channels : Array Channel
  nodes : Array Node
  routers : Array Router
  tables : Array ForwardingTable
  advertisements : Array Advertisement
  databases : Array (Database AdvertisementId)
  searchers : Array Searcher
  trees : Array LiveTree
  stores : Array Store
  managers : Array Manager
  nextListener : Nat
  notes : Array Note
deriving Inhabited

/-- The first router ID: `0.0.0.1`. -/
def routerIdBase : Address := ⟨0, 0, 0, 1⟩

namespace Network

/-- A network of which nothing is there yet. -/
def blank (e : Environment) : Network where
  environment := e
  journal := .empty
  counter := 0
  nextIndex := 0
  nextRouterId := routerIdBase.toNat
  registry := []
  interfaces := #[]
  channels := #[]
  nodes := #[]
  routers := #[]
  tables := #[]
  advertisements := #[]
  databases := #[]
  searchers := #[]
  trees := #[]
  stores := #[]
  managers := #[]
  nextListener := 1
  notes := #[]

def empty : Network := blank .standard

def interface (n : Network) (i : InterfaceId) : Interface := n.interfaces.getD i default

def channel (n : Network) (c : ChannelId) : Channel := n.channels.getD c default

def node (n : Network) (k : NodeId) : Node := n.nodes.getD k default

def router (n : Network) (r : RouterId) : Router := n.routers.getD r default

def table (n : Network) (t : TableId) : ForwardingTable := n.tables.getD t default

def advertisement (n : Network) (a : AdvertisementId) : Advertisement :=
  n.advertisements.getD a default

def database (n : Network) (d : DatabaseId) : Database AdvertisementId := n.databases.getD d default

def searcher (n : Network) (s : SearcherId) : Searcher := n.searchers.getD s default

def tree (n : Network) (t : TreeId) : LiveTree := n.trees.getD t default

def store (n : Network) (s : StoreId) : Store := n.stores.getD s default

def manager (n : Network) (m : ManagerId) : Manager := n.managers.getD m default

/-- The interfaces of a node in the order in which they were added. -/
def interfacesOf (n : Network) (k : NodeId) : List Interface :=
  (n.node k).interfaces.map n.interface

def routerOf (n : Network) (k : NodeId) : Option Router := (n.node k).router.map n.router

/-- The node registered under an identifier. -/
def registered? (n : Network) (id : String) : Option NodeId := n.registry.lookup id

/-- Nodes in ascending order of index. -/
def byIndex (n : Network) (ks : List NodeId) : List NodeId :=
  ks.mergeSort fun j k => (n.node j).index ≤ (n.node k).index

def registeredNodes (n : Network) : List NodeId := n.byIndex (n.registry.map Prod.snd)

/-- The advertisements of a database as they are now. -/
def snapshot (n : Network) (d : DatabaseId) : Database Advertisement :=
  (n.database d).map n.advertisement

end Network

/-- An operation on a network. -/
abbrev NetworkM := ExceptT Fault (StateM Network)

namespace Network

/-- Runs an operation on the journal. -/
def withJournal {α : Type} (f : Journal → α × Journal) : NetworkM α :=
  modifyGet fun n =>
    let (a, journal) := f n.journal
    (a, { n with journal := journal })

/-- Publishes an event. A subscriber may stop the operation at this point. -/
def log (level : Level) (source name message : String) (data : Option Datum) : NetworkM Unit := do
  let react := (← get).environment.subscribers
  match ← withJournal (Journal.publishTo react ⟨level, source, name, message, data⟩) with
  | some text => throw (.stopped text)
  | none => pure ()

def debug (source name message : String) : NetworkM Unit := log .debug source name message none

def info (source name message : String) : NetworkM Unit := log .info source name message none

def warn (source name message : String) : NetworkM Unit := log .warn source name message none

def modifyInterface (i : InterfaceId) (f : Interface → Interface) : NetworkM Unit :=
  modify fun n => { n with interfaces := n.interfaces.modify i f }

def modifyChannel (c : ChannelId) (f : Channel → Channel) : NetworkM Unit :=
  modify fun n => { n with channels := n.channels.modify c f }

def modifyNode (k : NodeId) (f : Node → Node) : NetworkM Unit :=
  modify fun n => { n with nodes := n.nodes.modify k f }

def modifyRouter (r : RouterId) (f : Router → Router) : NetworkM Unit :=
  modify fun n => { n with routers := n.routers.modify r f }

def modifyRoutes (t : TableId) (f : Routes → Routes) : NetworkM Unit :=
  modify fun n => { n with tables := n.tables.modify t fun x => { x with routes := f x.routes } }

def modifyAdvertisement (a : AdvertisementId) (f : Advertisement → Advertisement) : NetworkM Unit :=
  modify fun n => { n with advertisements := n.advertisements.modify a f }

def modifyDatabase (d : DatabaseId) (f : Database AdvertisementId → Database AdvertisementId) :
    NetworkM Unit :=
  modify fun n => { n with databases := n.databases.modify d f }

def modifySearcher (s : SearcherId) (f : Searcher → Searcher) : NetworkM Unit :=
  modify fun n => { n with searchers := n.searchers.modify s f }

def newInterface (i : Interface) : NetworkM InterfaceId :=
  modifyGet fun n => (n.interfaces.size, { n with interfaces := n.interfaces.push i })

def newChannel (id : String) : NetworkM ChannelId :=
  modifyGet fun n => (n.channels.size, { n with channels := n.channels.push ⟨id, []⟩ })

def newTable (owner : String) : NetworkM TableId :=
  modifyGet fun n => (n.tables.size, { n with tables := n.tables.push ⟨owner, []⟩ })

def newAdvertisement (a : Advertisement) : NetworkM AdvertisementId :=
  modifyGet fun n => (n.advertisements.size, { n with advertisements := n.advertisements.push a })

def newDatabase : NetworkM DatabaseId :=
  modifyGet fun n => (n.databases.size, { n with databases := n.databases.push .empty })

def newSearcher (d : DatabaseId) : NetworkM SearcherId :=
  modifyGet fun n => (n.searchers.size, { n with searchers := n.searchers.push ⟨d, .zero⟩ })

def newTree (t : LiveTree) : NetworkM TreeId :=
  modifyGet fun n => (n.trees.size, { n with trees := n.trees.push t })

def newStore : NetworkM StoreId :=
  modifyGet fun n =>
    (n.stores.size, { n with stores := n.stores.push (n.environment.stores.create .initial) })

/-- A fresh identifier. -/
def newIdentifier (label : String) : NetworkM String :=
  modifyGet fun n =>
    (Identifier.make label (n.counter + 1), { n with counter := n.counter + 1 })

def resetIdentifiers : NetworkM Unit := modify fun n => { n with counter := 0 }

end Network

end LinkState
