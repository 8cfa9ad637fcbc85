import LinkState.Network.Discovery

/-!
Databases of live advertisements, and building one from the routers of some nodes. A database owns
copies of what is put into it, so a change of a copy does not reach the database and what the
database hands out is its own.
-/

namespace LinkState

/-- A router whose discovery met a malformed channel. -/
structure DiscoveryFailure where
  nodeId : String
  nodeName : String
  routerId : Address
  channel : MalformedChannel
deriving DecidableEq

namespace DiscoveryFailure

def summary (f : DiscoveryFailure) : Datum := .record [
  ("nodeName", .text f.nodeName), ("routerId", .text f.routerId.text),
  ("channelId", .text f.channel.channelId), ("message", .text f.channel.error.message)]

end DiscoveryFailure

/-- The routers that were visited, the advertisements put into the database, and the failures. -/
structure BuildReport where
  routers : Nat
  advertisements : Nat
  failures : List DiscoveryFailure
deriving DecidableEq

namespace BuildReport

def empty : BuildReport := ⟨0, 0, []⟩

def summary (r : BuildReport) : Datum := .record [
  ("routers", .number (.ofNat r.routers)),
  ("lsas", .number (.ofNat r.advertisements)),
  ("failures", .list (r.failures.map DiscoveryFailure.summary))]

end BuildReport

namespace Network

/-- Appends the records of one advertisement to another. They are read where they stand, so that
records which the walk itself appends are met too: from an advertisement onto itself it does not
end, which shows in the fuel running out. -/
def copyWalk (target source : AdvertisementId) : Nat → Nat → NetworkM Unit
  | 0, _ => throw .endlessCopy
  | fuel + 1, i => do
    match ((← get).advertisement source).records[i]? with
    | none => pure ()
    | some r =>
      modifyAdvertisement target (·.add r)
      copyWalk target source fuel (i + 1)

def copyRecords (target source : AdvertisementId) : NetworkM Unit := do
  copyWalk target source (((← get).advertisement source).records.length + 1) 0

/-- Makes one advertisement equal to another. -/
def assign (target source : AdvertisementId) : NetworkM Unit := do
  let a := (← get).advertisement source
  modifyAdvertisement target fun _ => a

/-- Puts a copy of an advertisement under its router ID. -/
def install (d : DatabaseId) (a : Advertisement) : NetworkM Unit := do
  let copy ← newAdvertisement a
  modifyDatabase d (·.insert a.id copy)

def clearDatabase (d : DatabaseId) : NetworkM Unit := modifyDatabase d fun _ => .empty

/-- The source of the events of databases. -/
def databaseSource : String := "lsdb"

/-- Discovery on a router; a malformed channel is not a fault here but the result. -/
def tryDiscover (r : RouterId) : NetworkM (Option MalformedChannel) :=
  tryCatch (do discover r; return none) fun
    | .malformedChannel m => return some m
    | f => throw f

/-- Visits the router of a node, if it has one. -/
def visit (d : DatabaseId) (report : BuildReport) (k : NodeId) : NetworkM BuildReport := do
  match ((← get).node k).router with
  | none => return report
  | some r =>
    let report := { report with routers := report.routers + 1 }
    let failed ← tryDiscover r
    let n ← get
    let node := n.node k
    let router := n.router r
    match failed with
    | some m =>
      log .error databaseSource "lsdb:discovery-failed"
        s!"{node.name} ({router.id.text}): {m.error.message}" none
      return { report with
        failures := report.failures ++ [⟨node.id, node.name, router.id, m⟩] }
    | none =>
      match router.advertisement with
      | none => return report
      | some a =>
        if a.records.isEmpty then
          debug databaseSource "lsdb:empty-lsa"
            s!"{node.name} ({router.id.text}): no links, not installed"
          return report
        install d a
        return { report with advertisements := report.advertisements + 1 }

/-- Builds a database anew from the routers of some nodes, in ascending order of index. -/
def build (d : DatabaseId) (nodes : List NodeId) : NetworkM BuildReport := do
  clearDatabase d
  let report ← ((← get).byIndex nodes).foldlM (visit d) .empty
  info databaseSource "lsdb:build"
    (s!"LSDB built: {report.advertisements} LSAs from {report.routers} routers, " ++
      s!"{report.failures.length} failures")
  return report

end Network

end LinkState
