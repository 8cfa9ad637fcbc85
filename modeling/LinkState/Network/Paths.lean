import LinkState.Network
import LinkState.Spf.Routes

/-!
Searches over a live database, and trees that share advertisements with one. The search itself is
`Search.run` on the database as it stands; what it met is then reported in order, so that a
subscriber who stops the search leaves behind just the marks and counts made until then.
-/

namespace LinkState

namespace Network

/-- The source of the events of searches. -/
def searchSource : String := "spf"

def statsDatum (s : SearchStats) : List (String × Datum) :=
  [("rejectedPaths", .number (.ofNat s.rejectedPaths)),
   ("unresolvedLinks", .number (.ofNat s.unresolvedLinks))]

/-- Marks the advertisement of a router in a database. -/
def mark (d : DatabaseId) (id : Address) (status : Status) : NetworkM Unit := do
  match ((← get).database d).get? id with
  | some a => modifyAdvertisement a (·.setStatus status)
  | none => pure ()

/-- Applies a finding: its mark, its count, its event. -/
def follow (s : SearcherId) (f : Finding) : NetworkM Unit := do
  modifySearcher s fun x => { x with stats := x.stats.count f }
  let searcher := (← get).searcher s
  match f with
  | .noRoot root =>
    debug searchSource "spf:no-root" s!"No LSA for root {root.text}, nothing to compute"
  | .marked router status => mark searcher.database router status
  | .unresolved router target =>
    debug searchSource "spf:unresolved-link" s!"{router.text} → {target.text}: no usable LSA"
  | .overflow router target distance metric =>
    let overflow : MetricOverflow := ⟨.ofNat distance, metric.toNumber⟩
    warn searchSource "spf:metric-overflow"
      s!"{router.text} → {target.text}: {overflow.error.message}, path rejected"
  | .badMask network fault =>
    warn searchSource "spf:bad-mask" s!"stub {network.text}: {fault.message}, skipped"
  | .finished root vertices =>
    log .debug searchSource "spf:run" s!"SPF from {root.text}: {vertices} vertices in tree"
      (some (.record (statsDatum searcher.stats)))

/-- Marks every advertisement of a database as not explored. -/
def resetStatus (d : DatabaseId) : NetworkM Unit := do
  for e in ((← get).database d).entries do
    modifyAdvertisement e.2 (·.setStatus .notExplored)

/-- The shortest paths from a router. -/
def calculate (s : SearcherId) (root : Address) : NetworkM PathTree := do
  modifySearcher s fun x => { x with stats := .zero }
  let d := ((← get).searcher s).database
  resetStatus d
  let search := Search.run ((← get).snapshot d) root
  for f in search.trace.toList do follow s f
  return search.tree

/-- A tree of paths over a database, with the database's own advertisements in it. -/
def share (n : Network) (d : DatabaseId) (t : PathTree) : LiveTree :=
  t.map (fun distance : Nat => (distance : Rat)) fun v =>
    if v.advertisement.isSome then (n.database d).get? v.id else none

/-- A tree with the advertisements as they are now. -/
def resolve (n : Network) (t : LiveTree) : Tree Rat Advertisement :=
  t.map id fun v => v.advertisement.map n.advertisement

/-- The routes that a live tree gives a node. -/
def treeRoutes (n : Network) (t : LiveTree) (k : NodeId) : Except Fault (List (Route Rat)) :=
  (n.resolve t).routes n.environment.names (n.interfacesOf k)

def modifyTree (t : TreeId) (f : LiveTree → LiveTree) : NetworkM Unit :=
  modify fun n => { n with trees := n.trees.modify t f }

/-- Adds a vertex to a tree and returns its handle. -/
def addVertex (t : TreeId) (v : Vertex Rat AdvertisementId) : NetworkM Nat := do
  let (h, tree) ← (((← get).tree t).add v : Except Fault _)
  modifyTree t fun _ => tree
  return h

/-- Moves a vertex into its tree and marks its advertisement. A parent that does not exist stops
this half-way. -/
def settleVertex (t : TreeId) (h : Nat) : NetworkM Unit := do
  let v ← (((← get).tree t).get h : Except Fault _)
  match v.advertisement with
  | some a => modifyAdvertisement a (·.setStatus .inTree)
  | none => pure ()
  let (result, tree) := ((← get).tree t).settle h
  modifyTree t fun _ => tree
  (result : Except Fault Unit)

end Network

end LinkState
