import LinkState.Database
import LinkState.Spf.Queue
import LinkState.Spf.Tree

/-!
The shortest paths from a router. The closest candidate enters the tree, its links offer distances
to the vertices they lead to, and so on until no candidate is left. A point-to-point link counts if
the far router advertises a link back, a stub network if its mask is contiguous, and a path if its
length is at most the largest metric. Paths of equal length give a vertex several parents.

The search also tells what it met, in order: its `trace`.
-/

namespace LinkState

/-- What the search met. -/
inductive Finding where
  /-- The root has no advertisement. -/
  | noRoot (root : Address)
  /-- A router became a candidate or entered the tree. -/
  | marked (router : Address) (status : Status)
  /-- A link to a router that does not advertise a link back. -/
  | unresolved (router target : Address)
  /-- A path longer than the largest metric. -/
  | overflow (router target : Address) (distance : Nat) (metric : Metric)
  /-- A stub network without a usable mask. -/
  | badMask (network : Address) (fault : Fault)
  /-- The search is over, with so many vertices in the tree. -/
  | finished (root : Address) (vertices : Nat)
deriving DecidableEq

structure SearchStats where
  rejectedPaths : Nat
  unresolvedLinks : Nat
deriving DecidableEq, Inhabited

namespace SearchStats

def zero : SearchStats := ⟨0, 0⟩

def count (s : SearchStats) : Finding → SearchStats
  | .overflow .. => { s with rejectedPaths := s.rejectedPaths + 1 }
  | .unresolved .. => { s with unresolvedLinks := s.unresolvedLinks + 1 }
  | _ => s

end SearchStats

abbrev PathTree := Tree Nat Advertisement

structure Search where
  tree : PathTree
  queue : Queue Nat
  trace : Array Finding
deriving Inhabited

namespace Search

def empty : Search := ⟨.empty, .empty, #[]⟩

/-- Candidates are ordered as vertices are. -/
def order (t : PathTree) : Queue.Order Nat := t.compare?

def report (s : Search) (f : Finding) : Search := { s with trace := s.trace.push f }

/-- What a link leads to. -/
structure Target where
  type : VertexType
  id : Address
  mask : Option Mask
  advertisement : Option Advertisement

namespace Target

def router (id : Address) (a : Advertisement) : Target := ⟨.router, id, none, some a⟩

def network (id : Address) (m : Mask) : Target := ⟨.network, id, some m, none⟩

def key (t : Target) : VertexKey := .make t.type t.id t.mask

end Target

/-- Adds a candidate that has one parent. -/
def discover (s : Search) (parent : Nat) (target : Target) (distance : Nat) : Search :=
  let h := s.tree.size
  let v := Vertex.fresh target.type target.id target.mask target.advertisement distance
  let tree := s.tree.append { v with status := .candidate, parents := [parent] }
  let s := if target.advertisement.isSome then s.report (.marked target.id .candidate) else s
  { s with tree := tree, queue := s.queue.push (order tree) h }

/-- A shorter path replaces the parents of a candidate, one of equal length adds a parent. -/
def improve (s : Search) (parent h : Nat) (v : Vertex Nat Advertisement) (distance : Nat) : Search :=
  if distance < v.distance then
    let tree := s.tree.modify h fun v => { v with distance := distance, parents := [parent] }
    { s with tree := tree, queue := s.queue.update (order tree) h }
  else if distance = v.distance ∧ parent ∉ v.parents then
    { s with tree := s.tree.modify h fun v => { v with parents := v.parents ++ [parent] } }
  else s

/-- The vertex with a key and its handle. -/
def locate? (t : PathTree) (key : VertexKey) : Option (Nat × Vertex Nat Advertisement) :=
  (t.find? key).bind fun h => t.vertices[h]?.map (h, ·)

/-- Offers the path over `v` and one link to the link's target. -/
def offer (s : Search) (parent : Nat) (v : Vertex Nat Advertisement) (target : Target)
    (metric : Metric) : Search :=
  let found := locate? s.tree target.key
  if found.any (·.2.status = .inTree) then s
  else
    match metric.extend? v.distance with
    | none => s.report (.overflow v.id target.id v.distance metric)
    | some distance =>
      match found with
      | none => s.discover parent target distance
      | some (h, w) => s.improve parent h w distance

/-- Does the advertisement link to the router `id`? -/
def linksBack (a : Advertisement) (id : Address) : Bool := a.records.any (·.leadsTo id)

def relaxLink (db : Database Advertisement) (parent : Nat) (v : Vertex Nat Advertisement)
    (s : Search) (r : LinkRecord) : Search :=
  match r.type with
  | .pointToPoint =>
    match (db.get? r.id).filter (linksBack · v.id) with
    | some a => s.offer parent v (.router r.id a) r.metric
    | none => s.report (.unresolved v.id r.id)
  | .stubNetwork =>
    match Mask.ofAddress r.data with
    | .ok m => s.offer parent v (.network r.id m) r.metric
    | .error f => s.report (.badMask r.id f)
  | _ => s

/-- Follows the links of a vertex; a network has none. -/
def relax (db : Database Advertisement) (s : Search) (h : Nat) : Search :=
  match s.tree.vertices[h]? with
  | some v => (v.advertisement.elim [] Advertisement.records).foldl (relaxLink db h v) s
  | none => s

/-- Moves a vertex into the tree. -/
def enter (s : Search) (h : Nat) : Search :=
  match s.tree.vertices[h]? with
  | some v =>
    let s := if v.advertisement.isSome then s.report (.marked v.id .inTree) else s
    { s with tree := (s.tree.settle h).2 }
  | none => s

/-- Relaxes a vertex that has just entered and goes on with the closest candidate, for at most
`fuel` vertices. -/
def loop (db : Database Advertisement) : Nat → Search → Nat → Search
  | 0, s, _ => s
  | fuel + 1, s, h =>
    let s := s.relax db h
    match s.queue.pop? (order s.tree) with
    | none => s
    | some (next, queue) => loop db fuel ({ s with queue := queue }.enter next) next

/-- No more vertices than this can arise: one for each advertisement and each stub record. -/
def vertexBound (db : Database Advertisement) : Nat :=
  db.entries.foldl (fun n e => n + (1 + e.2.stubs.length)) 0

/-- The search from the router `root`; without an advertisement of the root the tree is empty. -/
def run (db : Database Advertisement) (root : Address) : Search :=
  match db.get? root with
  | none => empty.report (.noRoot root)
  | some a =>
    let s := { empty with tree := Tree.empty.append (.fresh .router root none (some a) 0) }
    let s := loop db (vertexBound db) (s.enter 0) 0
    s.report (.finished root s.tree.order.size)

/-- What the search dropped. -/
def stats (s : Search) : SearchStats := s.trace.foldl SearchStats.count .zero

end Search

/-- The tree of shortest paths from `root`. -/
def shortestPaths (db : Database Advertisement) (root : Address) : PathTree :=
  (Search.run db root).tree

end LinkState
