import LinkState.Collation
import LinkState.Forwarding
import LinkState.Interface
import LinkState.Spf.Tree

/-!
The routes that a shortest-path tree gives its root. A vertex is traced back along its parents to
the routers next to the root, and of the hops to those the one with the lowest address is taken, of
several the one over the interface whose name comes first. A router vertex gives a route to each
interface address that it advertises, a network vertex one to the network itself, unless the root is
attached to it. Of two routes to one destination the shorter stays.
-/

namespace LinkState

structure Hop where
  address : Address
  interface : String
deriving DecidableEq, Inhabited

namespace Hop

/-- By address, then interface name. -/
def compare (names : NameOrder) (a b : Hop) : Ordering :=
  (a.address.compare b.address).then (names.compare a.interface b.interface)

/-- The first of the least hops. -/
def least? (names : NameOrder) : List Hop → Option Hop
  | [] => none
  | h :: hs => some (hs.foldl (fun best h => if h.compare names best = .lt then h else best) h)

end Hop

namespace Tree

variable {δ : Type}

/-- The links from a vertex to the router `id`. -/
def linksTo (v : Vertex δ Advertisement) (id : Address) : List LinkRecord :=
  v.advertisement.elim [] (·.linksTo id)

/-- The root's shortest links to the router `w`, each with the interface it leaves by. -/
def exits [NatCast δ] [DecidableEq δ] (root w : Vertex δ Advertisement)
    (interfaces : List Interface) : List (LinkRecord × Interface) :=
  let links := (linksTo root w.id).filter fun r => (r.metric.value : δ) = w.distance
  (links.mergeSort fun r s => r.data.toNat ≤ s.data.toNat).filterMap fun r =>
    (interfaces.find? (·.address = some r.data)).map (r, ·)

/-- The hop to the router `w` next to the root: its lowest address in the subnet of an exit, or
else its lowest address at the first exit. -/
def hopTo [NatCast δ] [DecidableEq δ] (root w : Vertex δ Advertisement)
    (interfaces : List Interface) : Option Hop :=
  let far := Address.sort ((linksTo w root.id).map (·.data))
  let near := exits root w interfaces
  let inSubnet := near.findSome? fun (r, i) =>
    (i.mask.bind fun m => far.find? (·.sameSubnet r.data m)).map (⟨·, i.name⟩)
  let first := near.head?.bind fun (_, i) => far.head?.map (⟨·, i.name⟩)
  inSubnet <|> first

/-- First hops that are known already. -/
abbrev HopCache := List (Nat × List Nat)

/-- Adds those members of `ys` that `xs` does not have. -/
def union (xs ys : List Nat) : List Nat :=
  ys.foldl (fun xs y => if y ∈ xs then xs else xs ++ [y]) xs

/-- The vertices next to the root from which `h` is reached, each once. A vertex that is its own
ancestor uses up the fuel. -/
def firstHops [Reference δ] (t : Tree δ Advertisement) :
    Nat → Nat → HopCache → Except Fault (List Nat × HopCache)
  | 0, _, _ => .error .endlessAncestry
  | fuel + 1, h, cache =>
    match cache.lookup h with
    | some hops => .ok (hops, cache)
    | none => do
      let v ← t.get h
      let (hops, cache) ← v.parents.foldlM (fun (hops, cache) p => do
        let p ← Reference.handle p
        if p = 0 then pure (union hops [h], cache)
        else do
          let (more, cache) ← firstHops t fuel p cache
          pure (union hops more, cache)) ([], cache)
      pure (hops, (h, hops) :: cache)

/-- Longer than any chain of ancestors without a repetition. -/
def ancestryBound (t : Tree δ Advertisement) : Nat := t.size + 2

/-- Is the network vertex one of the root's own stub networks? Their masks are known by their
texts, so that `254.128.0.0` stands for the octets `254.128`, `0` and `0` too. -/
def isOwnStub (root v : Vertex δ Advertisement) : Bool :=
  (root.advertisement.elim [] Advertisement.stubs).any fun r =>
    r.id = v.id && v.mask.any (·.text = r.data.text)

/-- The destinations that a vertex contributes. -/
def destinations (v : Vertex δ Advertisement) : List (Address × Mask) :=
  match v.type with
  | .router => (v.advertisement.elim [] Advertisement.records).filterMap fun r =>
      if r.type = .pointToPoint then some (r.data, Mask.host) else none
  | .network => v.mask.elim [] fun m => [(v.id, m)]

/-- Adds a route, or replaces a longer one to the same destination. -/
def offerRoute [LT δ] [DecidableLT δ] (r : Route δ) : List (Route δ) → List (Route δ)
  | [] => [r]
  | s :: rest =>
    if s.network = r.network ∧ s.mask.length = r.mask.length then
      (if r.metric < s.metric then r else s) :: rest
    else s :: offerRoute r rest

/-- By network, then prefix length. -/
def routeBefore (r s : Route δ) : Bool :=
  ((r.network.compare s.network).then (compare r.mask.length s.mask.length)).isLE

/-- Adds the routes over one vertex. -/
def collect [NatCast δ] [LT δ] [DecidableLT δ] [DecidableEq δ] [Reference δ]
    (t : Tree δ Advertisement) (names : NameOrder) (root : Vertex δ Advertisement)
    (interfaces : List Interface) (acc : List (Route δ) × HopCache)
    (e : Nat × Vertex δ Advertisement) : Except Fault (List (Route δ) × HopCache) := do
  let (h, v) := e
  if h = 0 || v.type = .network && isOwnStub root v then pure acc
  else
    let (hops, cache) ← firstHops t t.ancestryBound h acc.2
    let near := hops.filterMap fun h => t.vertices[h]?.bind fun w => hopTo root w interfaces
    match Hop.least? names near with
    | none => pure (acc.1, cache)
    | some hop =>
      let routes := (destinations v).foldl (fun routes (network, mask) =>
        offerRoute ⟨network, mask, some hop.address, hop.interface, v.distance⟩ routes) acc.1
      pure (routes, cache)

/-- The routes of the root, whose node has the given interfaces, in order of destination. -/
def routes [NatCast δ] [LT δ] [DecidableLT δ] [DecidableEq δ] [Reference δ]
    (t : Tree δ Advertisement) (names : NameOrder) (interfaces : List Interface) :
    Except Fault (List (Route δ)) :=
  match t.root? with
  | none => .ok []
  | some root => do
    let (found, _) ← t.inOrder.foldlM (collect t names root interfaces) ([], [])
    return found.mergeSort routeBefore

end Tree

end LinkState
