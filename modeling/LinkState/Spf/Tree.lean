import LinkState.Advertisement
import LinkState.Mask

/-!
The shortest-path tree: vertices with consecutive handles, and the order in which they entered the
tree. A router vertex is known by its ID, a network vertex by its address and prefix length; no two
vertices have one key. Numbers, which are distances and references to parents, and what stands for
an advertisement are parameters: computed trees have naturals, and trees that are edited may have
references to no vertex.
-/

namespace LinkState

inductive VertexType where
  | router
  | network
deriving DecidableEq, Inhabited

namespace VertexType

def name : VertexType → String
  | router => "router"
  | network => "network"

def ofName? (s : String) : Option VertexType := [router, network].find? (·.name = s)

end VertexType

inductive VertexKey where
  | router (id : Address)
  | network (id : Address) (length : Nat)
deriving DecidableEq

/-- The prefix length of a vertex; without a mask it is that of a single address. -/
def prefixLength (mask : Option Mask) : Nat := mask.elim 32 Mask.length

namespace VertexKey

def make (type : VertexType) (id : Address) (mask : Option Mask) : VertexKey :=
  match type with
  | .router => router id
  | .network => network id (prefixLength mask)

def text : VertexKey → String
  | router id => s!"router:{id.text}"
  | network id length => s!"network:{id.text}/{length}"

end VertexKey

/-- The handle that a number is; no vertex has one that is not a natural number. -/
def handleOf (n : Number) : Except Fault Nat := n.toNat?.elim (.error (.noVertex n)) .ok

theorem handleOf_natCast (h : Nat) : handleOf (.finite h) = .ok h := by
  simp [handleOf, Number.toNat?]

/-- Numbers that refer to vertices. -/
class Reference (δ : Type) where
  handle : δ → Except Fault Nat

instance : Reference Nat := ⟨.ok⟩

instance : Reference Rat := ⟨fun q => handleOf (.finite q)⟩

structure Vertex (δ α : Type) where
  type : VertexType
  id : Address
  mask : Option Mask
  distance : δ
  status : Status
  parents : List δ
  children : List Nat
  advertisement : Option α
deriving Inhabited

namespace Vertex

variable {δ α : Type}

def key (v : Vertex δ α) : VertexKey := .make v.type v.id v.mask

def fresh (type : VertexType) (id : Address) (mask : Option Mask) (advertisement : Option α)
    (distance : δ) : Vertex δ α :=
  ⟨type, id, mask, distance, .notExplored, [], [], advertisement⟩

/-- Routers come before networks. -/
def compareTypes : VertexType → VertexType → Ordering
  | .router, .network => .lt
  | .network, .router => .gt
  | _, _ => .eq

/-- By distance, then ID, then type, then prefix length. -/
def compare [LT δ] [DecidableLT δ] [DecidableEq δ] (v w : Vertex δ α) : Ordering :=
  (compareOfLessAndEq v.distance w.distance).then <|
  (v.id.compare w.id).then <|
  (compareTypes v.type w.type).then <|
  Ord.compare (prefixLength v.mask) (prefixLength w.mask)

end Vertex

structure Tree (δ α : Type) where
  vertices : Array (Vertex δ α)
  order : Array Nat
deriving Inhabited

namespace Tree

variable {δ α : Type}

def empty : Tree δ α := ⟨#[], #[]⟩

def size (t : Tree δ α) : Nat := t.vertices.size

/-- The root is the first vertex. -/
def root? (t : Tree δ α) : Option (Vertex δ α) := t.vertices[0]?

def find? (t : Tree δ α) (key : VertexKey) : Option Nat := t.vertices.findIdx? (·.key = key)

def get (t : Tree δ α) (h : Nat) : Except Fault (Vertex δ α) :=
  match t.vertices[h]? with
  | some v => .ok v
  | none => .error (.noVertex (.ofNat h))

def modify (t : Tree δ α) (h : Nat) (f : Vertex δ α → Vertex δ α) : Tree δ α :=
  { t with vertices := t.vertices.modify h f }

/-- Appends a vertex, whose handle is the number of vertices before. -/
def append (t : Tree δ α) (v : Vertex δ α) : Tree δ α :=
  { t with vertices := t.vertices.push v }

theorem size_append (t : Tree δ α) (v : Vertex δ α) : (t.append v).size = t.size + 1 := by
  simp [append, size]

theorem size_modify (t : Tree δ α) (h : Nat) (f : Vertex δ α → Vertex δ α) :
    (t.modify h f).size = t.size := by
  simp [modify, size]

/-- Appends a vertex unless there is one with its key. -/
def add (t : Tree δ α) (v : Vertex δ α) : Except Fault (Nat × Tree δ α) :=
  match t.find? v.key with
  | some _ => .error (.vertexExists v.key.text)
  | none => .ok (t.size, t.append v)

/-- The handle of the vertex that a number refers to. -/
def refer [Reference δ] (t : Tree δ α) (p : δ) : Except Fault Nat := do
  let h ← Reference.handle p
  let _ ← t.get h
  return h

/-- Makes `h` a child of each of the given vertices, up to the first that does not exist. -/
def adopt [Reference δ] (h : Nat) : List δ → Tree δ α → Except Fault Unit × Tree δ α
  | [], t => (.ok (), t)
  | p :: ps, t =>
    match t.refer p with
    | .error f => (.error f, t)
    | .ok p => adopt h ps (t.modify p fun v => { v with children := v.children ++ [h] })

/-- Moves a vertex into the tree and makes it a child of each of its parents. -/
def settle [Reference δ] (h : Nat) (t : Tree δ α) : Except Fault Unit × Tree δ α :=
  match t.get h with
  | .error f => (.error f, t)
  | .ok v =>
    match adopt h v.parents (t.modify h fun v => { v with status := .inTree }) with
    | (.error f, t) => (.error f, t)
    | (.ok (), t) => (.ok (), { t with order := t.order.push h })

/-- The vertices in the order in which they entered the tree. -/
def inOrder (t : Tree δ α) : List (Nat × Vertex δ α) :=
  t.order.toList.filterMap fun h => t.vertices[h]?.map (h, ·)

def compare? [LT δ] [DecidableLT δ] [DecidableEq δ] (t : Tree δ α) (a b : Nat) : Option Ordering :=
  match t.vertices[a]?, t.vertices[b]? with
  | some v, some w => some (v.compare w)
  | _, _ => none

/-- The same tree with other numbers and advertisements. -/
def map {ε β : Type} (f : δ → ε) (g : Vertex δ α → Option β) (t : Tree δ α) : Tree ε β :=
  ⟨t.vertices.map fun v =>
    ⟨v.type, v.id, v.mask, f v.distance, v.status, v.parents.map f, v.children, g v⟩, t.order⟩

end Tree

end LinkState
