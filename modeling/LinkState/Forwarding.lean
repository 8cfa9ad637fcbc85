import LinkState.Mask

/-!
The forwarding table of a node. Connected, static and computed routes stand side by side; each
source is replaced as a whole. Lookup takes the longest matching prefix, of several the preferred
source, then the lowest metric, then the earliest entry.
-/

namespace LinkState

/-- A destination, how to get there and at what cost. -/
structure Route (μ : Type) where
  network : Address
  mask : Mask
  nextHop : Option Address
  interface : String
  metric : μ
deriving DecidableEq, Inhabited

namespace Route

def map {μ ν : Type} (f : μ → ν) (r : Route μ) : Route ν :=
  ⟨r.network, r.mask, r.nextHop, r.interface, f r.metric⟩

/-- Is the destination under the route's network? -/
def covers {μ : Type} (r : Route μ) (x : Address) : Bool := x.sameSubnet r.network r.mask

end Route

inductive RouteSource where
  | connected
  | static
  | global
deriving DecidableEq, Inhabited

namespace RouteSource

/-- The lower comes first. -/
def preference : RouteSource → Nat
  | connected => 0
  | static => 1
  | global => 2

def code : RouteSource → String
  | connected => "C"
  | static => "S"
  | global => "G"

def name : RouteSource → String
  | connected => "connected"
  | static => "static"
  | global => "global"

def ofName? (s : String) : Option RouteSource := [connected, static, global].find? (·.name = s)

end RouteSource

structure TableEntry extends Route Number where
  source : RouteSource
deriving DecidableEq, Inhabited

namespace TableEntry

/-- Comes `e` before `f` among the routes to one destination? -/
def preferred (e f : TableEntry) : Bool :=
  f.mask.length < e.mask.length ||
  e.mask.length = f.mask.length &&
    (e.source.preference < f.source.preference ||
     e.source.preference = f.source.preference && e.metric.lt f.metric)

/-- By source, then network, then prefix length. -/
def listedBefore (e f : TableEntry) : Bool :=
  let order := (compare e.source.preference f.source.preference).then <|
    (e.network.compare f.network).then <| compare e.mask.length f.mask.length
  order.isLE

def line (e : TableEntry) : String :=
  let via := match e.nextHop with
    | some x => s!"[{e.metric.text}] via {x.text}"
    | none => "is directly connected"
  s!"{e.source.code}    {e.network.text}/{e.mask.length} {via}, {e.interface}"

end TableEntry

/-- The entries of a table, oldest first. -/
abbrev Routes := List TableEntry

namespace Routes

def of (rs : Routes) (source : RouteSource) : Routes := rs.filter (·.source = source)

/-- Everything but the given source. -/
def without (rs : Routes) (source : RouteSource) : Routes := rs.filter (·.source ≠ source)

def removeConnected (rs : Routes) (interface : String) : Routes :=
  rs.filter fun e => !(e.source = .connected && e.interface = interface)

/-- The network of a configured interface takes the place of the one it had before. -/
def addConnected (rs : Routes) (address : Address) (mask : Mask) (interface : String) : Routes :=
  rs.removeConnected interface ++ [⟨⟨address.network mask, mask, none, interface, 0⟩, .connected⟩]

def addStatic (rs : Routes) (address : Address) (mask : Mask) (via : Address) (interface : String)
    (metric : Number) : Routes :=
  rs ++ [⟨⟨address.network mask, mask, some via, interface, metric⟩, .static⟩]

/-- Swaps the entries of a source for others. -/
def replace (rs : Routes) (source : RouteSource) (new : List (Route Number)) : Routes :=
  rs.without source ++ new.map fun r => ⟨r, source⟩

/-- The better of the best entry so far and the next one. -/
def better (best : Option TableEntry) (e : TableEntry) : Option TableEntry :=
  match best with
  | none => some e
  | some b => if e.preferred b then some e else some b

/-- The entry for a destination. -/
def lookup (rs : Routes) (x : Address) : Option TableEntry :=
  (rs.filter (·.covers x)).foldl better none

theorem of_without_self (rs : Routes) (s : RouteSource) : (rs.without s).of s = [] := by
  rw [of, without, List.filter_filter, List.filter_eq_nil_iff]
  intro e _
  by_cases h : e.source = s <;> simp [h]

theorem of_without_of_ne (rs : Routes) {s t : RouteSource} (h : t ≠ s) :
    (rs.without s).of t = rs.of t := by
  rw [of, of, without, List.filter_filter]
  refine List.filter_congr fun e _ => ?_
  by_cases g : e.source = t <;> simp [g, h]

theorem of_replace_self (rs : Routes) (s : RouteSource) (new : List (Route Number)) :
    (rs.replace s new).of s = new.map fun r => ⟨r, s⟩ := by
  have h := of_without_self rs s
  rw [of] at h ⊢
  rw [replace, List.filter_append, h, List.nil_append, List.filter_eq_self]
  simp

theorem of_replace_of_ne (rs : Routes) {s t : RouteSource} (h : t ≠ s) (new : List (Route Number)) :
    (rs.replace s new).of t = rs.of t := by
  have g := of_without_of_ne rs h
  have none : (new.map fun r => (⟨r, s⟩ : TableEntry)).filter (·.source = t) = [] := by
    rw [List.filter_eq_nil_iff]
    intro e he
    obtain ⟨r, _, rfl⟩ := List.mem_map.1 he
    simpa using Ne.symm h
  rw [of] at g ⊢
  rw [replace, List.filter_append, g, none, List.append_nil]

/-- A heading and a line for each entry, or a sentence if there is none. -/
def format (rs : Routes) : String :=
  if rs.isEmpty then "No routes configured."
  else String.intercalate "\n"
    ("Codes: C - connected, S - static, G - global" :: "" ::
      (rs.mergeSort TableEntry.listedBefore).map TableEntry.line)

end Routes

/-- A forwarding table and the node that its events are reported for. -/
structure ForwardingTable where
  owner : String
  routes : Routes
deriving Inhabited

end LinkState
