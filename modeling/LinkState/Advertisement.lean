import LinkState.LinkRecord

/-!
A router's advertisement: its link records under its router ID, and the mark that the last
computation of shortest paths left on it.
-/

namespace LinkState

/-- How far a computation of shortest paths got with a router. -/
inductive Status where
  | notExplored
  | candidate
  | inTree
  /-- A mark that no computation leaves. -/
  | other (name : String)
deriving DecidableEq, Inhabited

namespace Status

def name : Status → String
  | notExplored => "not-explored"
  | candidate => "candidate"
  | inTree => "in-tree"
  | other s => s

def known : List Status := [notExplored, candidate, inTree]

def ofName (s : String) : Status := (known.find? (·.name = s)).getD (other s)

/-- No name is lost. -/
theorem name_ofName (s : String) : (ofName s).name = s := by
  cases h : known.find? (·.name = s) with
  | none => rw [ofName, h]; rfl
  | some t =>
    have same := List.find?_some h
    rw [ofName, h]
    exact of_decide_eq_true same

end Status

structure Advertisement where
  id : Address
  origin : Address
  status : Status
  records : List LinkRecord
deriving DecidableEq, Inhabited

namespace Advertisement

/-- The blank advertisement of a router. -/
def ofRouter (id : Address) : Advertisement := ⟨id, id, .notExplored, []⟩

def add (a : Advertisement) (r : LinkRecord) : Advertisement := { a with records := a.records ++ [r] }

def clear (a : Advertisement) : Advertisement := { a with records := [] }

def setStatus (s : Status) (a : Advertisement) : Advertisement := { a with status := s }

/-- The links to the router `id`. -/
def linksTo (a : Advertisement) (id : Address) : List LinkRecord := a.records.filter (·.leadsTo id)

def stubs (a : Advertisement) : List LinkRecord := a.records.filter (·.type = .stubNetwork)

/-- The header line, then a line for each record. -/
def lines (a : Advertisement) : List String :=
  s!"LSA {a.id.text} advertising-router={a.origin.text} status={a.status.name} links={a.records.length}"
    :: a.records.mapIdx fun i r => s!"  [{i}] {r.text}"

def text (a : Advertisement) : String := String.intercalate "\n" a.lines

end Advertisement

end LinkState
