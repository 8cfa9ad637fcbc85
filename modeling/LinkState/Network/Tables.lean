import LinkState.Network

/-!
The operations on forwarding tables. Where a change is reported in the journal, the table has
changed when the report goes out.
-/

namespace LinkState

namespace Network

def addStaticRoute (t : TableId) (address : Address) (mask : Mask) (via : Address)
    (interface : String) (metric : Number) : NetworkM Unit := do
  modifyRoutes t (·.addStatic address mask via interface metric)
  info ((← get).table t).owner "fib:route-add"
    s!"static route {address.text}/{mask.length} via {via.text} metric {metric.text}"

/-- Swaps the entries of a source for others and returns their number. -/
def replaceRoutes (t : TableId) (source : RouteSource) (new : List (Route Number)) :
    NetworkM Nat := do
  let removed := (((← get).table t).routes.of source).length
  modifyRoutes t (·.replace source new)
  debug ((← get).table t).owner "fib:replace"
    s!"{source.code}: {removed} removed, {new.length} installed"
  return new.length

/-- Removes the entries of a source and returns their number. -/
def removeRoutes (t : TableId) (source : RouteSource) : NetworkM Nat := do
  let removed := (((← get).table t).routes.of source).length
  modifyRoutes t (·.without source)
  return removed

/-- The entries of a table, or of one source. -/
def listRoutes (t : TableId) (source : Option RouteSource) : NetworkM Routes := do
  let rs := ((← get).table t).routes
  return source.elim rs rs.of

def lookupRoute (t : TableId) (x : Address) : NetworkM (Option TableEntry) :=
  return ((← get).table t).routes.lookup x

end Network

end LinkState
