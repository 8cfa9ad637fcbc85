import LinkState.Number

/-!
Structured data: what goes with an event, and what a store keeps of a build. The fields of a record
are in no particular order.
-/

namespace LinkState

inductive Datum where
  | null
  | flag (on : Bool)
  | number (value : Number)
  | text (value : String)
  | list (items : List Datum)
  | record (fields : List (String × Datum))
deriving Inhabited

end LinkState
