import LinkState.Advertisement

/-!
The link-state database: at most one advertisement for each router ID. It is a finite map in the
order of first insertion, over whatever stands for an advertisement; `get?` is its view.
-/

namespace LinkState

structure Database (α : Type) where
  entries : List (Address × α)
  nodup : (entries.map Prod.fst).Nodup

namespace Database

variable {α β : Type}

def empty : Database α := ⟨[], by simp⟩

instance : Inhabited (Database α) := ⟨empty⟩

def keys (d : Database α) : List Address := d.entries.map Prod.fst

def size (d : Database α) : Nat := d.entries.length

def find? (id : Address) : List (Address × α) → Option α
  | [] => none
  | (k, x) :: rest => if k = id then some x else find? id rest

def get? (d : Database α) (id : Address) : Option α := find? id d.entries

def contains (d : Database α) (id : Address) : Bool := id ∈ d.keys

/-- Replaces the value under `id`, or adds it at the end. -/
def put (id : Address) (x : α) : List (Address × α) → List (Address × α)
  | [] => [(id, x)]
  | (k, y) :: rest => if k = id then (id, x) :: rest else (k, y) :: put id x rest

theorem mem_keys_put {id k : Address} {x : α} {es : List (Address × α)} :
    k ∈ (put id x es).map Prod.fst ↔ k = id ∨ k ∈ es.map Prod.fst := by
  induction es with
  | nil => simp [put]
  | cons e es ih =>
    obtain ⟨j, y⟩ := e
    by_cases h : j = id
    · simp [put, h]
    · simp only [put, h, if_false, List.map_cons, List.mem_cons, ih, or_left_comm]

theorem nodup_put {id : Address} {x : α} {es : List (Address × α)}
    (h : (es.map Prod.fst).Nodup) : ((put id x es).map Prod.fst).Nodup := by
  induction es with
  | nil => simp [put]
  | cons e es ih =>
    obtain ⟨j, y⟩ := e
    rw [List.map_cons, List.nodup_cons] at h
    by_cases hj : j = id
    · subst hj
      simpa [put] using h
    · simp only [put, hj, if_false, List.map_cons, List.nodup_cons]
      refine ⟨fun hm => ?_, ih h.2⟩
      rcases mem_keys_put.1 hm with e | e
      · exact hj e
      · exact h.1 e

def insert (d : Database α) (id : Address) (x : α) : Database α :=
  ⟨put id x d.entries, nodup_put d.nodup⟩

/-- The same keys, each with the image of its value. -/
def map (f : α → β) (d : Database α) : Database β :=
  ⟨d.entries.map fun e => (e.1, f e.2), by simpa [Function.comp_def] using d.nodup⟩

/-- The router IDs in ascending order. -/
def ids (d : Database α) : List Address := Address.sort d.keys

theorem get?_empty (id : Address) : (empty : Database α).get? id = none := rfl

theorem get?_insert (d : Database α) (id k : Address) (x : α) :
    (d.insert id x).get? k = if k = id then some x else d.get? k := by
  show find? k (put id x d.entries) = if k = id then some x else find? k d.entries
  induction d.entries with
  | nil => simp [put, find?, eq_comm]
  | cons e es ih =>
    obtain ⟨j, y⟩ := e
    by_cases hj : j = id
    · subst hj
      by_cases hk : j = k
      · simp [put, find?, hk]
      · simp [put, find?, hk, Ne.symm hk]
    · by_cases hk : k = j
      · subst hk
        simp [put, hj, find?]
      · simp [put, hj, find?, Ne.symm hk, ih]

theorem get?_map (f : α → β) (d : Database α) (k : Address) :
    (d.map f).get? k = (d.get? k).map f := by
  show find? k (d.entries.map fun e => (e.1, f e.2)) = (find? k d.entries).map f
  induction d.entries with
  | nil => rfl
  | cons e es ih =>
    obtain ⟨j, y⟩ := e
    by_cases hk : j = k <;> simp [find?, hk, ih]

/-- The printed advertisements in ascending order of router ID. -/
def dump (d : Database Advertisement) : String :=
  if d.size = 0 then "LSDB is empty."
  else String.intercalate "\n" (d.ids.flatMap fun id => (d.get? id).elim [] Advertisement.lines)

end Database

end LinkState
