import LinkState.Number
import LinkState.Spf.Queue

/-!
A queue ordered by a table of keys. Keys may change at any time; the queue only moves when it is
told. A member without a key cannot be compared.
-/

namespace LinkState

structure KeyedQueue (α : Type) [BEq α] [Hashable α] where
  keys : Std.HashMap α Number
  queue : Queue α

namespace KeyedQueue

variable {α : Type} [BEq α] [Hashable α]

def order (keys : Std.HashMap α Number) : Queue.Order α := fun x y =>
  match keys[x]?, keys[y]? with
  | some a, some b => a.compare? b
  | _, _ => none

def setKey (q : KeyedQueue α) (x : α) (key : Number) : KeyedQueue α :=
  { q with keys := q.keys.insert x key }

def ofKeys (keys : List (α × Number)) : KeyedQueue α := ⟨.ofList keys, .empty⟩

def size (q : KeyedQueue α) : Nat := q.queue.size

def isEmpty (q : KeyedQueue α) : Bool := q.queue.isEmpty

def contains (q : KeyedQueue α) (x : α) : Bool := q.queue.contains x

def push (q : KeyedQueue α) (x : α) : KeyedQueue α :=
  { q with queue := q.queue.push (order q.keys) x }

def update (q : KeyedQueue α) (x : α) : KeyedQueue α :=
  { q with queue := q.queue.update (order q.keys) x }

def pop? (q : KeyedQueue α) : Option (α × KeyedQueue α) :=
  (q.queue.pop? (order q.keys)).map fun (x, rest) => (x, { q with queue := rest })

def drain (q : KeyedQueue α) : List α × KeyedQueue α :=
  let (xs, rest) := q.queue.drain (order q.keys)
  (xs, { q with queue := rest })

end KeyedQueue

end LinkState
