import Std.Data.HashMap

/-!
A binary min-heap that knows where each of its members stands, so that a member whose key has
fallen can be moved up. Every operation is told the order as it is at that moment; `none` says that
two members cannot be compared.
-/

namespace LinkState

structure Queue (α : Type) [BEq α] [Hashable α] where
  heap : Array α
  position : Std.HashMap α Nat

namespace Queue

variable {α : Type} [BEq α] [Hashable α]

abbrev Order (α : Type) := α → α → Option Ordering

def empty : Queue α := ⟨#[], ∅⟩

instance : Inhabited (Queue α) := ⟨empty⟩

def size (q : Queue α) : Nat := q.heap.size

def isEmpty (q : Queue α) : Bool := q.heap.isEmpty

def contains (q : Queue α) (x : α) : Bool := q.position.contains x

/-- Exchanges the members at two places. -/
def swap (q : Queue α) (i j : Nat) : Queue α :=
  if h : i < q.heap.size then
    if g : j < q.heap.size then
      ⟨q.heap.swap i j h g, (q.position.insert q.heap[j] i).insert q.heap[i] j⟩
    else q
  else q

theorem size_swap (q : Queue α) (i j : Nat) : (q.swap i j).heap.size = q.heap.size := by
  unfold swap
  split <;> (try split) <;> simp

def parent (i : Nat) : Nat := (i - 1) / 2

/-- Moves the member at `i` up past each parent that is not known to come before it or to have the
same rank. -/
def siftUp (order : Order α) (q : Queue α) (i : Nat) : Queue α :=
  if i = 0 then q
  else
    match q.heap[i]?, q.heap[parent i]? with
    | some x, some y =>
      match order x y with
      | some .eq | some .gt => q
      | _ => siftUp order (q.swap i (parent i)) (parent i)
    | _, _ => q
termination_by i
decreasing_by all_goals (simp only [parent]; omega)

/-- The place `j`, if its member is known to come before the one at `i`; else `i`. -/
def before (order : Order α) (heap : Array α) (i j : Nat) : Nat :=
  match heap[i]?, heap[j]? with
  | some x, some y => if order y x = some .lt then j else i
  | _, _ => i

/-- The place of the least among `i` and its children. -/
def least (order : Order α) (heap : Array α) (i : Nat) : Nat :=
  before order heap (before order heap i (2 * i + 1)) (2 * i + 2)

/-- Moves the member at `i` down past the lesser of its children while that comes before it. -/
def siftDown (order : Order α) (q : Queue α) (i : Nat) : Queue α :=
  let k := least order q.heap i
  if i < k ∧ k < q.heap.size then siftDown order (q.swap i k) k else q
termination_by q.heap.size - i
decreasing_by rw [size_swap]; omega

/-- Restores the order after the key of `x` has fallen. -/
def update (order : Order α) (q : Queue α) (x : α) : Queue α :=
  match q.position[x]? with
  | some i => siftUp order q i
  | none => q

/-- Adds `x`; a member is only moved up. -/
def push (order : Order α) (q : Queue α) (x : α) : Queue α :=
  if q.contains x then q.update order x
  else siftUp order ⟨q.heap.push x, q.position.insert x q.heap.size⟩ q.heap.size

/-- Takes out the first member. -/
def pop? (order : Order α) (q : Queue α) : Option (α × Queue α) :=
  if h : 0 < q.heap.size then
    let first := q.heap[0]
    let last := q.heap[q.heap.size - 1]
    let heap := q.heap.pop
    let position := q.position.erase first
    if heap.isEmpty then some (first, ⟨heap, position⟩)
    else some (first, siftDown order ⟨heap.setIfInBounds 0 last, position.insert last 0⟩ 0)
  else none

/-- Takes out at most `n` members, in the order in which they come. -/
def popUpTo (order : Order α) : Nat → Queue α → List α × Queue α
  | 0, q => ([], q)
  | n + 1, q =>
    match q.pop? order with
    | none => ([], q)
    | some (x, q) =>
      let (xs, q) := popUpTo order n q
      (x :: xs, q)

def drain (order : Order α) (q : Queue α) : List α × Queue α := q.popUpTo order q.size

end Queue

end LinkState
