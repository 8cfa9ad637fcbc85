import LinkState.Proofs.Lasting
import LinkState.Proofs.Queue.Answers

/-! What is in a queue after calls to it, however the order answers. Its two halves are inverse to
each other, and its members are those that were pushed and not popped since. A call ends after a
number of comparisons that is logarithmic in the size of the queue. -/

namespace LinkState

namespace Queue

inductive Call (α : Type) where
  | push (x : α)
  | update (x : α)
  | pop
deriving DecidableEq

/-- What a call was, and what it took out if it was to. -/
inductive Receipt (α : Type) where
  | pushed (x : α)
  | updated (x : α)
  | popped (x : Option α)
deriving DecidableEq

def Waiting {α : Type} (log : List (Receipt α)) (x : α) : Prop :=
  Lasting (· = .popped (some x)) (.pushed x) log

instance {α : Type} [DecidableEq α] (log : List (Receipt α)) (x : α) : Decidable (Waiting log x) :=
  inferInstanceAs (Decidable (Lasting _ _ _))

theorem waiting_append_singleton {α : Type} {log : List (Receipt α)} {e : Receipt α} {x : α} :
    Waiting (log ++ [e]) x ↔ e = .pushed x ∨ e ≠ .popped (some x) ∧ Waiting log x :=
  lasting_append_singleton

section Calls

variable {α : Type} [BEq α] [Hashable α]

/-- A call under an order that does not change while it runs. -/
def Call.serve (order : Order α) (q : Queue α) : Call α → Receipt α × Queue α
  | push x => (.pushed x, q.push order x)
  | update x => (.updated x, q.update order x)
  | pop =>
    match q.pop? order with
    | some (x, rest) => (.popped (some x), rest)
    | none => (.popped none, q)

/-! The calls under changing answers. -/

def updateBy (answers : Nat → Order α) (k : Nat) (q : Queue α) (x : α) : Queue α × Nat :=
  match q.position[x]? with
  | some i => siftUpBy answers k q i
  | none => (q, k)

def pushBy (answers : Nat → Order α) (k : Nat) (q : Queue α) (x : α) : Queue α × Nat :=
  if q.contains x then q.updateBy answers k x
  else siftUpBy answers k ⟨q.heap.push x, q.position.insert x q.heap.size⟩ q.heap.size

def popBy? (answers : Nat → Order α) (k : Nat) (q : Queue α) : Option (α × Queue α × Nat) :=
  match q.heap[0]?, q.heap[q.heap.size - 1]? with
  | some first, some last =>
    let heap := q.heap.pop
    let position := q.position.erase first
    if heap.isEmpty then some (first, ⟨heap, position⟩, k)
    else some (first, siftDownBy answers k ⟨heap.setIfInBounds 0 last, position.insert last 0⟩ 0)
  | _, _ => none

def Call.serveBy (answers : Nat → Order α) (k : Nat) (q : Queue α) :
    Call α → Receipt α × Queue α × Nat
  | push x => (.pushed x, q.pushBy answers k x)
  | update x => (.updated x, q.updateBy answers k x)
  | pop =>
    match q.popBy? answers k with
    | some (x, rest) => (.popped (some x), rest)
    | none => (.popped none, q, k)

structure Session (α : Type) [BEq α] [Hashable α] where
  queue : Queue α
  comparisons : Nat
  log : List (Receipt α)

def Session.call (answers : Nat → Order α) (s : Session α) (c : Call α) : Session α :=
  let (receipt, queue, k) := c.serveBy answers s.comparisons s.queue
  ⟨queue, k, s.log ++ [receipt]⟩

/-- Calls to a queue that is empty before. -/
def afterCalls (answers : Nat → Order α) (calls : List (Call α)) : Session α :=
  calls.foldl (Session.call answers) ⟨empty, 0, []⟩

variable {q : Queue α} {c : Call α} {x y : α}

theorem receipt_pop (order : Order α) (q : Queue α) :
    (Call.pop.serve order q).1 = .popped ((q.pop? order).map Prod.fst) := by
  rw [Call.serve]
  cases q.pop? order <;> rfl

theorem afterCalls_append_singleton (answers : Nat → Order α) (calls : List (Call α)) (c : Call α) :
    afterCalls answers (calls ++ [c]) = (afterCalls answers calls).call answers c :=
  List.foldl_concat _ _ _ _

/-! ### Counting comparisons -/

theorem comparisons_updateBy (hq : q.Indexed) (answers : Nat → Order α) (k : Nat) (x : α) :
    (q.updateBy answers k x).2 ≤ k + Nat.log 2 (q.size + 1) := by
  unfold updateBy
  split
  · next i hi =>
    have hlt : i < q.heap.size := (Array.getElem?_eq_some_iff.1 ((hq x i).1 hi)).1
    have hmono : Nat.log 2 (i + 1) ≤ Nat.log 2 (q.size + 1) :=
      Nat.log_mono_right (Nat.succ_le_succ hlt.le)
    exact (comparisons_siftUpBy answers k i).trans (Nat.add_le_add_left hmono k)
  · exact Nat.le_add_right _ _

theorem comparisons_pushBy (hq : q.Indexed) (answers : Nat → Order α) (k : Nat) (x : α) :
    (q.pushBy answers k x).2 ≤ k + Nat.log 2 (q.size + 1) := by
  unfold pushBy
  split
  · exact comparisons_updateBy hq answers k x
  · exact comparisons_siftUpBy answers k q.heap.size

theorem comparisons_popBy {rest : Queue α} {answers : Nat → Order α} {k l : Nat}
    (h : q.popBy? answers k = some (x, rest, l)) : l ≤ k + 2 * Nat.log 2 q.size := by
  unfold popBy? at h
  split at h
  · dsimp only at h
    split_ifs at h
    · cases h
      exact Nat.le_add_right _ _
    · obtain rfl := congrArg (fun p => p.2.2) (Option.some.inj h)
      refine (comparisons_siftDownBy answers k 0).trans ?_
      have hmono : Nat.log 2 ((q.heap.size - 1) / (0 + 1)) ≤ Nat.log 2 q.size :=
        Nat.log_mono_right ((Nat.div_le_self _ _).trans (Nat.sub_le _ _))
      simp only [Array.size_setIfInBounds, Array.size_pop]
      omega
  · cases h

/-- A call ends, after a number of comparisons that is logarithmic in the size of the queue. -/
theorem comparisons_serveBy (hq : q.Indexed) (answers : Nat → Order α) (k : Nat) (c : Call α) :
    (c.serveBy answers k q).2.2 ≤ k + 2 * Nat.log 2 (q.size + 1) := by
  cases c with
  | push x =>
    have := comparisons_pushBy hq answers k x
    exact this.trans (by omega)
  | update x =>
    have := comparisons_updateBy hq answers k x
    exact this.trans (by omega)
  | pop =>
    rw [Call.serveBy]
    split
    · next x rest h =>
      have hmono : Nat.log 2 q.size ≤ Nat.log 2 (q.size + 1) := Nat.log_mono_right (Nat.le_succ _)
      exact (comparisons_popBy h).trans (by omega)
    · exact Nat.le_add_right _ _

/-! ### One call -/

variable [LawfulBEq α] [LawfulHashable α]

theorem push_of_mem {order : Order α} (hq : q.Indexed) (hx : x ∈ q.heap) :
    q.push order x = q.update order x := by
  rw [push, if_pos (hq.contains_iff.2 hx)]

theorem Indexed.serve (hq : q.Indexed) (order : Order α) (c : Call α) :
    (c.serve order q).2.Indexed := by
  cases c with
  | push x =>
    by_cases hx : x ∈ q.heap
    · rw [Call.serve, push_of_mem hq hx]
      exact hq.update order x
    · exact hq.push order hx
  | update x => exact hq.update order x
  | pop =>
    rw [Call.serve]
    split
    · next hpop => exact hq.pop hpop
    · exact hq

/-- A push adds a member, a pop takes out the one that it returns, and nothing else changes. -/
theorem Indexed.mem_serve_iff (hq : q.Indexed) (order : Order α) (c : Call α) :
    y ∈ (c.serve order q).2.heap ↔ (c.serve order q).1 = .pushed y ∨
      (c.serve order q).1 ≠ .popped (some y) ∧ y ∈ q.heap := by
  cases c with
  | push x =>
    by_cases hx : x ∈ q.heap
    · rw [Call.serve, push_of_mem hq hx, (perm_update order q x).mem_iff, or_iff_right_of_imp]
      · exact (and_iff_right nofun).symm
      · rintro ⟨⟩
        exact ⟨nofun, hx⟩
    · rw [Call.serve, (perm_push hq hx).mem_iff, Array.mem_push, or_comm]
      refine or_congr ?_ (and_iff_right nofun).symm
      rw [Receipt.pushed.injEq, eq_comm]
  | update x =>
    rw [Call.serve, (perm_update order q x).mem_iff, or_iff_right nofun]
    exact (and_iff_right nofun).symm
  | pop =>
    rw [Call.serve]
    split
    · next x rest hpop =>
      rw [mem_pop_iff hq hpop, or_iff_right nofun, and_comm, ne_eq, ne_eq, Receipt.popped.injEq,
        Option.some.injEq, eq_comm]
    · rw [or_iff_right nofun]
      exact (and_iff_right nofun).symm

structure Kept (log : List (Receipt α)) (q : Queue α) : Prop where
  indexed : q.Indexed
  mem_iff : ∀ x, x ∈ q.heap ↔ Waiting log x

omit [LawfulBEq α] [LawfulHashable α] in
theorem kept_empty : Kept [] (empty : Queue α) :=
  ⟨indexed_empty, fun x => iff_of_false (Array.not_mem_empty x) not_lasting_nil⟩

theorem Kept.serve {log : List (Receipt α)} (h : Kept log q) (order : Order α) (c : Call α) :
    Kept (log ++ [(c.serve order q).1]) (c.serve order q).2 := by
  refine ⟨h.indexed.serve order c, fun x => ?_⟩
  rw [h.indexed.mem_serve_iff, waiting_append_singleton, h.mem_iff]

/-! ### One call under changing answers -/

theorem Indexed.exists_update (hq : q.Indexed) (answers : Nat → Order α) (k : Nat) (x : α) :
    ∃ order, DrawnFrom answers order ∧ (q.updateBy answers k x).1 = q.update order x := by
  unfold updateBy Queue.update
  cases q.position[x]? with
  | some i => exact hq.exists_siftUp answers k i
  | none => exact ⟨answers k, fun _ _ => ⟨k, rfl⟩, rfl⟩

theorem Indexed.exists_push (hq : q.Indexed) (answers : Nat → Order α) (k : Nat) (x : α) :
    ∃ order, DrawnFrom answers order ∧ (q.pushBy answers k x).1 = q.push order x := by
  unfold pushBy Queue.push
  split
  · exact hq.exists_update answers k x
  · next hx => exact (hq.grow (mt hq.contains_iff.2 hx)).exists_siftUp answers k _

theorem Indexed.exists_pop (hq : q.Indexed) (answers : Nat → Order α) (k : Nat) :
    ∃ order, DrawnFrom answers order ∧
      (q.popBy? answers k).map (fun p => (p.1, p.2.1)) = q.pop? order := by
  unfold popBy? pop?
  by_cases h0 : 0 < q.heap.size
  · have hfirst := Array.getElem?_eq_getElem h0
    have hlast := Array.getElem?_eq_getElem (Nat.sub_one_lt_of_lt h0)
    rw [hfirst, hlast]
    by_cases h1 : 1 < q.heap.size
    · obtain ⟨order, hdrawn, horder⟩ := (hq.uproot h1 hfirst hlast).exists_siftDown answers k 0
      have hne : ¬ q.heap.pop.isEmpty := by
        rw [Array.isEmpty_iff_size_eq_zero, Array.size_pop]
        omega
      refine ⟨order, hdrawn, ?_⟩
      rw [dif_pos h0]
      dsimp only
      rw [if_neg hne, if_neg hne, ← horder]
      rfl
    · have he : q.heap.pop.isEmpty := by
        rw [Array.isEmpty_iff_size_eq_zero, Array.size_pop]
        omega
      refine ⟨answers k, fun _ _ => ⟨k, rfl⟩, ?_⟩
      rw [dif_pos h0]
      dsimp only
      rw [if_pos he, if_pos he]
      rfl
  · refine ⟨answers k, fun _ _ => ⟨k, rfl⟩, ?_⟩
    rw [dif_neg h0, Array.getElem?_eq_none (Nat.le_of_not_lt h0)]
    rfl

/-- A call does what it would under some order that does not change. -/
theorem Indexed.exists_serve (hq : q.Indexed) (answers : Nat → Order α) (k : Nat) (c : Call α) :
    ∃ order, DrawnFrom answers order ∧
      (c.serveBy answers k q).1 = (c.serve order q).1 ∧
      (c.serveBy answers k q).2.1 = (c.serve order q).2 := by
  cases c with
  | push x =>
    obtain ⟨order, hdrawn, h⟩ := hq.exists_push answers k x
    exact ⟨order, hdrawn, rfl, h⟩
  | update x =>
    obtain ⟨order, hdrawn, h⟩ := hq.exists_update answers k x
    exact ⟨order, hdrawn, rfl, h⟩
  | pop =>
    obtain ⟨order, hdrawn, h⟩ := hq.exists_pop answers k
    refine ⟨order, hdrawn, ?_⟩
    rw [Call.serveBy, Call.serve, ← h]
    cases q.popBy? answers k with
    | none => exact ⟨rfl, rfl⟩
    | some p => exact ⟨rfl, rfl⟩

/-- Answers that do not change are those of an order. -/
theorem Indexed.serveBy_const (hq : q.Indexed) (order : Order α) (k : Nat) (c : Call α) :
    (c.serveBy (fun _ => order) k q).1 = (c.serve order q).1 ∧
      (c.serveBy (fun _ => order) k q).2.1 = (c.serve order q).2 := by
  obtain ⟨order', hdrawn, h⟩ := hq.exists_serve (fun _ => order) k c
  have hsame : order' = order := by
    funext x y
    obtain ⟨_, hxy⟩ := hdrawn x y
    exact hxy
  exact hsame ▸ h

/-! ### A session -/

theorem Kept.call {s : Session α} (h : Kept s.log s.queue) (answers : Nat → Order α) (c : Call α) :
    Kept (s.call answers c).log (s.call answers c).queue := by
  obtain ⟨order, -, hreceipt, hqueue⟩ := h.indexed.exists_serve answers s.comparisons c
  have hserve := h.serve order c
  rw [← hreceipt, ← hqueue] at hserve
  exact hserve

theorem kept_afterCalls (answers : Nat → Order α) (calls : List (Call α)) :
    Kept (afterCalls answers calls).log (afterCalls answers calls).queue := by
  induction calls using List.reverseRecOn with
  | nil => exact kept_empty
  | append_singleton calls c ih =>
    rw [afterCalls_append_singleton]
    exact ih.call answers c

/-- What is in a queue after the calls of `log`. Its two halves are inverse to each other. -/
structure Accounted (log : List (Receipt α)) (q : Queue α) : Prop where
  nodup : q.heap.toList.Nodup
  same_members : ∀ x, x ∈ q.position ↔ x ∈ q.heap
  position_heap : ∀ (i : Nat) (h : i < q.heap.size), q.position[q.heap[i]]? = some i
  contains_iff : ∀ x, q.contains x = true ↔ Waiting log x
  size : {x | Waiting log x}.encard = q.size

theorem Kept.accounted {log : List (Receipt α)} (h : Kept log q) : Accounted log q := by
  classical
  refine ⟨h.indexed.nodup, fun x => ?_, fun i hi => ?_, fun x => ?_, ?_⟩
  · exact Std.HashMap.contains_iff_mem.symm.trans h.indexed.contains_iff
  · exact (h.indexed _ i).2 (Array.getElem?_eq_getElem hi)
  · exact h.indexed.contains_iff.trans (h.mem_iff x)
  · have hset : {x | Waiting log x} = q.heap.toList.toFinset := by
      ext x
      rw [Set.mem_ofPred_eq, ← h.mem_iff, Finset.mem_coe, List.mem_toFinset, Array.mem_toList_iff]
    rw [hset, Set.encard_coe_eq_coe_finsetCard, List.toFinset_card_of_nodup h.indexed.nodup]
    rfl

structure Served (answers : Nat → Order α) (s : Session α) (c : Call α) (s' : Session α) :
    Prop where
  /-- What the call does under some order that does not change while it runs. -/
  fixed : ∃ order, DrawnFrom answers order ∧
    s'.queue = (c.serve order s.queue).2 ∧ s'.log = s.log ++ [(c.serve order s.queue).1]
  comparisons : s'.comparisons ≤ s.comparisons + 2 * Nat.log 2 (s.queue.size + 1)
  push : ∀ x, c = .push x → s.queue.contains x = true →
    ∀ y, s'.queue.contains y = s.queue.contains y
  update : ∀ x, c = .update x → ∀ y, s'.queue.contains y = s.queue.contains y
  pop : c = .pop → ∃ o, s'.log = s.log ++ [.popped o] ∧
    (o = none ↔ s.queue.isEmpty = true) ∧ (∀ x, o = some x → s.queue.contains x = true) ∧
    ∀ y, s'.queue.contains y = true ↔ s.queue.contains y = true ∧ o ≠ some y

theorem Indexed.contains_serve_iff (hq : q.Indexed) (order : Order α) (c : Call α) (y : α) :
    (c.serve order q).2.contains y = true ↔ (c.serve order q).1 = .pushed y ∨
      q.contains y = true ∧ (c.serve order q).1 ≠ .popped (some y) := by
  rw [(hq.serve order c).contains_iff, hq.mem_serve_iff, hq.contains_iff, and_comm]

theorem Indexed.served {s : Session α} (hs : s.queue.Indexed) (answers : Nat → Order α)
    (c : Call α) : Served answers s c (s.call answers c) := by
  obtain ⟨order, hdrawn, hreceipt, hqueue⟩ := hs.exists_serve answers s.comparisons c
  have hqueue : (s.call answers c).queue = (c.serve order s.queue).2 := hqueue
  have hlog : (s.call answers c).log = s.log ++ [(c.serve order s.queue).1] :=
    congrArg (s.log ++ [·]) hreceipt
  have hcontains := hs.contains_serve_iff order c
  refine ⟨⟨order, hdrawn, hqueue, hlog⟩, comparisons_serveBy hs answers _ c,
    fun x hc hx y => ?_, fun x hc y => ?_, fun hc => ?_⟩
  · subst hc
    rw [hqueue, Bool.eq_iff_iff, hcontains, and_iff_left nofun]
    refine or_iff_right_of_imp ?_
    rintro ⟨⟩
    exact hx
  · subst hc
    rw [hqueue, Bool.eq_iff_iff, hcontains, and_iff_left nofun]
    exact or_iff_right nofun
  · subst hc
    refine ⟨(s.queue.pop? order).map Prod.fst, ?_, ?_, fun x hx => ?_, fun y => ?_⟩
    · rw [hlog, receipt_pop]
    · rw [Option.map_eq_none_iff, pop?_eq_none_iff]
      exact Array.isEmpty_iff.symm
    · obtain ⟨⟨_, rest⟩, hpop, rfl⟩ := Option.map_eq_some_iff.1 hx
      exact hs.contains_iff.2 (Array.mem_of_getElem? (pop?_cases hpop).1)
    · rw [hqueue, hcontains, receipt_pop, or_iff_right nofun, ne_eq, Receipt.popped.injEq]

/-- Whatever the order answers, and however often it changes its mind, the two halves of the queue
are inverse to each other, and it contains what was pushed and not popped since. -/
theorem calls_accounted (answers : Nat → Order α) (calls : List (Call α)) (c : Call α) :
    Accounted (afterCalls answers calls).log (afterCalls answers calls).queue ∧
      Served answers (afterCalls answers calls) c (afterCalls answers (calls ++ [c])) := by
  have h := kept_afterCalls answers calls
  rw [afterCalls_append_singleton]
  exact ⟨h.accounted, h.indexed.served answers c⟩

end Calls

/-- Each member comes before the next of three, and in every third comparison after it. -/
def fickle (k : Nat) : Order Nat := fun x y =>
  if k % 3 = 2 then some .gt else some (if y % 3 = (x + 1) % 3 then .lt else .gt)

theorem calls_accounted_fickle :
    (afterCalls fickle [.push 3, .push 4, .push 5, .push 4, .pop, .update 3]).log =
      [.pushed 3, .pushed 4, .pushed 5, .pushed 4, .popped (some 5), .updated 3] ∧
    Accounted (afterCalls fickle [.push 3, .push 4, .push 5, .push 4, .pop, .update 3]).log
      (afterCalls fickle [.push 3, .push 4, .push 5, .push 4, .pop, .update 3]).queue ∧
    Served fickle (afterCalls fickle [.push 3, .push 4, .push 5, .push 4, .pop, .update 3]) .pop
      (afterCalls fickle [.push 3, .push 4, .push 5, .push 4, .pop, .update 3, .pop]) :=
  ⟨by cbv, calls_accounted fickle _ .pop⟩

end Queue

end LinkState
