import LinkState.Proofs.Queue.Calls

/-! A queue ordered by keys that may fall while their members wait. As long as each member whose
key has fallen is pushed or updated before another call is made, `pop?` takes out one with the least
key, and `drain` all of them, by their keys. -/

namespace LinkState

namespace Queue

section Keys

variable {α κ : Type} [LinearOrder κ]

def byKey (key : α → κ) : Order α := fun x y => some (compare (key x) (key y))

theorem ranked_byKey (key : α → κ) (heap : Array α) : Ranked (byKey key) key heap :=
  fun _ _ _ _ => rfl

/-- The calls that move `x` up. -/
def Lifts (c : Call α) (x : α) : Prop := c = .push x ∨ c = .update x

instance [DecidableEq α] (c : Call α) (x : α) : Decidable (Lifts c x) :=
  inferInstanceAs (Decidable (_ ∨ _))

theorem not_lifts_pop (x : α) : ¬ Lifts .pop x :=
  fun h => h.elim nofun nofun

theorem Lifts.unique {c : Call α} {x y : α} (hx : Lifts c x) (hy : Lifts c y) : x = y := by
  rcases hx with rfl | rfl <;> rcases hy with hy | hy <;> cases hy <;> rfl

/-- A change of a key, of which the queue is not told, or a call to the queue. -/
inductive Act (α κ : Type) where
  | rekey (x : α) (k : κ)
  | call (c : Call α)

def firstCall? (acts : List (Act α κ)) : Option (Call α) :=
  acts.findSome? fun
    | .rekey _ _ => none
    | .call c => some c

variable [BEq α] [Hashable α]

structure Keyed (α κ : Type) [BEq α] [Hashable α] where
  queue : Queue α
  key : α → κ
  log : List (Receipt α)

def Keyed.act (s : Keyed α κ) : Act α κ → Keyed α κ
  | .rekey x k => { s with key := fun y => if x == y then k else s.key y }
  | .call c => { s with
      queue := (c.serve (byKey s.key) s.queue).2
      log := s.log ++ [(c.serve (byKey s.key) s.queue).1] }

/-- The key of a member only falls, and when it has fallen the next call moves the member up. -/
def Keyed.Heeded (s : Keyed α κ) : List (Act α κ) → Prop
  | [] => True
  | .rekey x k :: after => (Waiting s.log x → k ≤ s.key x ∧
      (k < s.key x → ∀ c ∈ firstCall? after, Lifts c x)) ∧ (s.act (.rekey x k)).Heeded after
  | .call c :: after => (s.act (.call c)).Heeded after

instance Keyed.decidableHeeded [DecidableEq α] :
    ∀ (s : Keyed α κ) (acts : List (Act α κ)), Decidable (s.Heeded acts)
  | _, [] => .isTrue trivial
  | s, .rekey x k :: after =>
    have := Keyed.decidableHeeded (s.act (.rekey x k)) after
    inferInstanceAs (Decidable ((Waiting s.log x → k ≤ s.key x ∧
      (k < s.key x → ∀ c ∈ firstCall? after, Lifts c x)) ∧ (s.act (.rekey x k)).Heeded after))
  | s, .call c :: after => Keyed.decidableHeeded (s.act (.call c)) after

/-! ### Taking everything out -/

section Drain

variable [LawfulBEq α] [LawfulHashable α] {q rest : Queue α} {key : α → κ} {n : Nat} {xs : List α}

theorem popUpTo_spec (hq : q.Indexed) (hs : Sorted key q.heap) (hn : q.heap.size = n)
    (h : q.popUpTo (byKey key) n = (xs, rest)) :
    rest.heap = #[] ∧ xs.Nodup ∧ (∀ x, x ∈ xs ↔ x ∈ q.heap) ∧
      xs.Pairwise fun x y => key x ≤ key y := by
  induction n generalizing q xs with
  | zero =>
    obtain ⟨rfl, rfl⟩ := Prod.mk.inj h
    have he := Array.size_eq_zero_iff.1 hn
    refine ⟨he, List.nodup_nil, fun x => ?_, List.Pairwise.nil⟩
    rw [he]
    exact iff_of_false List.not_mem_nil (Array.not_mem_empty x)
  | succ n ih =>
    cases hpop : q.pop? (byKey key) with
    | none =>
      rw [pop?_eq_none_iff.1 hpop] at hn
      cases hn
    | some p =>
      obtain ⟨x, q'⟩ := p
      rw [popUpTo, hpop] at h
      obtain ⟨rfl, hrest⟩ := Prod.mk.inj h
      have hsize : (q'.heap.push x).size = q.heap.size := (perm_pop hpop).size_eq
      rw [Array.size_push] at hsize
      obtain ⟨hsorted, hleast⟩ := hs.pop (ranked_byKey key q.heap) hpop
      obtain ⟨hempty, hnodup, hmem, hpair⟩ :=
        ih (hq.pop hpop) hsorted (by omega) (Prod.ext rfl hrest)
      have hmem' (y : α) := (hmem y).trans (mem_pop_iff hq hpop)
      have hx : x ∈ q.heap := Array.mem_of_getElem? (pop?_cases hpop).1
      refine ⟨hempty, List.nodup_cons.2 ⟨fun hx => ((hmem' x).1 hx).2 rfl, hnodup⟩, fun y => ?_,
        List.pairwise_cons.2 ⟨fun y hy => hleast y ((hmem' y).1 hy).1, hpair⟩⟩
      rw [List.mem_cons, hmem']
      refine ⟨?_, fun hy => or_iff_not_imp_left.2 fun hne => ⟨hy, hne⟩⟩
      rintro (rfl | ⟨hy, -⟩)
      · exact hx
      · exact hy

end Drain

/-! ### One act -/

section Steps

variable {s : Keyed α κ} {before after : List (Act α κ)} {c : Call α} {x : α} {k : κ}

/-- The heap is sorted by the keys as they were when their members were last moved, and only a
member that is moved next may have got another key since. -/
structure Keyed.InOrder (s : Keyed α κ) (after : List (Act α κ)) : Prop
    extends Kept s.log s.queue where
  sorted : ∃ rank : α → κ, Sorted rank s.queue.heap ∧ ∀ x ∈ s.queue.heap,
    s.key x ≤ rank x ∧ (s.key x < rank x → ∀ c ∈ firstCall? after, Lifts c x)

/-- At a call no other member than the one that is moved has got another key. -/
theorem Keyed.InOrder.settled (hs : s.InOrder (.call c :: after)) :
    ∃ rank : α → κ, Sorted rank s.queue.heap ∧
      ∀ x ∈ s.queue.heap, s.key x ≤ rank x ∧ (¬ Lifts c x → s.key x = rank x) := by
  obtain ⟨rank, hsorted, hrank⟩ := hs.sorted
  refine ⟨rank, hsorted, fun x hx => ⟨(hrank x hx).1, fun hc => ?_⟩⟩
  exact (hrank x hx).1.eq_of_not_lt fun hlt => hc ((hrank x hx).2 hlt c rfl)

theorem Keyed.InOrder.sorted_key (hs : s.InOrder (.call c :: after))
    (hc : ∀ x ∈ s.queue.heap, ¬ Lifts c x) : Sorted s.key s.queue.heap := by
  obtain ⟨rank, hsorted, hrank⟩ := hs.settled
  exact hsorted.congr fun x hx => (hrank x hx).2 (hc x hx)

theorem update_of_not_mem {order : Order α} {q : Queue α} (hq : q.Indexed) (hx : x ∉ q.heap) :
    q.update order x = q := by
  have hnone : q.position[x]? = none := Option.eq_none_iff_forall_ne_some.2 fun i hi =>
    hx (Array.mem_of_getElem? ((hq x i).1 hi))
  rw [Queue.update, hnone]

theorem Keyed.InOrder.sorted_update (hs : s.InOrder (.call c :: after)) (hc : Lifts c x) :
    Sorted s.key (s.queue.update (byKey s.key) x).heap := by
  have others {y : α} (hyx : y ≠ x) : ¬ Lifts c y := fun hy => hyx (hy.unique hc)
  by_cases hx : x ∈ s.queue.heap
  · obtain ⟨rank, hsorted, hrank⟩ := hs.settled
    exact hsorted.update hs.indexed (ranked_byKey s.key _)
      (fun y hy hyx => (hrank y hy).2 (others hyx)) (hrank x hx).1
  · rw [update_of_not_mem hs.indexed hx]
    exact hs.sorted_key fun y hy => others (ne_of_mem_of_not_mem hy hx)

variable [LawfulBEq α]

theorem Keyed.InOrder.rekey (hs : s.InOrder (.rekey x k :: after))
    (h : Waiting s.log x → k ≤ s.key x ∧ (k < s.key x → ∀ c ∈ firstCall? after, Lifts c x)) :
    (s.act (.rekey x k)).InOrder after := by
  obtain ⟨rank, hsorted, hrank⟩ := hs.sorted
  refine ⟨hs.toKept, rank, hsorted, fun y hy => ?_⟩
  obtain ⟨hle, hlifts⟩ := hrank y hy
  show (if x == y then k else s.key y) ≤ rank y ∧
    ((if x == y then k else s.key y) < rank y → ∀ c ∈ firstCall? after, Lifts c y)
  by_cases hxy : x = y
  · subst hxy
    obtain ⟨hk, hnext⟩ := h ((hs.mem_iff x).1 hy)
    rw [if_pos (beq_self_eq_true x)]
    refine ⟨hk.trans hle, fun hlt => ?_⟩
    rcases hk.lt_or_eq with hk | rfl
    · exact hnext hk
    · exact hlifts hlt
  · rw [if_neg (mt eq_of_beq hxy)]
    exact ⟨hle, hlifts⟩

variable [LawfulHashable α]

/-- A call leaves the heap sorted by the keys as they are. -/
theorem Keyed.InOrder.sorted_serve (hs : s.InOrder (.call c :: after)) :
    Sorted s.key (c.serve (byKey s.key) s.queue).2.heap := by
  cases c with
  | push x =>
    by_cases hx : x ∈ s.queue.heap
    · rw [Call.serve, push_of_mem hs.indexed hx]
      exact hs.sorted_update (.inl rfl)
    · have others (y : α) (hy : y ∈ s.queue.heap) : ¬ Lifts (.push x) y := fun h =>
        hx (h.unique (.inl rfl) ▸ hy)
      exact Sorted.push (hs.sorted_key others) hs.indexed hx (ranked_byKey s.key _)
  | update x => exact hs.sorted_update (.inr rfl)
  | pop =>
    have hkey : Sorted s.key s.queue.heap := hs.sorted_key fun x _ => not_lifts_pop x
    rw [Call.serve]
    split
    · next hpop => exact (hkey.pop (ranked_byKey s.key _) hpop).1
    · exact hkey

theorem Keyed.InOrder.call (hs : s.InOrder (.call c :: after)) :
    (s.act (.call c)).InOrder after :=
  ⟨hs.toKept.serve _ c, s.key, hs.sorted_serve,
    fun _ _ => ⟨le_refl _, fun hlt => absurd hlt (lt_irrefl _)⟩⟩

theorem Keyed.InOrder.foldl (hs : s.InOrder (before ++ after)) (h : s.Heeded (before ++ after)) :
    (before.foldl Keyed.act s).InOrder after := by
  induction before generalizing s with
  | nil => exact hs
  | cons a before ih =>
    cases a with
    | rekey x k => exact ih (hs.rekey h.1) h.2
    | call c => exact ih hs.call h

/-! ### From an empty queue -/

def unused (key : α → κ) : Keyed α κ := ⟨empty, key, []⟩

omit [LawfulBEq α] [LawfulHashable α] in
theorem inOrder_unused (key : α → κ) (after : List (Act α κ)) : (unused key).InOrder after :=
  ⟨kept_empty, key,
    fun _ x _ _ hx => (Option.some_ne_none x (hx.symm.trans Array.getElem?_empty)).elim,
    fun x hx => (Array.not_mem_empty x hx).elim⟩

/-- What is taken out next has the least key of all that waits, and everything comes by its key. -/
structure Keyed.Prompt (s : Keyed α κ) : Prop where
  least : ∀ x rest, s.queue.pop? (byKey s.key) = some (x, rest) →
    Waiting s.log x ∧ ∀ y, Waiting s.log y → s.key x ≤ s.key y
  exhausted : s.queue.pop? (byKey s.key) = none → ∀ x, ¬ Waiting s.log x
  drained : (s.queue.drain (byKey s.key)).2.isEmpty = true
  nodup : (s.queue.drain (byKey s.key)).1.Nodup
  mem_drain_iff : ∀ x, x ∈ (s.queue.drain (byKey s.key)).1 ↔ Waiting s.log x
  sorted_drain : (s.queue.drain (byKey s.key)).1.Pairwise fun x y => s.key x ≤ s.key y

theorem Keyed.InOrder.prompt (hs : s.InOrder (.call .pop :: after)) : s.Prompt := by
  have hkey : Sorted s.key s.queue.heap := hs.sorted_key fun x _ => not_lifts_pop x
  obtain ⟨hempty, hnodup, hmem, hpair⟩ := popUpTo_spec hs.indexed hkey rfl rfl
  refine ⟨fun x rest hpop => ?_, fun hpop x hx => ?_, ?_, hnodup,
    fun x => (hmem x).trans (hs.mem_iff x), hpair⟩
  · refine ⟨(hs.mem_iff x).1 (Array.mem_of_getElem? (pop?_cases hpop).1), fun y hy => ?_⟩
    exact (hkey.pop (ranked_byKey s.key _) hpop).2 y ((hs.mem_iff y).2 hy)
  · have hx := (hs.mem_iff x).2 hx
    rw [pop?_eq_none_iff.1 hpop] at hx
    exact Array.not_mem_empty x hx
  · exact Array.isEmpty_iff.2 hempty

/-- If each member is moved up as soon as its key has fallen, the queue gives out its members by
their keys. -/
theorem pops_by_key (key : α → κ) (h : (unused key).Heeded (before ++ .call .pop :: after)) :
    (before.foldl Keyed.act (unused key)).Prompt :=
  ((inOrder_unused key _).foldl h).prompt

end Steps

end Keys

/-- Keys fall while their members wait, and the key of a member that is not there is set. -/
def fallen : List (Act Nat Nat) :=
  [.rekey 7 100, .call (.push 1), .call (.push 2), .call (.push 3), .rekey 3 5, .call (.update 3),
    .rekey 2 5, .call (.push 2), .call .pop]

theorem pops_by_key_fallen :
    (unused (10 * ·)).Heeded (fallen ++ [.call .pop, .rekey 3 70, .call (.push 3)]) ∧
      (fallen.foldl Keyed.act (unused (10 * ·))).log.getLast? = some (.popped (some 3)) ∧
      (fallen.foldl Keyed.act (unused (10 * ·))).Prompt := by
  have h : decide ((unused (10 * ·)).Heeded
      (fallen ++ [.call .pop, .rekey 3 70, .call (.push 3)])) = true := by cbv
  exact ⟨of_decide_eq_true h, by cbv, pops_by_key (10 * ·) (of_decide_eq_true h)⟩

end Queue

end LinkState
