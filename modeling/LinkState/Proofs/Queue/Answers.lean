import LinkState.Proofs.Queue.Order

/-! Moving members under an order that changes its mind: `answers k` is the order as it stands when
the comparison number `k` is made. No walk through the heap compares a pair twice, so that some
order that does not change moves the members alike. A walk up makes no more comparisons than it has
levels above it, a walk down no more than two for each level below. -/

namespace LinkState

namespace Queue

section Children

variable {α : Type}

/-- The order says of each pair what is answered at one time or another. -/
def DrawnFrom (answers : Nat → Order α) (order : Order α) : Prop :=
  ∀ x y, ∃ k, order x y = answers k x y

/-! Each of the following does under changing answers what its namesake does under one order, and
counts the comparisons on from `k`. -/

def beforeBy (answers : Nat → Order α) (k : Nat) (heap : Array α) (i j : Nat) : Nat × Nat :=
  match heap[i]?, heap[j]? with
  | some x, some y => (if answers k y x = some .lt then j else i, k + 1)
  | _, _ => (i, k)

def leastBy (answers : Nat → Order α) (k : Nat) (heap : Array α) (i : Nat) : Nat × Nat :=
  let first := beforeBy answers k heap i (2 * i + 1)
  beforeBy answers first.2 heap first.1 (2 * i + 2)

theorem before_congr {order order' : Order α} {heap : Array α} {i j : Nat}
    (h : ∀ x y, heap[j]? = some y → order y x = order' y x) :
    before order heap i j = before order' heap i j := by
  unfold before
  split
  · next x y _ hy => rw [h x y hy]
  · rfl

theorem before_cases (order : Order α) (heap : Array α) (i j : Nat) :
    before order heap i j = i ∨ before order heap i j = j := by
  unfold before
  split
  · split
    · exact .inr rfl
    · exact .inl rfl
  · exact .inl rfl

theorem fst_beforeBy (answers : Nat → Order α) (k : Nat) (heap : Array α) (i j : Nat) :
    (beforeBy answers k heap i j).1 = before (answers k) heap i j := by
  rw [beforeBy, before]
  cases heap[i]? with
  | none => rfl
  | some x => cases heap[j]? <;> rfl

theorem snd_beforeBy (answers : Nat → Order α) (k : Nat) (heap : Array α) (i j : Nat) :
    (beforeBy answers k heap i j).2 ≤ if j < heap.size then k + 1 else k := by
  rw [beforeBy]
  cases heap[i]? with
  | none => dsimp only; split <;> omega
  | some x =>
    cases hy : heap[j]? with
    | none => dsimp only; split <;> omega
    | some y => rw [if_pos (Array.getElem?_eq_some_iff.1 hy).1]

theorem least_congr {order order' : Order α} {heap : Array α} {i : Nat}
    (h : ∀ j, 2 * i < j → ∀ x y, heap[j]? = some y → order y x = order' y x) :
    least order heap i = least order' heap i := by
  rw [least, least, before_congr (h _ (by omega)), before_congr (h _ (by omega))]

/-- There are comparisons only where there are children. -/
theorem snd_leastBy (answers : Nat → Order α) (k : Nat) (heap : Array α) (i : Nat) :
    (leastBy answers k heap i).2 ≤ if 2 * i + 1 < heap.size then k + 2 else k := by
  have left := snd_beforeBy answers k heap i (2 * i + 1)
  have right := snd_beforeBy answers (beforeBy answers k heap i (2 * i + 1)).2 heap
    (beforeBy answers k heap i (2 * i + 1)).1 (2 * i + 2)
  rw [leastBy]
  split_ifs at left right ⊢ <;> omega

theorem fst_leastBy (answers : Nat → Order α) (k : Nat) (heap : Array α) (i : Nat) :
    (leastBy answers k heap i).1 = before (answers (beforeBy answers k heap i (2 * i + 1)).2) heap
      (before (answers k) heap i (2 * i + 1)) (2 * i + 2) := by
  rw [leastBy, fst_beforeBy, fst_beforeBy]

theorem leastBy_cases (answers : Nat → Order α) (k : Nat) (heap : Array α) (i : Nat) :
    (leastBy answers k heap i).1 = i ∨
      (leastBy answers k heap i).1 = 2 * i + 1 ∨ (leastBy answers k heap i).1 = 2 * i + 2 := by
  rw [fst_leastBy]
  rcases before_cases (answers (beforeBy answers k heap i (2 * i + 1)).2) heap
    (before (answers k) heap i (2 * i + 1)) (2 * i + 2) with h | h
  · rw [h]
    exact (before_cases (answers k) heap i (2 * i + 1)).imp_right .inl
  · exact .inr (.inr h)

theorem log_child {n i j : Nat} (hi : 2 * i < j) (hj : j < n) :
    Nat.log 2 (n / (j + 1)) + 1 ≤ Nat.log 2 (n / (i + 1)) := by
  have htwo : 2 ≤ n / (i + 1) := by
    rw [Nat.le_div_iff_mul_le (Nat.succ_pos i)]
    omega
  have hhalf : n / (j + 1) ≤ n / (i + 1) / 2 := by
    rw [Nat.div_div_eq_div_mul]
    exact Nat.div_le_div_left (by omega) (by omega)
  rw [Nat.log_of_one_lt_of_le Nat.one_lt_two htwo]
  exact Nat.succ_le_succ (Nat.log_mono_right hhalf)

end Children

section Walks

variable {α : Type} [BEq α] [Hashable α]

def siftUpBy (answers : Nat → Order α) (k : Nat) (q : Queue α) (i : Nat) : Queue α × Nat :=
  if i = 0 then (q, k)
  else
    match q.heap[i]?, q.heap[parent i]? with
    | some x, some y =>
      match answers k x y with
      | some .eq | some .gt => (q, k + 1)
      | _ => siftUpBy answers (k + 1) (q.swap i (parent i)) (parent i)
    | _, _ => (q, k)
termination_by i
decreasing_by all_goals (simp only [parent]; omega)

def siftDownBy (answers : Nat → Order α) (k : Nat) (q : Queue α) (i : Nat) : Queue α × Nat :=
  let (j, k) := leastBy answers k q.heap i
  if i < j ∧ j < q.heap.size then siftDownBy answers k (q.swap i j) j else (q, k)
termination_by q.heap.size - i
decreasing_by rw [size_swap]; omega

/-! ### The way up -/

theorem heap_swap_of_ne (q : Queue α) {i j k : Nat} (hi : k ≠ i) (hj : k ≠ j) :
    (q.swap i j).heap[k]? = q.heap[k]? := by
  by_cases gi : i < q.heap.size
  · by_cases gj : j < q.heap.size
    · rw [heap_swap q gi gj, Equiv.swap_apply_of_ne_of_ne hi hj]
    · rw [swap, dif_pos gi, dif_neg gj]
  · rw [swap, dif_neg gi]

def Stays (o : Option Ordering) : Prop := o = some .eq ∨ o = some .gt

instance (o : Option Ordering) : Decidable (Stays o) := inferInstanceAs (Decidable (_ ∨ _))

theorem siftUp_zero (order : Order α) (q : Queue α) : siftUp order q 0 = q := by
  rw [siftUp, if_pos rfl]

theorem siftUpBy_zero (answers : Nat → Order α) (k : Nat) (q : Queue α) :
    siftUpBy answers k q 0 = (q, k) := by
  rw [siftUpBy, if_pos rfl]

theorem siftUp_outside (order : Order α) {q : Queue α} {i : Nat} (hx : q.heap[i]? = none) :
    siftUp order q i = q := by
  rw [siftUp, hx]
  split <;> rfl

theorem siftUpBy_outside (answers : Nat → Order α) (k : Nat) {q : Queue α} {i : Nat}
    (hx : q.heap[i]? = none) : siftUpBy answers k q i = (q, k) := by
  rw [siftUpBy, hx]
  split <;> rfl

variable {q : Queue α} {i : Nat} {x y : α}

theorem siftUp_turn (order : Order α) (hi : 0 < i) (hx : q.heap[i]? = some x)
    (hy : q.heap[parent i]? = some y) : siftUp order q i =
      if Stays (order x y) then q else siftUp order (q.swap i (parent i)) (parent i) := by
  rw [siftUp, if_neg (Nat.ne_of_gt hi), hx, hy]
  dsimp only
  cases order x y with
  | none => rfl
  | some o => cases o <;> rfl

theorem siftUpBy_turn (answers : Nat → Order α) (k : Nat) (hi : 0 < i) (hx : q.heap[i]? = some x)
    (hy : q.heap[parent i]? = some y) : siftUpBy answers k q i =
      if Stays (answers k x y) then (q, k + 1)
      else siftUpBy answers (k + 1) (q.swap i (parent i)) (parent i) := by
  rw [siftUpBy, if_neg (Nat.ne_of_gt hi), hx, hy]
  dsimp only
  cases answers k x y with
  | none => rfl
  | some o => cases o <;> rfl

/-- The way up depends on what the order says about the members above. -/
theorem siftUp_congr {order order' : Order α}
    (h : ∀ j < i, ∀ x y, q.heap[j]? = some y → order x y = order' x y) :
    siftUp order q i = siftUp order' q i := by
  induction i using Nat.strongRecOn generalizing q with
  | ind i ih =>
    rcases Nat.eq_zero_or_pos i with rfl | hi
    · rw [siftUp_zero, siftUp_zero]
    · cases hx : q.heap[i]? with
      | none => rw [siftUp_outside _ hx, siftUp_outside _ hx]
      | some x =>
        obtain ⟨y, hy⟩ := exists_earlier (Nat.le_of_lt (parent_lt hi)) hx
        rw [siftUp_turn order hi hx hy, siftUp_turn order' hi hx hy, h _ (parent_lt hi) x y hy]
        refine if_congr Iff.rfl rfl (ih _ (parent_lt hi) fun j hj u v hv => ?_)
        have hji := Nat.lt_trans hj (parent_lt hi)
        rw [heap_swap_of_ne q (Nat.ne_of_lt hji) (Nat.ne_of_lt hj)] at hv
        exact h j hji u v hv

/-- A walk up makes no more comparisons than there are levels above. -/
theorem comparisons_siftUpBy (answers : Nat → Order α) (k i : Nat) :
    (siftUpBy answers k q i).2 ≤ k + Nat.log 2 (i + 1) := by
  induction i using Nat.strongRecOn generalizing q k with
  | ind i ih =>
    rcases Nat.eq_zero_or_pos i with rfl | hi
    · rw [siftUpBy_zero]
      exact Nat.le_add_right _ _
    · cases hx : q.heap[i]? with
      | none =>
        rw [siftUpBy_outside _ _ hx]
        exact Nat.le_add_right _ _
      | some x =>
        obtain ⟨y, hy⟩ := exists_earlier (Nat.le_of_lt (parent_lt hi)) hx
        have hlog : Nat.log 2 (i + 1) = Nat.log 2 (parent i + 1) + 1 := by
          rw [Nat.log_of_one_lt_of_le Nat.one_lt_two (by omega)]
          congr 2
          unfold parent
          omega
        rw [siftUpBy_turn _ _ hi hx hy]
        split
        · dsimp only
          omega
        · have := ih _ (parent_lt hi) (q := q.swap i (parent i)) (k + 1)
          omega

/-! ### The way down -/

theorem siftDown_turn (order : Order α) (q : Queue α) (i : Nat) : siftDown order q i =
    if i < least order q.heap i ∧ least order q.heap i < q.heap.size then
      siftDown order (q.swap i (least order q.heap i)) (least order q.heap i)
    else q := by
  rw [siftDown]

theorem siftDownBy_turn (answers : Nat → Order α) (k : Nat) (q : Queue α) (i : Nat) :
    siftDownBy answers k q i =
      if i < (leastBy answers k q.heap i).1 ∧ (leastBy answers k q.heap i).1 < q.heap.size then
        siftDownBy answers (leastBy answers k q.heap i).2
          (q.swap i (leastBy answers k q.heap i).1) (leastBy answers k q.heap i).1
      else (q, (leastBy answers k q.heap i).2) := by
  rw [siftDownBy]

/-- The way down depends on what the order says about the members below. -/
theorem siftDown_congr {order order' : Order α}
    (h : ∀ j, 2 * i < j → ∀ x y, q.heap[j]? = some y → order y x = order' y x) :
    siftDown order q i = siftDown order' q i := by
  have hleast := least_congr h
  fun_induction siftDown order q i with
  | case1 q i j hj ih =>
    have hj' : i < least order' q.heap i ∧ least order' q.heap i < q.heap.size := hleast ▸ hj
    have below {l : Nat} (hl : 2 * j < l) (x y : α) (hy : (q.swap i j).heap[l]? = some y) :
        order y x = order' y x := by
      rw [heap_swap_of_ne q (by omega) (by omega)] at hy
      exact h l (by omega) x y hy
    rw [siftDown_turn order', if_pos hj', ← hleast]
    exact ih (fun l => below) (least_congr fun l => below)
  | case2 q i j hj =>
    have hj' : ¬ (i < least order' q.heap i ∧ least order' q.heap i < q.heap.size) := hleast ▸ hj
    rw [siftDown_turn order', if_neg hj']

/-- One order gives the answers to both comparisons with children, and others below. -/
theorem Indexed.exists_least [LawfulBEq α] [LawfulHashable α] (hq : q.Indexed)
    (answers : Nat → Order α) (k i : Nat) (later : Order α) :
    ∃ order : Order α, (DrawnFrom answers later → DrawnFrom answers order) ∧
      (leastBy answers k q.heap i).1 = least order q.heap i ∧
      ∀ x y, q.heap[2 * i + 1]? ≠ some y → q.heap[2 * i + 2]? ≠ some y →
        order y x = later y x := by
  classical
  let order : Order α := fun y x =>
    if q.heap[2 * i + 1]? = some y then answers k y x
    else if q.heap[2 * i + 2]? = some y then
      answers (beforeBy answers k q.heap i (2 * i + 1)).2 y x
    else later y x
  have left (x y : α) (hl : q.heap[2 * i + 1]? = some y) : answers k y x = order y x :=
    (if_pos hl).symm
  have right (x y : α) (hr : q.heap[2 * i + 2]? = some y) :
      answers (beforeBy answers k q.heap i (2 * i + 1)).2 y x = order y x := by
    have hl : q.heap[2 * i + 1]? ≠ some y := fun hl => by
      have := hq.inj hl hr
      omega
    exact ((if_neg hl).trans (if_pos hr)).symm
  refine ⟨order, fun hlater y x => ?_, ?_, fun x y hl hr => (if_neg hl).trans (if_neg hr)⟩
  · by_cases hl : q.heap[2 * i + 1]? = some y
    · exact ⟨_, (left x y hl).symm⟩
    · by_cases hr : q.heap[2 * i + 2]? = some y
      · exact ⟨_, (right x y hr).symm⟩
      · obtain ⟨m, hm⟩ := hlater y x
        exact ⟨m, ((if_neg hl).trans (if_neg hr)).trans hm⟩
  · rw [fst_leastBy, least, before_congr left, before_congr right]

/-- A walk down makes no more than two comparisons for each level below. -/
theorem comparisons_siftDownBy (answers : Nat → Order α) (k i : Nat) :
    (siftDownBy answers k q i).2 ≤ k + 2 * Nat.log 2 (q.heap.size / (i + 1)) := by
  induction hn : q.heap.size - i using Nat.strongRecOn generalizing q k i with
  | ind n ih =>
    have hcount := snd_leastBy answers k q.heap i
    have hplace := leastBy_cases answers k q.heap i
    rw [siftDownBy_turn]
    generalize leastBy answers k q.heap i = l at hcount hplace ⊢
    split
    · next hl =>
      have hdec : (q.swap i l.1).heap.size - l.1 < n := by
        rw [size_swap]
        omega
      have hrest := ih _ hdec (q := q.swap i l.1) l.2 l.1 rfl
      have hlevel := log_child (i := i) (by omega) hl.2
      rw [size_swap] at hrest
      split at hcount <;> omega
    · split at hcount
      · next hc =>
        have hlevel := log_child (i := i) (by omega) hc
        omega
      · omega

/-! ### An order that does not change -/

/-- Some order that does not change moves the member up alike. -/
theorem Indexed.exists_siftUp [LawfulBEq α] [LawfulHashable α] (hq : q.Indexed)
    (answers : Nat → Order α) (k i : Nat) :
    ∃ order, DrawnFrom answers order ∧
      (siftUpBy answers k q i).1 = Queue.siftUp order q i := by
  classical
  induction i using Nat.strongRecOn generalizing q k with
  | ind i ih =>
    rcases Nat.eq_zero_or_pos i with rfl | hi
    · exact ⟨answers k, fun _ _ => ⟨k, rfl⟩, by rw [siftUpBy_zero, siftUp_zero]⟩
    · cases hx : q.heap[i]? with
      | none =>
        exact ⟨answers k, fun _ _ => ⟨k, rfl⟩, by rw [siftUpBy_outside _ _ hx, siftUp_outside _ hx]⟩
      | some x =>
        obtain ⟨y, hy⟩ := exists_earlier (Nat.le_of_lt (parent_lt hi)) hx
        obtain ⟨later, hdrawn, hlater⟩ := ih _ (parent_lt hi) (hq.swap i (parent i)) (k + 1)
        refine ⟨fun u v => if v = y then answers k u v else later u v, fun u v => ?_, ?_⟩
        · by_cases hv : v = y
          · exact ⟨k, if_pos hv⟩
          · obtain ⟨m, hm⟩ := hdrawn u v
            exact ⟨m, (if_neg hv).trans hm⟩
        · rw [siftUpBy_turn _ _ hi hx hy, siftUp_turn _ hi hx hy, if_pos rfl]
          refine (apply_ite Prod.fst _ _ _).trans (if_congr Iff.rfl rfl (hlater.trans ?_))
          -- the parent is not met again further up
          refine siftUp_congr fun j hj u v hv => ?_
          have hji := Nat.lt_trans hj (parent_lt hi)
          rw [heap_swap_of_ne q (Nat.ne_of_lt hji) (Nat.ne_of_lt hj)] at hv
          rw [if_neg]
          rintro rfl
          exact Nat.ne_of_lt hj (hq.inj hv hy)

theorem Indexed.exists_siftDown [LawfulBEq α] [LawfulHashable α] (hq : q.Indexed)
    (answers : Nat → Order α) (k i : Nat) :
    ∃ order, DrawnFrom answers order ∧
      (siftDownBy answers k q i).1 = Queue.siftDown order q i := by
  induction hn : q.heap.size - i using Nat.strongRecOn generalizing q k i with
  | ind n ih =>
    rw [siftDownBy_turn]
    split
    · next hl =>
      have hplace := leastBy_cases answers k q.heap i
      have hdec : (q.swap i (leastBy answers k q.heap i).1).heap.size -
          (leastBy answers k q.heap i).1 < n := by
        rw [size_swap]
        omega
      obtain ⟨later, hdrawn, hlater⟩ :=
        ih _ hdec (hq.swap i _) (leastBy answers k q.heap i).2 _ rfl
      obtain ⟨order, horder, hleast, hrest⟩ := hq.exists_least answers k i later
      refine ⟨order, horder hdrawn, ?_⟩
      rw [hlater, siftDown_turn order, ← hleast, if_pos hl]
      -- the children are not met again further down
      refine siftDown_congr fun j hj x y hy => (hrest x y ?_ ?_).symm
      · intro hy'
        rw [heap_swap_of_ne q (by omega) (by omega)] at hy
        have := hq.inj hy' hy
        omega
      · intro hy'
        rw [heap_swap_of_ne q (by omega) (by omega)] at hy
        have := hq.inj hy' hy
        omega
    · next hl =>
      obtain ⟨order, horder, hleast, -⟩ := hq.exists_least answers k i (answers k)
      refine ⟨order, horder fun _ _ => ⟨k, rfl⟩, ?_⟩
      rw [siftDown_turn order, ← hleast, if_neg hl]

end Walks

end Queue

end LinkState
