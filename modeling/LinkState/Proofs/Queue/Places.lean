import LinkState.Spf.Queue
import Mathlib

/-! The two halves of the queue stay inverse whatever the order says: a member is recorded at the
place at which it stands, and no operation gains or loses one but the one it is for. -/

namespace LinkState

namespace Queue

section Places

variable {α : Type} [BEq α] [Hashable α]

/-- A member is recorded at the place at which it stands, and nothing else is recorded. -/
def Indexed (q : Queue α) : Prop :=
  ∀ (x : α) (i : Nat), q.position[x]? = some i ↔ q.heap[i]? = some x

theorem indexed_empty : (empty : Queue α).Indexed := by
  intro x i
  simp [empty]

theorem Indexed.inj {q : Queue α} (h : q.Indexed) {x : α} {i j : Nat}
    (hi : q.heap[i]? = some x) (hj : q.heap[j]? = some x) : i = j := by
  have hi := (h x i).2 hi
  rw [(h x j).2 hj] at hi
  exact (Option.some.inj hi).symm

theorem Indexed.contains_iff {q : Queue α} [LawfulBEq α] [LawfulHashable α] (h : q.Indexed)
    {x : α} : q.contains x = true ↔ x ∈ q.heap := by
  rw [contains, Std.HashMap.contains_iff_mem, ← Std.HashMap.isSome_getElem?_iff_mem,
    Option.isSome_iff_exists, Array.mem_iff_getElem?]
  exact exists_congr fun i => h x i

theorem heap_swap (q : Queue α) {i j : Nat} (hi : i < q.heap.size) (hj : j < q.heap.size)
    (k : Nat) : (q.swap i j).heap[k]? = q.heap[Equiv.swap i j k]? := by
  unfold swap
  rw [dif_pos hi, dif_pos hj, Array.getElem?_swap, Equiv.swap_apply_def]
  by_cases hki : k = i
  · subst hki
    rcases eq_or_ne j k with rfl | hjk
    · simp [hj]
    · simp [hjk, hj]
  · by_cases hkj : k = j
    · subst hkj; simp [hki, hi]
    · simp [hki, hkj, Ne.symm hki, Ne.symm hkj]

variable [LawfulBEq α] [LawfulHashable α]

theorem position_swap {q : Queue α} (h : q.Indexed) {i j : Nat} (hi : i < q.heap.size)
    (hj : j < q.heap.size) (x : α) :
    (q.swap i j).position[x]? = q.position[x]?.map (Equiv.swap i j) := by
  have gi : q.heap[i]? = some q.heap[i] := Array.getElem?_eq_getElem hi
  have gj : q.heap[j]? = some q.heap[j] := Array.getElem?_eq_getElem hj
  unfold swap
  rw [dif_pos hi, dif_pos hj]
  rw [Std.HashMap.getElem?_insert, Std.HashMap.getElem?_insert]
  by_cases hxi : q.heap[i] = x
  · rw [if_pos (beq_iff_eq.2 hxi), (h x i).2 (hxi ▸ gi)]
    simp
  · by_cases hxj : q.heap[j] = x
    · rw [if_neg (mt beq_iff_eq.1 hxi), if_pos (beq_iff_eq.2 hxj), (h x j).2 (hxj ▸ gj)]
      simp
    · rw [if_neg (mt beq_iff_eq.1 hxi), if_neg (mt beq_iff_eq.1 hxj)]
      cases hp : q.position[x]? with
      | none => rfl
      | some k =>
        -- `x` stands at neither of the two places
        have hk := (h x k).1 hp
        have hki : k ≠ i := by
          rintro rfl
          exact hxi (Option.some.inj (gi.symm.trans hk))
        have hkj : k ≠ j := by
          rintro rfl
          exact hxj (Option.some.inj (gj.symm.trans hk))
        rw [Option.map_some, Equiv.swap_apply_of_ne_of_ne hki hkj]

theorem Indexed.swap {q : Queue α} (h : q.Indexed) (i j : Nat) : (q.swap i j).Indexed := by
  by_cases hi : i < q.heap.size
  · by_cases hj : j < q.heap.size
    · intro x k
      rw [position_swap h hi hj, heap_swap q hi hj, ← h x, Option.map_eq_some_iff]
      constructor
      · rintro ⟨l, hl, rfl⟩
        rwa [Equiv.swap_apply_self]
      · intro hl
        exact ⟨_, hl, Equiv.swap_apply_self i j k⟩
    · unfold Queue.swap
      rwa [dif_pos hi, dif_neg hj]
  · unfold Queue.swap
    rwa [dif_neg hi]

omit [LawfulBEq α] [LawfulHashable α] in
theorem perm_swap (q : Queue α) (i j : Nat) : (q.swap i j).heap.Perm q.heap := by
  unfold swap
  split
  · split
    · exact Array.swap_perm _ _
    · exact Array.Perm.refl _
  · exact Array.Perm.refl _

/-! Sifting only exchanges members. -/

omit [LawfulBEq α] [LawfulHashable α] in
theorem siftUp_induction {P : Queue α → Prop} (step : ∀ q i j, P q → P (q.swap i j))
    (order : Order α) (q : Queue α) (i : Nat) (h : P q) : P (siftUp order q i) := by
  fun_induction siftUp order q i with
  | case1 | case2 | case3 | case5 => exact h
  | case4 q i _ _ _ _ _ _ _ ih => exact ih (step q i (parent i) h)

omit [LawfulBEq α] [LawfulHashable α] in
theorem siftDown_induction {P : Queue α → Prop} (step : ∀ q i j, P q → P (q.swap i j))
    (order : Order α) (q : Queue α) (i : Nat) (h : P q) : P (siftDown order q i) := by
  fun_induction siftDown order q i with
  | case1 q i k _ ih => exact ih (step q i k h)
  | case2 => exact h

theorem Indexed.siftUp {q : Queue α} (h : q.Indexed) (order : Order α) (i : Nat) :
    (siftUp order q i).Indexed :=
  siftUp_induction (fun _ i j h => h.swap i j) order q i h

theorem Indexed.siftDown {q : Queue α} (h : q.Indexed) (order : Order α) (i : Nat) :
    (siftDown order q i).Indexed :=
  siftDown_induction (fun _ i j h => h.swap i j) order q i h

omit [LawfulBEq α] [LawfulHashable α] in
theorem perm_siftUp (order : Order α) (q : Queue α) (i : Nat) :
    (siftUp order q i).heap.Perm q.heap :=
  siftUp_induction (P := fun p => p.heap.Perm q.heap) (fun p i j h => (perm_swap p i j).trans h)
    order q i (Array.Perm.refl _)

omit [LawfulBEq α] [LawfulHashable α] in
theorem perm_siftDown (order : Order α) (q : Queue α) (i : Nat) :
    (siftDown order q i).heap.Perm q.heap :=
  siftDown_induction (P := fun p => p.heap.Perm q.heap) (fun p i j h => (perm_swap p i j).trans h)
    order q i (Array.Perm.refl _)

/-! The operations. -/

theorem Indexed.update {q : Queue α} (h : q.Indexed) (order : Order α) (x : α) :
    (q.update order x).Indexed := by
  unfold Queue.update
  split
  · exact h.siftUp order _
  · exact h

omit [LawfulBEq α] [LawfulHashable α] in
theorem perm_update (order : Order α) (q : Queue α) (x : α) :
    (q.update order x).heap.Perm q.heap := by
  unfold update
  split
  · exact perm_siftUp order q _
  · exact Array.Perm.refl _

theorem push_of_not_mem {order : Order α} {q : Queue α} {x : α} (hI : q.Indexed)
    (hx : x ∉ q.heap) :
    q.push order x =
      siftUp order ⟨q.heap.push x, q.position.insert x q.heap.size⟩ q.heap.size := by
  unfold push
  rw [if_neg (mt hI.contains_iff.1 hx)]

theorem Indexed.grow {q : Queue α} (h : q.Indexed) {x : α} (hx : x ∉ q.heap) :
    Indexed ⟨q.heap.push x, q.position.insert x q.heap.size⟩ := by
  intro y i
  simp only [Std.HashMap.getElem?_insert, Array.getElem?_push]
  by_cases hy : x = y
  · subst hy
    rw [if_pos (beq_self_eq_true x), Option.some.injEq]
    by_cases hi : i = q.heap.size
    · simp [hi]
    · rw [if_neg hi]
      refine ⟨fun e => absurd e.symm hi, fun e => absurd (Array.mem_of_getElem? e) hx⟩
  · rw [if_neg (mt beq_iff_eq.1 hy), h y i]
    by_cases hi : i = q.heap.size
    · subst hi
      simp [hy]
    · rw [if_neg hi]

theorem Indexed.push {q : Queue α} (h : q.Indexed) (order : Order α) {x : α} (hx : x ∉ q.heap) :
    (q.push order x).Indexed := by
  rw [push_of_not_mem h hx]
  exact (h.grow hx).siftUp order _

theorem perm_push {order : Order α} {q : Queue α} {x : α} (hI : q.Indexed) (hx : x ∉ q.heap) :
    (q.push order x).heap.Perm (q.heap.push x) := by
  rw [push_of_not_mem hI hx]
  exact perm_siftUp order _ _

omit [LawfulBEq α] [LawfulHashable α] in
theorem pop?_eq_none_iff {order : Order α} {q : Queue α} : q.pop? order = none ↔ q.heap = #[] := by
  unfold pop?
  split
  · next h =>
    have hne : q.heap ≠ #[] := Array.ne_empty_of_size_pos h
    simp only [hne, iff_false]
    split <;> exact Option.some_ne_none _
  · next h =>
    rw [Array.eq_empty_of_size_eq_zero (Nat.eq_zero_of_not_pos h)]
    exact ⟨fun _ => rfl, fun _ => rfl⟩

omit [LawfulBEq α] [LawfulHashable α] in
/-- The first member goes; the last one, if it is another, takes its place and moves down. -/
theorem pop?_cases {order : Order α} {q rest : Queue α} {x : α}
    (h : q.pop? order = some (x, rest)) :
    q.heap[0]? = some x ∧ ∃ last, q.heap[q.heap.size - 1]? = some last ∧
      (q.heap.size = 1 ∧ rest = ⟨q.heap.pop, q.position.erase x⟩ ∨
       1 < q.heap.size ∧ rest = siftDown order
        ⟨q.heap.pop.setIfInBounds 0 last, (q.position.erase x).insert last 0⟩ 0) := by
  unfold pop? at h
  split at h
  · next hpos =>
    have hlast : q.heap.size - 1 < q.heap.size := by omega
    simp only at h
    split at h
    · next he =>
      rw [Option.some.injEq, Prod.mk.injEq] at h
      obtain ⟨rfl, rfl⟩ := h
      have hs : q.heap.pop.size = 0 := by rwa [Array.isEmpty_iff_size_eq_zero] at he
      rw [Array.size_pop] at hs
      exact ⟨Array.getElem?_eq_getElem hpos, _, Array.getElem?_eq_getElem hlast,
        .inl ⟨by omega, rfl⟩⟩
    · next he =>
      rw [Option.some.injEq, Prod.mk.injEq] at h
      obtain ⟨rfl, rfl⟩ := h
      have hs : q.heap.pop.size ≠ 0 := by rwa [Array.isEmpty_iff_size_eq_zero] at he
      rw [Array.size_pop] at hs
      exact ⟨Array.getElem?_eq_getElem hpos, _, Array.getElem?_eq_getElem hlast,
        .inr ⟨by omega, rfl⟩⟩
  · cases h

omit [BEq α] [Hashable α] [LawfulBEq α] [LawfulHashable α] in
/-- The last member in the first place, then what went out. -/
theorem uproot_eq_swap {heap : Array α} {x last : α} (hx : heap[0]? = some x)
    (hl : heap[heap.size - 1]? = some last) (h0 : 0 < heap.size)
    (hn : heap.size - 1 < heap.size) :
    (heap.pop.setIfInBounds 0 last).push x = heap.swap 0 (heap.size - 1) h0 hn := by
  refine Array.ext_getElem? fun i => ?_
  have hx' : heap[0] = x := Option.some.inj ((Array.getElem?_eq_getElem h0).symm.trans hx)
  have hl' : heap[heap.size - 1] = last :=
    Option.some.inj ((Array.getElem?_eq_getElem hn).symm.trans hl)
  rw [Array.getElem?_swap, Array.getElem?_push, Array.size_setIfInBounds, Array.size_pop,
    Array.getElem?_setIfInBounds, Array.size_pop, Array.getElem?_pop, hx', hl']
  by_cases hi : i = heap.size - 1
  · rw [if_pos hi, if_pos hi.symm]
  · rw [if_neg hi, if_neg (Ne.symm hi)]
    by_cases hz : 0 = i
    · subst hz
      rw [if_pos rfl, if_pos rfl, if_pos (by omega)]
    · rw [if_neg hz, if_neg hz]
      by_cases hlt : i < heap.size - 1
      · rw [if_pos hlt]
      · rw [if_neg hlt, Array.getElem?_eq_none (by omega)]

omit [LawfulBEq α] [LawfulHashable α] in
theorem perm_pop {order : Order α} {q rest : Queue α} {x : α}
    (h : q.pop? order = some (x, rest)) : (rest.heap.push x).Perm q.heap := by
  obtain ⟨hx, last, hl, hcase⟩ := pop?_cases h
  have hpos : 0 < q.heap.size := (Array.getElem?_eq_some_iff.1 hx).1
  have hperm : ((q.heap.pop.setIfInBounds 0 last).push x).Perm q.heap := by
    rw [uproot_eq_swap hx hl hpos (by omega)]
    exact Array.swap_perm _ _
  rcases hcase with ⟨h1, rfl⟩ | ⟨h1, rfl⟩
  · have hset : q.heap.pop.setIfInBounds 0 last = q.heap.pop :=
      Array.setIfInBounds_eq_of_size_le (by rw [Array.size_pop]; omega) ..
    rwa [hset] at hperm
  · exact ((perm_siftDown order _ 0).push x).trans hperm

omit [BEq α] [Hashable α] [LawfulBEq α] [LawfulHashable α] in
theorem getElem?_uproot {heap : Array α} {last : α} (h1 : 1 < heap.size) (i : Nat) :
    (heap.pop.setIfInBounds 0 last)[i]? =
      if i = 0 then some last else if i < heap.size - 1 then heap[i]? else none := by
  rw [Array.getElem?_setIfInBounds, Array.getElem?_pop, Array.size_pop]
  by_cases hi : i = 0
  · subst hi
    rw [if_pos rfl, if_pos rfl, if_pos (by omega)]
  · rw [if_neg (Ne.symm hi), if_neg hi]

theorem Indexed.uproot {q : Queue α} (hI : q.Indexed) {x last : α} (h1 : 1 < q.heap.size)
    (hx : q.heap[0]? = some x) (hl : q.heap[q.heap.size - 1]? = some last) :
    Indexed ⟨q.heap.pop.setIfInBounds 0 last, (q.position.erase x).insert last 0⟩ := by
  intro y i
  simp only [Std.HashMap.getElem?_insert, Std.HashMap.getElem?_erase, getElem?_uproot h1]
  -- the last member stands first, the first one nowhere, and the others where they stood
  by_cases hy : last = y
  · subst hy
    rw [if_pos (beq_self_eq_true last), Option.some.injEq]
    by_cases hi : i = 0
    · rw [if_pos hi]
      exact ⟨fun _ => rfl, fun _ => hi.symm⟩
    · rw [if_neg hi]
      refine ⟨fun e => absurd e.symm hi, fun e => ?_⟩
      split at e
      · next hlt => exact absurd (hI.inj e hl) (by omega)
      · cases e
  · rw [if_neg (mt beq_iff_eq.1 hy)]
    by_cases hxy : x = y
    · subst hxy
      rw [if_pos (beq_self_eq_true x)]
      refine ⟨nofun, fun e => ?_⟩
      split at e
      · exact absurd (Option.some.inj e) hy
      · next hi =>
        split at e
        · exact absurd (hI.inj e hx) hi
        · cases e
    · rw [if_neg (mt beq_iff_eq.1 hxy), hI y i]
      constructor
      · intro e
        have hlt : i < q.heap.size := (Array.getElem?_eq_some_iff.1 e).1
        have h0 : i ≠ 0 := by
          rintro rfl
          exact hxy (Option.some.inj (hx.symm.trans e))
        have hn : i ≠ q.heap.size - 1 := by
          rintro rfl
          exact hy (Option.some.inj (hl.symm.trans e))
        rwa [if_neg h0, if_pos (by omega)]
      · intro e
        split at e
        · exact absurd (Option.some.inj e) hy
        · split at e
          · exact e
          · cases e

theorem Indexed.pop {order : Order α} {q rest : Queue α} {x : α} (hI : q.Indexed)
    (h : q.pop? order = some (x, rest)) : rest.Indexed := by
  obtain ⟨hx, last, hl, ⟨h1, rfl⟩ | ⟨h1, rfl⟩⟩ := pop?_cases h
  · intro y i
    rw [Std.HashMap.getElem?_erase]
    simp only [Array.getElem?_eq_none (show q.heap.pop.size ≤ i by rw [Array.size_pop]; omega),
      reduceCtorEq, iff_false]
    split
    · exact fun e => by cases e
    · next hne =>
      intro e
      have hi := (hI y i).1 e
      have hlt : i < q.heap.size := (Array.getElem?_eq_some_iff.1 hi).1
      obtain rfl : i = 0 := by omega
      exact hne (beq_iff_eq.2 (Option.some.inj (hx.symm.trans hi)))
  · exact (hI.uproot h1 hx hl).siftDown order 0

omit [LawfulBEq α] [LawfulHashable α] in
theorem Indexed.nodup {q : Queue α} (h : q.Indexed) : q.heap.toList.Nodup := by
  refine List.pairwise_iff_getElem.2 fun i j hi hj hij heq => ?_
  have hj' : q.heap[j]? = some q.heap[i] :=
    (Array.getElem?_eq_getElem hj).trans (congrArg some heq.symm)
  exact absurd (h.inj (Array.getElem?_eq_getElem hi) hj') (by omega)

omit [LawfulBEq α] [LawfulHashable α] in
/-- What goes out is no longer a member, all else stays. -/
theorem mem_pop_iff {order : Order α} {q rest : Queue α} {x y : α} (hI : q.Indexed)
    (h : q.pop? order = some (x, rest)) : y ∈ rest.heap ↔ y ∈ q.heap ∧ y ≠ x := by
  have hp := perm_pop h
  have hx : x ∉ rest.heap := by
    have hn := hp.toList.nodup_iff.2 hI.nodup
    rw [Array.toList_push, List.nodup_append] at hn
    intro hm
    exact hn.2.2 x (Array.mem_toList_iff.2 hm) x (List.mem_singleton_self x) rfl
  rw [← hp.mem_iff, Array.mem_push]
  constructor
  · intro hy
    exact ⟨.inl hy, fun e => hx (e ▸ hy)⟩
  · rintro ⟨hy | hy, hne⟩
    · exact hy
    · exact absurd hy hne

end Places

end Queue

end LinkState
