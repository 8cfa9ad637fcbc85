import LinkState.Proofs.Queue.Places

/-! If the order is that of a rank of the members, then no member stands below its parent, so that
`pop?` takes out one of least rank, and a member whose rank has fallen is put in its place by
`update`. -/

namespace LinkState

namespace Queue

section Ranks

variable {α κ : Type} [LinearOrder κ]

def Ranked (order : Order α) (rank : α → κ) (heap : Array α) : Prop :=
  ∀ x ∈ heap, ∀ y ∈ heap, order x y = some (compare (rank x) (rank y))

/-- No member stands below its parent. -/
def Sorted (rank : α → κ) (heap : Array α) : Prop :=
  ∀ (i : Nat) (x y : α), 0 < i → heap[i]? = some x → heap[parent i]? = some y → rank y ≤ rank x

theorem Sorted.congr {rank rank' : α → κ} {heap : Array α} (h : Sorted rank heap)
    (same : ∀ x ∈ heap, rank' x = rank x) : Sorted rank' heap := by
  intro i x y hi hx hy
  rw [same x (Array.mem_of_getElem? hx), same y (Array.mem_of_getElem? hy)]
  exact h i x y hi hx hy

/-- Only the member at `i` may have to move up. -/
structure UpReady (rank : α → κ) (heap : Array α) (i : Nat) : Prop where
  rest : ∀ (j : Nat) (x y : α), 0 < j → j ≠ i → heap[j]? = some x → heap[parent j]? = some y →
    rank y ≤ rank x
  below : ∀ (j : Nat) (x y : α), 0 < i → 0 < j → parent j = i → heap[j]? = some x →
    heap[parent i]? = some y → rank y ≤ rank x

structure DownReady (rank : α → κ) (heap : Array α) (i : Nat) : Prop where
  rest : ∀ (j : Nat) (x y : α), 0 < j → parent j ≠ i → heap[j]? = some x →
    heap[parent j]? = some y → rank y ≤ rank x
  below : ∀ (j : Nat) (x y : α), 0 < i → 0 < j → parent j = i → heap[j]? = some x →
    heap[parent i]? = some y → rank y ≤ rank x

theorem parent_lt {i : Nat} (h : 0 < i) : parent i < i := by
  unfold parent
  omega

theorem eq_child {i j : Nat} (h : 0 < j) (hp : parent j = i) : j = 2 * i + 1 ∨ j = 2 * i + 2 := by
  unfold parent at hp
  omega

theorem exists_earlier {heap : Array α} {i j : Nat} {x : α} (hij : i ≤ j) (h : heap[j]? = some x) :
    ∃ y, heap[i]? = some y := by
  have hlt : j < heap.size := (Array.getElem?_eq_some_iff.1 h).1
  exact ⟨_, Array.getElem?_eq_getElem (Nat.lt_of_le_of_lt hij hlt)⟩

theorem Sorted.first_le {rank : α → κ} {heap : Array α} (h : Sorted rank heap) {x : α}
    (hx : heap[0]? = some x) (i : Nat) : ∀ y, heap[i]? = some y → rank x ≤ rank y := by
  induction i using Nat.strongRecOn with
  | ind i ih =>
    intro y hy
    rcases Nat.eq_zero_or_pos i with rfl | hi
    · rw [Option.some.inj (hx.symm.trans hy)]
    · obtain ⟨z, hz⟩ := exists_earlier (Nat.le_of_lt (parent_lt hi)) hy
      exact (ih _ (parent_lt hi) z hz).trans (h i y z hi hy hz)

/-- A heap whose order held before the rank of the member at `i` fell. -/
theorem Sorted.upReady {rank rank' : α → κ} {heap : Array α} {i : Nat} (h : Sorted rank heap)
    (same : ∀ (j : Nat) (x : α), heap[j]? = some x → j ≠ i → rank' x = rank x)
    (fell : ∀ x, heap[i]? = some x → rank' x ≤ rank x) : UpReady rank' heap i := by
  constructor
  · intro j x y hj hji hx hy
    rw [same j x hx hji]
    refine le_trans ?_ (h j x y hj hx hy)
    by_cases hp : parent j = i
    · exact fell y (hp ▸ hy)
    · exact le_of_eq (same _ y hy hp)
  · intro j x y hi hj hp hx hy
    have hpi := parent_lt hi
    have hpj := parent_lt hj
    obtain ⟨z, hz⟩ := exists_earlier (i := i) (by omega) hx
    rw [same j x hx (by omega), same _ y hy (by omega)]
    exact (h i z y hi hz hy).trans (h j x z hj hx (hp ▸ hz))

theorem UpReady.swap [BEq α] [Hashable α] {rank : α → κ} {q : Queue α} {i : Nat} {x y : α}
    (h : UpReady rank q.heap i) (hi : 0 < i) (hx : q.heap[i]? = some x)
    (hy : q.heap[parent i]? = some y) (hlt : rank x ≤ rank y) :
    UpReady rank (q.swap i (parent i)).heap (parent i) := by
  have hpi := parent_lt hi
  have at_ (k : Nat) := heap_swap q (Array.getElem?_eq_some_iff.1 hx).1
    (Array.getElem?_eq_some_iff.1 hy).1 k
  have old {j : Nat} {z : α} (hj : 0 < j) (hji : j ≠ i) (hp : parent j = parent i)
      (hz : q.heap[j]? = some z) : rank y ≤ rank z := h.rest j z y hj hji hz (hp ▸ hy)
  constructor
  · intro j z w hj hjp hz hw
    rw [at_] at hz hw
    by_cases hji : j = i
    · subst hji
      rw [Equiv.swap_apply_left, hy] at hz
      rw [Equiv.swap_apply_right, hx] at hw
      obtain rfl := Option.some.inj hz
      obtain rfl := Option.some.inj hw
      exact hlt
    · rw [Equiv.swap_apply_of_ne_of_ne hji hjp] at hz
      by_cases hpj : parent j = i
      · rw [hpj, Equiv.swap_apply_left, hy] at hw
        obtain rfl := Option.some.inj hw
        exact h.below j z y hi hj hpj hz hy
      · by_cases hpp : parent j = parent i
        · rw [hpp, Equiv.swap_apply_right, hx] at hw
          obtain rfl := Option.some.inj hw
          exact hlt.trans (old hj hji hpp hz)
        · rw [Equiv.swap_apply_of_ne_of_ne hpj hpp] at hw
          exact h.rest j z w hj hji hz hw
  · intro j z w hp hj hpj hz hw
    have hpp := parent_lt hp
    rw [at_] at hz hw
    rw [Equiv.swap_apply_of_ne_of_ne (by omega) (by omega)] at hw
    have hwy : rank w ≤ rank y := h.rest (parent i) y w hp (by omega) hy hw
    by_cases hji : j = i
    · subst hji
      rw [Equiv.swap_apply_left, hy] at hz
      obtain rfl := Option.some.inj hz
      exact hwy
    · have := parent_lt hj
      rw [Equiv.swap_apply_of_ne_of_ne hji (by omega)] at hz
      exact hwy.trans (old hj hji hpj hz)

theorem Ranked.perm {order : Order α} {rank : α → κ} {heap heap' : Array α}
    (h : Ranked order rank heap) (hp : heap'.Perm heap) : Ranked order rank heap' := by
  intro x hx y hy
  exact h x (hp.mem_iff.1 hx) y (hp.mem_iff.1 hy)

theorem before_spec {order : Order α} {rank : α → κ} {heap : Array α}
    (hr : Ranked order rank heap) {i j : Nat} {x : α} (hx : heap[i]? = some x) :
    ∃ z, heap[before order heap i j]? = some z ∧
      (before order heap i j = i ∨ before order heap i j = j) ∧ rank z ≤ rank x ∧
      ∀ y, heap[j]? = some y → rank z ≤ rank y := by
  unfold before
  rw [hx]
  cases hy : heap[j]? with
  | none => exact ⟨x, hx, .inl rfl, le_refl _, fun y h => by cases h⟩
  | some y =>
    have ho := hr y (Array.mem_of_getElem? hy) x (Array.mem_of_getElem? hx)
    simp only [ho, Option.some.injEq, compare_lt_iff_lt]
    split
    · next hlt =>
      refine ⟨y, hy, .inr rfl, hlt.le, fun w hw => ?_⟩
      rw [hw]
    · next hge =>
      refine ⟨x, hx, .inl rfl, le_refl _, fun w hw => ?_⟩
      rw [← hw]
      exact not_lt.1 hge

theorem least_spec {order : Order α} {rank : α → κ} {heap : Array α}
    (hr : Ranked order rank heap) {i : Nat} {x : α} (hx : heap[i]? = some x) :
    ∃ z, heap[least order heap i]? = some z ∧
      (least order heap i = i ∨ 0 < least order heap i ∧ parent (least order heap i) = i) ∧
      rank z ≤ rank x ∧
      ∀ j y, 0 < j → parent j = i → heap[j]? = some y → rank z ≤ rank y := by
  obtain ⟨u, hu, hul, hux, huy⟩ := before_spec hr (j := 2 * i + 1) hx
  obtain ⟨z, hz, hzl, hzu, hzy⟩ := before_spec hr (j := 2 * i + 2) hu
  refine ⟨z, hz, ?_, hzu.trans hux, ?_⟩
  · unfold least
    unfold parent
    rcases hzl with hzl | hzl <;> rw [hzl]
    · rcases hul with hul | hul <;> rw [hul]
      · exact .inl rfl
      · exact .inr ⟨by omega, by omega⟩
    · exact .inr ⟨by omega, by omega⟩
  · intro j y hj hp hy
    rcases eq_child hj hp with rfl | rfl
    · exact hzu.trans (huy y hy)
    · exact hzy y hy

variable [BEq α] [Hashable α]

theorem UpReady.sorted_siftUp {order : Order α} {rank : α → κ} {q : Queue α} {i : Nat}
    (h : UpReady rank q.heap i) (hr : Ranked order rank q.heap) :
    Sorted rank (siftUp order q i).heap := by
  -- the edge into `i` is in order as soon as the walk stops there
  have stop {q : Queue α} {i : Nat} (h : UpReady rank q.heap i)
      (hi : ∀ x y, 0 < i → q.heap[i]? = some x → q.heap[parent i]? = some y → rank y ≤ rank x) :
      Sorted rank q.heap := by
    intro j x y hj hx hy
    by_cases hji : j = i
    · subst hji
      exact hi x y hj hx hy
    · exact h.rest j x y hj hji hx hy
  fun_induction siftUp order q i with
  | case1 q => exact stop h fun x y hi => absurd hi (Nat.lt_irrefl 0)
  | case2 q i hi x y hy hx ho =>
    refine stop h fun x' y' _ hx' hy' => ?_
    obtain rfl := Option.some.inj (hx.symm.trans hx')
    obtain rfl := Option.some.inj (hy.symm.trans hy')
    rw [hr x (Array.mem_of_getElem? hx) y (Array.mem_of_getElem? hy)] at ho
    exact le_of_eq (compare_eq_iff_eq.1 (Option.some.inj ho)).symm
  | case3 q i hi x y hy hx ho =>
    refine stop h fun x' y' _ hx' hy' => ?_
    obtain rfl := Option.some.inj (hx.symm.trans hx')
    obtain rfl := Option.some.inj (hy.symm.trans hy')
    rw [hr x (Array.mem_of_getElem? hx) y (Array.mem_of_getElem? hy)] at ho
    exact (compare_gt_iff_gt.1 (Option.some.inj ho)).le
  | case4 q i hi x y hy hx hne hng ih =>
    rw [hr x (Array.mem_of_getElem? hx) y (Array.mem_of_getElem? hy)] at hne hng
    have hlt : rank x ≤ rank y := by
      rcases lt_trichotomy (rank x) (rank y) with hlt | heq | hgt
      · exact hlt.le
      · exact heq.le
      · exact absurd (congrArg some (compare_gt_iff_gt.2 hgt)) hng
    exact ih (h.swap (Nat.pos_of_ne_zero hi) hx hy hlt) (hr.perm (perm_swap q i (parent i)))
  | case5 q i hi hn => exact stop h fun x y _ hx hy => (hn x y hx hy).elim

theorem DownReady.swap {rank : α → κ} {q : Queue α} {i k : Nat} {x y : α}
    (h : DownReady rank q.heap i) (hk : 0 < k) (hpk : parent k = i) (hx : q.heap[i]? = some x)
    (hy : q.heap[k]? = some y) (hle : rank y ≤ rank x)
    (least : ∀ j z, 0 < j → parent j = i → q.heap[j]? = some z → rank y ≤ rank z) :
    DownReady rank (q.swap i k).heap k := by
  have hik : i < k := hpk ▸ parent_lt hk
  have at_ (j : Nat) := heap_swap q (Array.getElem?_eq_some_iff.1 hx).1
    (Array.getElem?_eq_some_iff.1 hy).1 j
  constructor
  · intro j z w hj hpj hz hw
    rw [at_] at hz hw
    have hlt := parent_lt hj
    by_cases hjk : j = k
    · subst hjk
      rw [Equiv.swap_apply_right, hx] at hz
      rw [hpk, Equiv.swap_apply_left, hy] at hw
      obtain rfl := Option.some.inj hz
      obtain rfl := Option.some.inj hw
      exact hle
    · by_cases hji : j = i
      · subst hji
        rw [Equiv.swap_apply_left, hy] at hz
        rw [Equiv.swap_apply_of_ne_of_ne (by omega) hpj] at hw
        obtain rfl := Option.some.inj hz
        exact h.below k y w hj hk hpk hy hw
      · rw [Equiv.swap_apply_of_ne_of_ne hji hjk] at hz
        by_cases hpi : parent j = i
        · rw [hpi, Equiv.swap_apply_left, hy] at hw
          obtain rfl := Option.some.inj hw
          exact least j z hj hpi hz
        · rw [Equiv.swap_apply_of_ne_of_ne hpi hpj] at hw
          exact h.rest j z w hj hpi hz hw
  · intro j z w _ hj hpj hz hw
    have hlt := parent_lt hj
    rw [at_] at hz hw
    rw [Equiv.swap_apply_of_ne_of_ne (by omega) (by omega)] at hz
    rw [hpk, Equiv.swap_apply_left, hy] at hw
    obtain rfl := Option.some.inj hw
    exact h.rest j z y hj (by omega) hz (hpj ▸ hy)

theorem DownReady.sorted_siftDown {order : Order α} {rank : α → κ} {q : Queue α} {i : Nat}
    (h : DownReady rank q.heap i) (hr : Ranked order rank q.heap) :
    Sorted rank (siftDown order q i).heap := by
  fun_induction siftDown order q i with
  | case1 q i k hk ih =>
    obtain ⟨x, hx⟩ := exists_earlier (Nat.le_of_lt hk.1) (Array.getElem?_eq_getElem hk.2)
    obtain ⟨z, hz, hki, hzx, least⟩ := least_spec hr hx
    have hp : 0 < k ∧ parent k = i := hki.resolve_left (Nat.ne_of_gt hk.1)
    exact ih (h.swap hp.1 hp.2 hx hz hzx least) (hr.perm (perm_swap q i k))
  | case2 q i k hk =>
    intro j x y hj hx hy
    by_cases hp : parent j = i
    · rw [hp] at hy
      obtain ⟨z, hz, hki, _, least⟩ := least_spec hr hy
      have hkl : k < q.heap.size := (Array.getElem?_eq_some_iff.1 hz).1
      -- the member at `i` is the least of its family
      have hk : k = i := by
        rcases hki with hki | ⟨hk0, hkp⟩
        · exact hki
        · exact absurd ⟨hkp ▸ parent_lt hk0, hkl⟩ hk
      obtain rfl : y = z := Option.some.inj (hy.symm.trans (hk ▸ hz))
      exact least j x hj hp hx
    · exact h.rest j x y hj hp hx hy

end Ranks

section Operations

variable {α κ : Type} [BEq α] [Hashable α] [LinearOrder κ]

/-- A member whose rank has fallen is put in its place. -/
theorem Sorted.update {order : Order α} {rank rank' : α → κ} {q : Queue α} {x : α}
    (h : Sorted rank q.heap) (hI : q.Indexed) (hr : Ranked order rank' q.heap)
    (same : ∀ y ∈ q.heap, y ≠ x → rank' y = rank y) (fell : rank' x ≤ rank x) :
    Sorted rank' (q.update order x).heap := by
  unfold Queue.update
  split
  · next i hi =>
    have hx := (hI x i).1 hi
    refine UpReady.sorted_siftUp (h.upReady ?_ ?_) hr
    · intro j y hy hj
      refine same y (Array.mem_of_getElem? hy) ?_
      rintro rfl
      exact hj (hI.inj hy hx)
    · intro y hy
      rwa [Option.some.inj (hy.symm.trans hx)]
  · next hn =>
    have absent {j : Nat} {y : α} (hy : q.heap[j]? = some y) : rank' y = rank y := by
      refine same y (Array.mem_of_getElem? hy) ?_
      rintro rfl
      rw [(hI y j).2 hy] at hn
      cases hn
    intro j y z hj hy hz
    rw [absent hy, absent hz]
    exact h j y z hj hy hz

theorem Sorted.push [LawfulBEq α] [LawfulHashable α] {order : Order α} {rank : α → κ}
    {q : Queue α} {x : α} (h : Sorted rank q.heap) (hI : q.Indexed) (hx : x ∉ q.heap)
    (hr : Ranked order rank (q.heap.push x)) : Sorted rank (q.push order x).heap := by
  rw [push_of_not_mem hI hx]
  have old {j : Nat} {y : α} (hj : j ≠ q.heap.size) (hy : (q.heap.push x)[j]? = some y) :
      q.heap[j]? = some y := by
    rwa [Array.getElem?_push, if_neg hj] at hy
  refine UpReady.sorted_siftUp ⟨?_, ?_⟩ hr
  · intro j y z hj hjs hy hz
    have hlt : j < q.heap.size := (Array.getElem?_eq_some_iff.1 (old hjs hy)).1
    have hp := parent_lt hj
    exact h j y z hj (old hjs hy) (old (by omega) hz)
  · intro j y z _ hj hp hy _
    have hlt : j < (q.heap.push x).size := (Array.getElem?_eq_some_iff.1 hy).1
    have hpj := parent_lt hj
    rw [Array.size_push] at hlt
    omega

theorem Sorted.pop {order : Order α} {rank : α → κ} {q rest : Queue α} {x : α}
    (hs : Sorted rank q.heap) (hr : Ranked order rank q.heap)
    (h : q.pop? order = some (x, rest)) :
    Sorted rank rest.heap ∧ ∀ y ∈ q.heap, rank x ≤ rank y := by
  have hperm := perm_pop h
  obtain ⟨hx, last, hl, hcase⟩ := pop?_cases h
  constructor
  · rcases hcase with ⟨h1, rfl⟩ | ⟨h1, rfl⟩
    · intro i y z hi hy _
      have hlt : i < q.heap.pop.size := (Array.getElem?_eq_some_iff.1 hy).1
      rw [Array.size_pop] at hlt
      omega
    · -- away from the first place nothing has changed
      have old {i : Nat} {y : α} (hi : i ≠ 0)
          (hy : (q.heap.pop.setIfInBounds 0 last)[i]? = some y) : q.heap[i]? = some y := by
        rw [Array.getElem?_setIfInBounds, if_neg (Ne.symm hi), Array.getElem?_pop] at hy
        split at hy
        · exact hy
        · cases hy
      refine DownReady.sorted_siftDown ⟨?_, ?_⟩ ?_
      · intro j y z hj hp hy hz
        have hlt := parent_lt hj
        exact hs j y z hj (old (by omega) hy) (old hp hz)
      · intro j y z h0
        exact absurd h0 (Nat.lt_irrefl 0)
      · intro y hy z hz
        have hsub : ∀ w ∈ q.heap.pop.setIfInBounds 0 last, w ∈ q.heap := by
          intro w hw
          have hm := ((perm_siftDown order ⟨q.heap.pop.setIfInBounds 0 last,
            (q.position.erase x).insert last 0⟩ 0).mem_iff).2 hw
          exact hperm.mem_iff.1 (Array.mem_push_of_mem x hm)
        exact hr y (hsub y hy) z (hsub z hz)
  · intro y hy
    obtain ⟨i, hi⟩ := Array.mem_iff_getElem?.1 hy
    exact hs.first_le hx i y hi

end Operations

end Queue

end LinkState
