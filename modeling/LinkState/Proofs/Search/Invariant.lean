import LinkState.Proofs.Queue.Order
import LinkState.Proofs.Tree
import LinkState.Proofs.Walk

/-! What holds of a search at every moment. A vertex is settled or waits. The view of the tree
changes in two ways only: a waiting vertex is put in (a new one, or one in place of its longer
self), and the waiting vertex of least rank is settled. -/

namespace LinkState

/-- A router vertex has the advertisement of its router, a network vertex the mask of a record. -/
def Vertex.Genuine (db : Database Advertisement) (v : PathVertex) : Prop :=
  match v.type with
  | .router => v.mask = none ∧ v.advertisement = db.get? v.id ∧ (db.get? v.id).isSome
  | .network => v.advertisement = none ∧ ∃ m a, v.mask = some m ∧ Mask.ofAddress a = .ok m

namespace Vertex.Genuine

variable {db : Database Advertisement} {v : PathVertex}

theorem router (h : v.Genuine db) (htype : v.type = .router) :
    v.mask = none ∧ v.advertisement = db.get? v.id ∧ (db.get? v.id).isSome := by
  rwa [Genuine, htype] at h

theorem network (h : v.Genuine db) (htype : v.type = .network) :
    v.advertisement = none ∧ ∃ m a, v.mask = some m ∧ Mask.ofAddress a = .ok m := by
  rwa [Genuine, htype] at h

end Vertex.Genuine

namespace Search

abbrev View := Nat → Option PathVertex

def Settled (look : View) (h : Nat) (v : PathVertex) : Prop := look h = some v ∧ v.status = .inTree

def Waiting (look : View) (h : Nat) (v : PathVertex) : Prop :=
  look h = some v ∧ v.status = .candidate

/-- The vertex `p` is settled, and one of its records leads to `v` along a shortest known path. -/
def Tight (db : Database Advertisement) (look : View) (p : Nat) (v : PathVertex) : Prop :=
  ∃ u w, Settled look p u ∧ u.type = .router ∧ Leads db u.id v.key w ∧ u.distance + w = v.distance

/-- Each vertex by itself: where it came from and how far it is. -/
structure Arena (db : Database Advertisement) (root : Address) (look : View) : Prop where
  origin : ∃ v, Settled look 0 v ∧ v.key = .router root ∧ v.distance = 0 ∧ v.parents = []
  keys : ∀ h i v w, look h = some v → look i = some w → v.key = w.key → h = i
  genuine : ∀ h v, look h = some v → v.Genuine db
  walk : ∀ h v, look h = some v → Walk db root v.key v.distance
  le_max : ∀ h v, look h = some v → v.distance ≤ maxMetric
  status : ∀ h v, look h = some v → v.status = .inTree ∨ v.status = .candidate
  parents : ∀ h v, look h = some v → h ≠ 0 → v.parents ≠ []
  tight : ∀ h v, look h = some v → ∀ p ∈ v.parents, Tight db look p v

/-- The settled vertices in their order, and the waiting ones in the queue behind them. -/
structure Frontier (look : View) (order : Array Nat) (q : Queue Nat) : Prop where
  settled : ∀ h, h ∈ order ↔ ∃ v, Settled look h v
  nodup : order.toList.Nodup
  earlier : ∀ h v, Settled look h v → ∀ p ∈ v.parents,
    ∃ i j : Nat, i < j ∧ order[i]? = some p ∧ order[j]? = some h
  queued : ∀ h, h ∈ q.heap ↔ ∃ v, Waiting look h v
  indexed : q.Indexed
  sorted : Queue.Sorted (Tree.rankAt look) q.heap
  behind : ∀ h i u v, Settled look h u → Waiting look i v → u.distance ≤ v.distance

structure Sound (db : Database Advertisement) (root : Address) (s : Search) : Prop where
  arena : Arena db root s.tree.view
  frontier : Frontier s.tree.view s.tree.order s.queue

theorem not_settled_of_waiting {look : View} {h : Nat} {v w : PathVertex}
    (hv : Waiting look h v) (hw : Settled look h w) : False := by
  obtain rfl := Option.some.inj (hv.1.symm.trans hw.1)
  have h := hv.2
  rw [hw.2] at h
  cases h

/-! ### Putting in a waiting vertex -/

/-- What may be put in at a handle. -/
structure Placement (db : Database Advertisement) (look : View) (h : Nat) (v : PathVertex) :
    Prop where
  old : ∀ u, look h = some u → u.status = .candidate ∧ u.key = v.key ∧ v.distance ≤ u.distance
  new : look h = none → ∀ i u, look i = some u → u.key ≠ v.key
  waits : v.status = .candidate
  genuine : v.Genuine db
  le_max : v.distance ≤ maxMetric
  parents : v.parents ≠ []
  tight : ∀ p ∈ v.parents, Tight db look p v
  ahead : ∀ i u, Settled look i u → u.distance ≤ v.distance

section Place

variable {db : Database Advertisement} {root : Address} {look : View} {h : Nat} {v : PathVertex}

theorem update_eq_some {i : Nat} {w : PathVertex}
    (hw : Function.update look h (some v) i = some w) :
    i = h ∧ w = v ∨ i ≠ h ∧ look i = some w := by
  rw [Function.update_apply] at hw
  split at hw
  · next hi => exact .inl ⟨hi, (Option.some.inj hw).symm⟩
  · next hi => exact .inr ⟨hi, hw⟩

theorem Placement.settled_ne (hp : Placement db look h v) {i : Nat} {u : PathVertex}
    (hu : Settled look i u) : i ≠ h := by
  rintro rfl
  exact not_settled_of_waiting ⟨hu.1, (hp.old u hu.1).1⟩ hu

/-- Nothing settled moves. -/
theorem Placement.settled_iff (hp : Placement db look h v) {i : Nat} {u : PathVertex} :
    Settled (Function.update look h (some v)) i u ↔ Settled look i u := by
  constructor
  · rintro ⟨hu, hs⟩
    rcases update_eq_some hu with ⟨_, rfl⟩ | ⟨_, hu⟩
    · rw [hp.waits] at hs
      cases hs
    · exact ⟨hu, hs⟩
  · intro hu
    exact ⟨(Function.update_of_ne (hp.settled_ne hu) ..).trans hu.1, hu.2⟩

theorem Placement.tight_iff (hp : Placement db look h v) {p : Nat} {w : PathVertex} :
    Tight db (Function.update look h (some v)) p w ↔ Tight db look p w :=
  exists_congr fun _ => exists_congr fun _ => and_congr_left fun _ => hp.settled_iff

theorem key_of_router {u : PathVertex} (hu : u.type = .router) : u.key = .router u.id := by
  rw [Vertex.key, hu]
  rfl

theorem key_eq_router_iff {u : PathVertex} {id : Address} :
    u.key = .router id ↔ u.type = .router ∧ u.id = id := by
  cases htype : u.type with
  | router => rw [key_of_router htype, VertexKey.router.injEq, eq_self, true_and]
  | network =>
    rw [Vertex.key, htype]
    exact ⟨nofun, fun h => nomatch h.1⟩

theorem Arena.walk_of_tight (ha : Arena db root look) {p : Nat} (ht : Tight db look p v) :
    Walk db root v.key v.distance := by
  obtain ⟨u, w, hu, htype, hl, hd⟩ := ht
  have hw := ha.walk p u hu.1
  rw [key_of_router htype] at hw
  exact hd ▸ hw.step hl

theorem Arena.place (ha : Arena db root look) (hp : Placement db look h v) :
    Arena db root (Function.update look h (some v)) := by
  constructor
  · obtain ⟨r, hr, hrest⟩ := ha.origin
    exact ⟨r, hp.settled_iff.2 hr, hrest⟩
  · intro i j u w hu hw hk
    rcases update_eq_some hu with ⟨hi, rfl⟩ | ⟨hi, hu'⟩ <;>
      rcases update_eq_some hw with ⟨hj, rfl⟩ | ⟨hj, hw'⟩
    · rw [hi, hj]
    · cases hl : look h with
      | none => exact absurd hk.symm (hp.new hl j w hw')
      | some x => rw [hi, ha.keys h j x w hl hw' ((hp.old x hl).2.1.trans hk)]
    · cases hl : look h with
      | none => exact absurd hk (hp.new hl i u hu')
      | some x => rw [hj, ha.keys i h u x hu' hl (hk.trans (hp.old x hl).2.1.symm)]
    · exact ha.keys i j u w hu' hw' hk
  · intro i u hu
    rcases update_eq_some hu with ⟨_, rfl⟩ | ⟨_, hu⟩
    · exact hp.genuine
    · exact ha.genuine i u hu
  · intro i u hu
    rcases update_eq_some hu with ⟨_, rfl⟩ | ⟨_, hu⟩
    · obtain ⟨p, hpar⟩ := List.exists_mem_of_ne_nil _ hp.parents
      exact ha.walk_of_tight (hp.tight p hpar)
    · exact ha.walk i u hu
  · intro i u hu
    rcases update_eq_some hu with ⟨_, rfl⟩ | ⟨_, hu⟩
    · exact hp.le_max
    · exact ha.le_max i u hu
  · intro i u hu
    rcases update_eq_some hu with ⟨_, rfl⟩ | ⟨_, hu⟩
    · exact .inr hp.waits
    · exact ha.status i u hu
  · intro i u hu hi
    rcases update_eq_some hu with ⟨_, rfl⟩ | ⟨_, hu⟩
    · exact hp.parents
    · exact ha.parents i u hu hi
  · intro i u hu p hpar
    rw [hp.tight_iff]
    rcases update_eq_some hu with ⟨_, rfl⟩ | ⟨_, hu⟩
    · exact hp.tight p hpar
    · exact ha.tight i u hu p hpar

theorem Frontier.place {order : Array Nat} {q q' : Queue Nat} (hf : Frontier look order q)
    (hp : Placement db look h v) (indexed : q'.Indexed)
    (mem : ∀ i, i ∈ q'.heap ↔ i = h ∨ i ∈ q.heap)
    (sorted : Queue.Sorted (Tree.rankAt (Function.update look h (some v))) q'.heap) :
    Frontier (Function.update look h (some v)) order q' := by
  refine ⟨?_, hf.nodup, ?_, ?_, indexed, sorted, ?_⟩
  · intro i
    rw [hf.settled i]
    exact exists_congr fun u => hp.settled_iff.symm
  · intro i u hu
    exact hf.earlier i u (hp.settled_iff.1 hu)
  · intro i
    rw [mem, hf.queued]
    by_cases hi : i = h
    · subst hi
      exact ⟨fun _ => ⟨v, Function.update_self .., hp.waits⟩, fun _ => .inl rfl⟩
    · simp only [hi, false_or, Waiting, Function.update_of_ne hi]
  · intro i j u w hu hw
    rw [hp.settled_iff] at hu
    rcases update_eq_some hw.1 with ⟨_, rfl⟩ | ⟨_, hw'⟩
    · exact hp.ahead i u hu
    · exact hf.behind i j u w hu ⟨hw', hw.2⟩

end Place

/-! ### Settling the waiting vertex of least rank -/

def settle (v : PathVertex) : PathVertex := { v with status := .inTree }

section Settle

variable {db : Database Advertisement} {root : Address} {look : View} {h : Nat} {v : PathVertex}

theorem settled_update_self : Settled (Function.update look h (some (settle v))) h (settle v) :=
  ⟨Function.update_self .., rfl⟩

theorem settled_update_of_ne {i : Nat} {u : PathVertex} (hi : i ≠ h) :
    Settled (Function.update look h (some (settle v))) i u ↔ Settled look i u := by
  rw [Settled, Settled, Function.update_of_ne hi]

theorem settled_of_settled (hv : Waiting look h v) {i : Nat} {u : PathVertex}
    (hu : Settled look i u) : Settled (Function.update look h (some (settle v))) i u := by
  refine (settled_update_of_ne ?_).2 hu
  rintro rfl
  exact not_settled_of_waiting hv hu

theorem rankAt_settle (hv : look h = some v) :
    Tree.rankAt (Function.update look h (some (settle v))) = Tree.rankAt look := by
  funext i
  by_cases hi : i = h
  · subst hi
    rw [Tree.rankAt_eq (Function.update_self ..), Tree.rankAt_eq hv]
    rfl
  · rw [Tree.rankAt, Tree.rankAt, Function.update_of_ne hi]

theorem Arena.settle (ha : Arena db root look) (hv : Waiting look h v) :
    Arena db root (Function.update look h (some (settle v))) := by
  -- settling changes nothing but the status of `v`
  have back {i : Nat} {u : PathVertex}
      (hu : Function.update look h (some (Search.settle v)) i = some u) :
      ∃ u', look i = some u' ∧ u'.key = u.key ∧ (u'.Genuine db → u.Genuine db) ∧
        u'.distance = u.distance ∧ u'.parents = u.parents ∧
        (u.status = .inTree ∨ u.status = u'.status) := by
    rcases update_eq_some hu with ⟨hi, rfl⟩ | ⟨_, hu⟩
    · exact ⟨v, hi ▸ hv.1, rfl, id, rfl, rfl, .inl rfl⟩
    · exact ⟨u, hu, rfl, id, rfl, rfl, .inr rfl⟩
  constructor
  · obtain ⟨r, hr, hrest⟩ := ha.origin
    exact ⟨r, settled_of_settled hv hr, hrest⟩
  · intro i j u w hu hw hk
    obtain ⟨u', hu', hku, _⟩ := back hu
    obtain ⟨w', hw', hkw, _⟩ := back hw
    exact ha.keys i j u' w' hu' hw' (hku.trans (hk.trans hkw.symm))
  · intro i u hu
    obtain ⟨u', hu', _, hg, _⟩ := back hu
    exact hg (ha.genuine i u' hu')
  · intro i u hu
    obtain ⟨u', hu', hk, _, hd, _⟩ := back hu
    exact hk ▸ hd ▸ ha.walk i u' hu'
  · intro i u hu
    obtain ⟨u', hu', _, _, hd, _⟩ := back hu
    exact hd ▸ ha.le_max i u' hu'
  · intro i u hu
    obtain ⟨u', hu', _, _, _, _, hs | hs⟩ := back hu
    · exact .inl hs
    · exact hs ▸ ha.status i u' hu'
  · intro i u hu hi
    obtain ⟨u', hu', _, _, _, hp, _⟩ := back hu
    exact hp ▸ ha.parents i u' hu' hi
  · intro i u hu p hp
    obtain ⟨u', hu', hk, _, hd, hpar, _⟩ := back hu
    obtain ⟨x, w, hx, htype, hl, hsum⟩ := ha.tight i u' hu' p (hpar ▸ hp)
    exact ⟨x, w, settled_of_settled hv hx, htype, hk ▸ hl, hd ▸ hsum⟩

theorem Frontier.settle {order : Array Nat} {q rest : Queue Nat} {cmp : Queue.Order Nat}
    (hf : Frontier look order q) (ha : Arena db root look) (hv : Waiting look h v)
    (hr : Queue.Ranked cmp (Tree.rankAt look) q.heap) (hpop : q.pop? cmp = some (h, rest)) :
    Frontier (Function.update look h (some (settle v))) (order.push h) rest := by
  obtain ⟨sorted, least⟩ := hf.sorted.pop hr hpop
  have hnot : h ∉ order := by
    intro hm
    obtain ⟨u, hu⟩ := (hf.settled h).1 hm
    exact not_settled_of_waiting hv hu
  refine ⟨?_, ?_, ?_, ?_, hf.indexed.pop hpop, rankAt_settle hv.1 ▸ sorted, ?_⟩
  · intro i
    rw [Array.mem_push, hf.settled]
    by_cases hi : i = h
    · subst hi
      exact ⟨fun _ => ⟨_, settled_update_self⟩, fun _ => .inr rfl⟩
    · simp only [hi, or_false, settled_update_of_ne hi]
  · rw [Array.toList_push, List.nodup_append]
    refine ⟨hf.nodup, List.pairwise_singleton _ h, fun i hi j hj => ?_⟩
    rw [List.mem_singleton.1 hj]
    rintro rfl
    exact hnot (Array.mem_toList_iff.1 hi)
  · intro i u hu p hp
    by_cases hi : i = h
    · subst hi
      obtain rfl := Option.some.inj (hu.1.symm.trans (Function.update_self ..))
      obtain ⟨x, _, hx, _⟩ := ha.tight i v hv.1 p hp
      obtain ⟨j, hj⟩ := Array.mem_iff_getElem?.1 ((hf.settled p).2 ⟨x, hx⟩)
      have hlt : j < order.size := (Array.getElem?_eq_some_iff.1 hj).1
      refine ⟨j, order.size, hlt, ?_, Array.getElem?_push_size⟩
      rw [Array.getElem?_push, if_neg (by omega), hj]
    · obtain ⟨j, k, hjk, hj, hk⟩ := hf.earlier i u ((settled_update_of_ne hi).1 hu) p hp
      have hlt : k < order.size := (Array.getElem?_eq_some_iff.1 hk).1
      refine ⟨j, k, hjk, ?_, ?_⟩
      · rw [Array.getElem?_push, if_neg (by omega), hj]
      · rw [Array.getElem?_push, if_neg (by omega), hk]
  · intro i
    rw [Queue.mem_pop_iff hf.indexed hpop, hf.queued]
    by_cases hi : i = h
    · subst hi
      refine ⟨fun hm => absurd rfl hm.2, ?_⟩
      rintro ⟨u, hu⟩
      exact (not_settled_of_waiting hu settled_update_self).elim
    · simp only [hi, ne_eq, not_false_eq_true, and_true, Waiting, Function.update_of_ne hi]
  · intro i j u w hu hw
    have hj : j ≠ h := by
      rintro rfl
      exact not_settled_of_waiting hw settled_update_self
    rw [Waiting, Function.update_of_ne hj] at hw
    by_cases hi : i = h
    · subst hi
      obtain rfl := Option.some.inj (hu.1.symm.trans (Function.update_self ..))
      have hle := least j ((hf.queued j).2 ⟨w, hw⟩)
      rw [Tree.rankAt_eq hv.1, Tree.rankAt_eq hw.1] at hle
      exact Vertex.distance_le_of_rank_le hle
    · exact hf.behind i j u w ((settled_update_of_ne hi).1 hu) hw

end Settle

end Search

end LinkState
