import LinkState.Proofs.EqualCost
import LinkState.Proofs.Offers

/-! The shape of a tree of shortest paths. Every vertex is in it, once, and the root comes first.
Each other vertex has parents, which are routers that come before it and have it as a child; there
are no other children. Distances never decrease on the way. -/

namespace LinkState

namespace Tree

variable {t : PathTree}

def At (t : PathTree) (a h : Nat) (v : PathVertex) : Prop := t.inOrder[a]? = some (h, v)

/-- What holds of a tree that was computed from the router `root`. -/
structure WellFormed (t : PathTree) (root : Address) : Prop where
  settled : ∀ (h : Nat) (v : PathVertex), t.vertices[h]? = some v → v.status = .inTree
  once : (t.inOrder.map Prod.fst).Perm (List.range t.size)
  origin : ∃ v, t.At 0 0 v ∧ v.key = .router root ∧ v.distance = 0 ∧ v.parents = []
  parents_ne_nil : ∀ a h v, t.At a h v → h ≠ 0 → v.parents ≠ []
  parents_before : ∀ b h v, t.At b h v → ∀ p ∈ v.parents,
    ∃ a < b, ∃ u, t.At a p u ∧ u.type = .router
  parents_nodup : ∀ a h v, t.At a h v → v.parents.Nodup
  mem_parents_iff : ∀ a b p h u v, t.At a p u → t.At b h v → (p ∈ v.parents ↔ h ∈ u.children)
  children_sublist : ∀ a h v, t.At a h v → v.children.Sublist (t.inOrder.map Prod.fst)
  children_nodup : ∀ a h v, t.At a h v → v.children.Nodup
  leaves : ∀ a h v, t.At a h v → v.type = .network → v.children = []
  ascending : t.inOrder.Pairwise fun e f => e.2.distance ≤ f.2.distance

/-- Where all that entered the tree exists, nothing is left out of its order. -/
theorem inOrder_eq_map (ht : ∀ h ∈ t.order, h < t.size) :
    t.inOrder = t.order.toList.map fun h => (h, t.vertices.getD h default) := by
  rw [inOrder, ← List.filterMap_eq_map]
  refine List.filterMap_congr fun h hh => ?_
  have hlt : h < t.vertices.size := ht h (Array.mem_toList_iff.1 hh)
  simp [hlt, Array.getD_eq_getD_getElem?]

theorem map_fst_inOrder (ht : ∀ h ∈ t.order, h < t.size) :
    t.inOrder.map Prod.fst = t.order.toList := by
  rw [inOrder_eq_map ht, List.map_map]
  exact List.map_id _

theorem at_iff (ht : ∀ h ∈ t.order, h < t.size) {a h : Nat} {v : PathVertex} :
    t.At a h v ↔ t.order[a]? = some h ∧ t.vertices[h]? = some v := by
  rw [At, inOrder_eq_map ht, List.getElem?_map, Array.getElem?_toList, Option.map_eq_some_iff]
  constructor
  · intro hv
    obtain ⟨i, hi, heq⟩ := hv
    obtain ⟨rfl, rfl⟩ := Prod.mk.injEq .. ▸ heq
    have hlt : i < t.vertices.size := ht i (Array.mem_of_getElem? hi)
    exact ⟨hi, by simp [hlt, Array.getD_eq_getD_getElem?]⟩
  · intro hv
    exact ⟨h, hv.1, by simp [Array.getD_eq_getD_getElem?, hv.2]⟩

end Tree

namespace Search

variable {db : Database Advertisement} {root : Address} {s : Search} {a b h p : Nat}
  {u v : PathVertex}

theorem Finished.order_lt (hf : Finished db root s) : ∀ h ∈ s.tree.order, h < s.tree.size :=
  fun h hm => (hf.mem_order_iff h).1 hm

theorem Finished.stands_of_at (hf : Finished db root s) (hv : s.tree.At a h v) :
    Stands s.tree a h v.bare := by
  obtain ⟨hh, hv⟩ := (Tree.at_iff hf.order_lt).1 hv
  exact ⟨hh, Tree.view_of_getElem? hv⟩

theorem Finished.at_of_stands (hf : Finished db root s) (hv : Stands s.tree a h v) :
    ∃ w, s.tree.At a h w ∧ w.bare = v := by
  obtain ⟨cs, hw, hc⟩ := Tree.view_eq_some_iff.1 hv.2
  refine ⟨_, (Tree.at_iff hf.order_lt).2 ⟨hv.1, hw⟩, ?_⟩
  rw [Vertex.bare, ← hc]

theorem Finished.parentsAt (hf : Finished db root s) (hv : s.tree.At a h v) :
    s.tree.parentsAt h = v.parents := by
  rw [Tree.parentsAt_eq (hf.stands_of_at hv).2]
  rfl

theorem Finished.parents_before (hf : Finished db root s)
    (hch : Chronicle db s.tree fun _ => True) (hv : s.tree.At b h v) (hp : p ∈ v.parents) :
    ∃ a < b, ∃ u, s.tree.At a p u ∧ u.type = .router := by
  obtain ⟨a, u, w, hab, hu, hr, -⟩ := (hf.mem_parents_iff hch (hf.stands_of_at hv)).1 hp
  obtain ⟨x, hx, rfl⟩ := hf.at_of_stands hu
  exact ⟨a, hab, x, hx, hr⟩

/-- The children of a vertex are, in their order, those that have it as a parent. -/
theorem Finished.children_eq (hf : Finished db root s) (hl : s.tree.Lineage)
    (hv : s.tree.At a h v) :
    v.children = (s.tree.inOrder.map Prod.fst).filter fun i => h ∈ s.tree.parentsAt i := by
  rw [Tree.map_fst_inOrder hf.order_lt]
  exact hl.children h v ((Tree.at_iff hf.order_lt).1 hv).2

theorem Finished.mem_children_iff (hf : Finished db root s) (hl : s.tree.Lineage)
    (hu : s.tree.At a p u) (hv : s.tree.At b h v) : p ∈ v.parents ↔ h ∈ u.children := by
  have hm : h ∈ s.tree.inOrder.map Prod.fst := List.mem_map.2 ⟨_, List.mem_of_getElem? hv, rfl⟩
  rw [hf.children_eq hl hu, List.mem_filter, hf.parentsAt hv, decide_eq_true_eq]
  exact (and_iff_right hm).symm

theorem Finished.wellFormed (hf : Finished db root s)
    (hch : Chronicle db s.tree fun _ => True) : s.tree.WellFormed root := by
  have nodup : (s.tree.inOrder.map Prod.fst).Nodup := by
    rw [Tree.map_fst_inOrder hf.order_lt]
    exact hf.sound.frontier.nodup
  constructor
  · intro h v hv
    exact (hf.settled h _ (Tree.view_of_getElem? hv)).2
  · rw [Tree.map_fst_inOrder hf.order_lt]
    exact hf.perm_order
  · obtain ⟨r, hr, hk, hd, hp⟩ := hf.sound.arena.origin
    obtain ⟨a, ha⟩ := hf.exists_stands hr.1
    obtain rfl := hf.stands_root ha
    obtain ⟨x, hx, rfl⟩ := hf.at_of_stands ha
    exact ⟨x, hx, hk, hd, hp⟩
  · intro a h v hv hz
    have hps := hf.sound.arena.parents h v.bare (hf.stands_of_at hv).2 hz
    exact hps
  · intro b h v hv p hp
    exact hf.parents_before hch hv hp
  · intro a h v hv
    have hsub := hch.lineage.parents h
    rw [hf.parentsAt hv] at hsub
    exact hf.sound.frontier.nodup.sublist hsub
  · intro a b p h u v hu hv
    exact hf.mem_children_iff hch.lineage hu hv
  · intro a h v hv
    rw [hf.children_eq hch.lineage hv]
    exact List.filter_sublist
  · intro a h v hv
    rw [hf.children_eq hch.lineage hv]
    exact nodup.filter _
  · intro a h v hv hn
    rw [List.eq_nil_iff_forall_not_mem]
    intro i hi
    -- a child stands in the tree and has the network as a parent, but parents are routers
    have hm : i ∈ s.tree.inOrder.map Prod.fst := by
      rw [hf.children_eq hch.lineage hv] at hi
      exact (List.mem_filter.1 hi).1
    obtain ⟨⟨_, w⟩, he, rfl⟩ := List.mem_map.1 hm
    obtain ⟨b, hb⟩ := List.mem_iff_getElem?.1 he
    obtain ⟨c, -, u, hu, hr⟩ :=
      hf.parents_before hch hb ((hf.mem_children_iff hch.lineage hv hb).2 hi)
    obtain rfl : v = u := by
      have := ((Tree.at_iff hf.order_lt).1 hv).2.symm.trans ((Tree.at_iff hf.order_lt).1 hu).2
      exact Option.some.inj this
    rw [hr] at hn
    cases hn
  · exact hch.pairwise_inOrder

end Search

namespace Network

/-- From a root with an advertisement the computed tree is well formed. -/
theorem calculate_wellFormed (n : Network) (s : SearcherId) (root : Address)
    (hroot : ((n.snapshot (n.searcher s).database).get? root).isSome) :
    Completes (calculate s root) n fun t _ => t.WellFormed root := by
  refine (completes_calculate s root).mono ?_
  rintro t n' ⟨-, db, hdb, rfl, -⟩
  rw [hdb.isSome_get?] at hroot
  exact (Search.run_finished hroot).wellFormed (Search.run_chronicle hroot)

/-- The tree over the two neighbours with a stub network in common. -/
theorem calculate_wellFormed_sharedStub :
    ((sharedStub.snapshot (sharedStub.searcher 0).database).get? ⟨1, 1, 1, 1⟩).isSome ∧
      ∃ t, (exec (calculate 0 ⟨1, 1, 1, 1⟩) sharedStub).1 = .ok t ∧ t.WellFormed ⟨1, 1, 1, 1⟩ := by
  have hroot :
      ((sharedStub.snapshot (sharedStub.searcher 0).database).get? ⟨1, 1, 1, 1⟩).isSome := by
    decide +kernel
  exact ⟨hroot,
    (calculate_wellFormed sharedStub 0 ⟨1, 1, 1, 1⟩ hroot).of_quiet
      (quiet_of_nil (by decide +kernel))⟩

end Network

end LinkState
