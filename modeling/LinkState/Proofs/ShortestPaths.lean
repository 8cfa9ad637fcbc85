import LinkState.Proofs.Search.Run

/-! The tree of shortest paths is exact: it has the routers and networks to which there is a walk of
admitted length, each once and at the least length of such a walk. -/

namespace LinkState

namespace Tree

variable {t : PathTree} {h : Nat}

theorem mem_inOrder {v : PathVertex} :
    (h, v) ∈ t.inOrder ↔ h ∈ t.order ∧ t.vertices[h]? = some v := by
  rw [inOrder, List.mem_filterMap]
  constructor
  · rintro ⟨i, hi, hv⟩
    obtain ⟨w, hw, heq⟩ := Option.map_eq_some_iff.1 hv
    obtain ⟨rfl, rfl⟩ := Prod.mk.injEq .. ▸ heq
    exact ⟨Array.mem_toList_iff.1 hi, hw⟩
  · rintro ⟨hi, hv⟩
    exact ⟨h, Array.mem_toList_iff.2 hi, by rw [hv, Option.map_some]⟩

def Holds (t : PathTree) (k : VertexKey) (d : Nat) : Prop :=
  ∃ e ∈ t.inOrder, e.2.key = k ∧ e.2.distance = d

theorem holds_of_view {v : PathVertex} (hv : t.view h = some v) (hm : h ∈ t.order) :
    t.Holds v.key v.distance := by
  obtain ⟨cs, hw, _⟩ := view_eq_some_iff.1 hv
  exact ⟨_, mem_inOrder.2 ⟨hm, hw⟩, rfl, rfl⟩

theorem view_of_holds {k : VertexKey} {d : Nat} (hk : t.Holds k d) :
    ∃ i v, t.view i = some v ∧ v.key = k ∧ v.distance = d := by
  obtain ⟨⟨i, v⟩, hm, hk, hd⟩ := hk
  exact ⟨i, v.bare, view_of_getElem? (mem_inOrder.1 hm).2, hk, hd⟩

theorem inOrder_keys_nodup (hn : t.order.toList.Nodup)
    (inj : ∀ i j v w, t.view i = some v → t.view j = some w → v.key = w.key → i = j) :
    (t.inOrder.map (·.2.key)).Nodup := by
  rw [List.Nodup, List.pairwise_map, inOrder, List.pairwise_filterMap]
  refine hn.imp fun hne => ?_
  rintro ⟨a, v⟩ hv ⟨b, w⟩ hw hk
  obtain ⟨v', hv', heq⟩ := Option.map_eq_some_iff.1 hv
  obtain ⟨w', hw', heq'⟩ := Option.map_eq_some_iff.1 hw
  obtain ⟨rfl, rfl⟩ := Prod.mk.injEq .. ▸ heq
  obtain ⟨rfl, rfl⟩ := Prod.mk.injEq .. ▸ heq'
  exact hne (inj _ _ _ _ (view_of_getElem? hv') (view_of_getElem? hw') hk)

end Tree

/-- The lengths over which a network is reached from the routers of a tree. -/
def networkLengths (db : Database Advertisement) (t : PathTree) (k : VertexKey) : Set Nat :=
  {l | ∃ u d w, t.Holds (.router u) d ∧ Leads db u k w ∧ d + w = l}

/-- What makes a tree the one of shortest paths from a router. -/
structure IsShortestPathTree (db : Database Advertisement) (root : Address) (t : PathTree) :
    Prop where
  complete : ∀ h, h ∈ t.order ↔ h < t.size
  nodup : (t.inOrder.map (·.2.key)).Nodup
  router_mem : ∀ id, (∃ d, t.Holds (.router id) d) ↔
    ∃ d, Walk db root (.router id) d ∧ d ≤ maxMetric
  router_least : ∀ id d, t.Holds (.router id) d → IsLeast {l | Walk db root (.router id) l} d
  network_mem : ∀ a k, (∃ d, t.Holds (.network a k) d) ↔
    ∃ d ∈ networkLengths db t (.network a k), d ≤ maxMetric
  network_least : ∀ a k d, t.Holds (.network a k) d →
    IsLeast (networkLengths db t (.network a k)) d
  le_max : ∀ k d, t.Holds k d → d ≤ maxMetric
  noRoot : db.get? root = none → t = .empty

/-- Which tree it is depends on the records alone. -/
theorem IsShortestPathTree.congr {db db' : Database Advertisement} {root : Address} {t : PathTree}
    (h : IsShortestPathTree db root t) (hdb : SameRecords db db') :
    IsShortestPathTree db' root t := by
  have lengths (k : VertexKey) : networkLengths db' t k = networkLengths db t k := by
    simp only [networkLengths, hdb.leads_iff]
  refine ⟨h.complete, h.nodup, ?_, ?_, ?_, ?_, h.le_max, ?_⟩
  · simpa only [hdb.walk_iff] using h.router_mem
  · simpa only [hdb.walk_iff] using h.router_least
  · simpa only [lengths] using h.network_mem
  · simpa only [lengths] using h.network_least
  · intro hroot
    refine h.noRoot (Option.not_isSome_iff_eq_none.1 ?_)
    simp [hdb.isSome_get?, hroot]

namespace Search

variable {db : Database Advertisement} {root : Address} {s : Search}

theorem Finished.genuine (hf : Finished db root s) {h : Nat} {v : PathVertex}
    (hv : s.tree.vertices[h]? = some v) : v.Genuine db := by
  have hbare := hf.sound.arena.genuine h _ (Tree.view_of_getElem? hv)
  exact hbare

theorem Finished.mem_order_iff (hf : Finished db root s) (h : Nat) :
    h ∈ s.tree.order ↔ h < s.tree.size := by
  rw [hf.sound.frontier.settled]
  constructor
  · rintro ⟨v, hv, _⟩
    exact Tree.lt_size_of_view hv
  · intro hlt
    have hv := Tree.view_of_getElem? (Array.getElem?_eq_getElem hlt)
    exact ⟨_, hf.settled h _ hv⟩

/-- Every vertex stands in the order once. -/
theorem Finished.perm_order (hf : Finished db root s) :
    s.tree.order.toList.Perm (List.range s.tree.size) := by
  apply (List.perm_ext_iff_of_nodup hf.sound.frontier.nodup List.nodup_range).2
  intro h
  rw [Array.mem_toList_iff, hf.mem_order_iff, List.mem_range]

theorem Finished.size_order (hf : Finished db root s) : s.tree.order.size = s.tree.size := by
  simpa using hf.perm_order.length_eq

theorem Finished.inOrder_of_view (hf : Finished db root s) {h : Nat} {v : PathVertex}
    (hv : s.tree.view h = some v) : ∃ x, (h, x) ∈ s.tree.inOrder ∧ x.bare = v := by
  obtain ⟨cs, hw, hc⟩ := Tree.view_eq_some_iff.1 hv
  have hm := (hf.sound.frontier.settled h).2 ⟨v, hf.settled h v hv⟩
  refine ⟨_, Tree.mem_inOrder.2 ⟨hm, hw⟩, ?_⟩
  rw [Vertex.bare, ← hc]

theorem Finished.holds_iff (hf : Finished db root s) {k : VertexKey} {d : Nat} :
    s.tree.Holds k d ↔ ∃ i v, s.tree.view i = some v ∧ v.key = k ∧ v.distance = d := by
  refine ⟨Tree.view_of_holds, ?_⟩
  rintro ⟨i, v, hv, rfl, rfl⟩
  exact Tree.holds_of_view hv ((hf.sound.frontier.settled i).2 ⟨v, hf.settled i v hv⟩)

theorem Finished.le_max (hf : Finished db root s) {k : VertexKey} {d : Nat}
    (hk : s.tree.Holds k d) : d ≤ maxMetric := by
  obtain ⟨i, v, hv, rfl, rfl⟩ := Tree.view_of_holds hk
  exact hf.sound.arena.le_max i v hv

theorem Finished.walk (hf : Finished db root s) {k : VertexKey} {d : Nat}
    (hk : s.tree.Holds k d) : Walk db root k d := by
  obtain ⟨i, v, hv, rfl, rfl⟩ := Tree.view_of_holds hk
  exact hf.sound.arena.walk i v hv

/-- What a walk of admitted length leads to is in the tree, and no farther away. -/
theorem Finished.holds_of_walk (hf : Finished db root s) {k : VertexKey} {l : Nat}
    (hw : Walk db root k l) (hmax : l ≤ maxMetric) : ∃ d ≤ l, s.tree.Holds k d := by
  obtain ⟨i, v, hv, hk, hle⟩ := hf.reached hw hmax
  exact ⟨v.distance, hle, hf.holds_iff.2 ⟨i, v, hv, hk, rfl⟩⟩

theorem Finished.holds_unique (hf : Finished db root s) {k : VertexKey} {d e : Nat}
    (hd : s.tree.Holds k d) (he : s.tree.Holds k e) : d = e := by
  obtain ⟨i, v, hv, hkv, rfl⟩ := Tree.view_of_holds hd
  obtain ⟨j, w, hw, hkw, rfl⟩ := Tree.view_of_holds he
  obtain rfl := hf.sound.arena.keys i j v w hv hw (hkv.trans hkw.symm)
  obtain rfl := Option.some.inj (hv.symm.trans hw)
  rfl

theorem Finished.isLeast (hf : Finished db root s) {k : VertexKey} {d : Nat}
    (hk : s.tree.Holds k d) : IsLeast {l | Walk db root k l} d := by
  refine ⟨hf.walk hk, fun l hl => ?_⟩
  by_cases hmax : l ≤ maxMetric
  · obtain ⟨e, hle, he⟩ := hf.holds_of_walk hl hmax
    exact (hf.holds_unique hk he).le.trans hle
  · exact (hf.le_max hk).trans (Nat.le_of_not_le hmax)

/-- A network is in the tree for the sake of a router that is. -/
theorem Finished.mem_networkLengths (hf : Finished db root s) {a : Address} {k d : Nat}
    (hk : s.tree.Holds (.network a k) d) : d ∈ networkLengths db s.tree (.network a k) := by
  obtain ⟨i, v, hv, hkv, rfl⟩ := Tree.view_of_holds hk
  have hi : i ≠ 0 := by
    rintro rfl
    obtain ⟨r, hr, hkr, _⟩ := hf.sound.arena.origin
    obtain rfl := Option.some.inj (hv.symm.trans hr.1)
    rw [hkr] at hkv
    cases hkv
  obtain ⟨p, hp⟩ := List.exists_mem_of_ne_nil _ (hf.sound.arena.parents i v hv hi)
  obtain ⟨u, w, hu, htype, hl, hd⟩ := hf.sound.arena.tight i v hv p hp
  refine ⟨u.id, u.distance, w, ?_, hkv ▸ hl, hd⟩
  exact hf.holds_iff.2 ⟨p, u, hu.1, key_of_router htype, rfl⟩

theorem Finished.walk_of_networkLengths (hf : Finished db root s) {k : VertexKey} {l : Nat}
    (hl : l ∈ networkLengths db s.tree k) : Walk db root k l := by
  obtain ⟨u, d, w, hu, hlead, rfl⟩ := hl
  exact (hf.walk hu).step hlead

theorem Finished.isShortestPathTree (hf : Finished db root s) (hroot : (db.get? root).isSome) :
    IsShortestPathTree db root s.tree := by
  constructor
  · exact hf.mem_order_iff
  · exact Tree.inOrder_keys_nodup hf.sound.frontier.nodup hf.sound.arena.keys
  · intro id
    constructor
    · rintro ⟨d, hd⟩
      exact ⟨d, hf.walk hd, hf.le_max hd⟩
    · rintro ⟨l, hl, hmax⟩
      obtain ⟨d, _, hd⟩ := hf.holds_of_walk hl hmax
      exact ⟨d, hd⟩
  · intro id d hd
    exact hf.isLeast hd
  · intro a k
    constructor
    · rintro ⟨d, hd⟩
      exact ⟨d, hf.mem_networkLengths hd, hf.le_max hd⟩
    · rintro ⟨l, hl, hmax⟩
      obtain ⟨d, _, hd⟩ := hf.holds_of_walk (hf.walk_of_networkLengths hl) hmax
      exact ⟨d, hd⟩
  · intro a k d hd
    exact ⟨hf.mem_networkLengths hd, fun l hl => (hf.isLeast hd).2 (hf.walk_of_networkLengths hl)⟩
  · intro k d hd
    exact hf.le_max hd
  · intro hnone
    rw [hnone] at hroot
    cases hroot

end Search

theorem shortestPaths_isShortestPathTree (db : Database Advertisement) (root : Address) :
    IsShortestPathTree db root (shortestPaths db root) := by
  by_cases hroot : (db.get? root).isSome
  · exact (Search.run_finished hroot).isShortestPathTree hroot
  · rw [Option.not_isSome_iff_eq_none] at hroot
    rw [shortestPaths, Search.run_noRoot hroot]
    have not_holds {k : VertexKey} {d : Nat} : ¬ Tree.Holds .empty k d := by
      rintro ⟨e, he, _⟩
      cases he
    have no_walk {k : VertexKey} {l : Nat} (hw : Walk db root k l) : False := by
      have hsome := hw.root_isSome
      rw [hroot] at hsome
      cases hsome
    refine ⟨fun h => ?_, List.nodup_nil, fun id => ?_, ?_, fun a k => ?_, ?_, ?_, fun _ => rfl⟩
    · exact iff_of_false (Array.not_mem_empty h) (Nat.not_lt_zero h)
    · exact iff_of_false (fun ⟨d, hd⟩ => not_holds hd) fun ⟨d, hd, _⟩ => no_walk hd
    · exact fun id d hd => absurd hd not_holds
    · exact iff_of_false (fun ⟨d, hd⟩ => not_holds hd) fun ⟨_, ⟨_, _, _, hu, _⟩, _⟩ => not_holds hu
    · exact fun a k d hd => absurd hd not_holds
    · exact fun k d hd => absurd hd not_holds

/-- In the tree is what has a shortest walk of admitted length. -/
theorem holds_shortestPaths_iff {db : Database Advertisement} {root : Address} {k : VertexKey}
    {d : Nat} : (shortestPaths db root).Holds k d ↔
      IsLeast {l | Walk db root k l} d ∧ d ≤ maxMetric := by
  by_cases hroot : (db.get? root).isSome
  · have hf := Search.run_finished hroot
    constructor
    · intro hd
      exact ⟨hf.isLeast hd, hf.le_max hd⟩
    · rintro ⟨hd, hmax⟩
      obtain ⟨e, -, he⟩ := hf.holds_of_walk hd.1 hmax
      rwa [hd.unique (hf.isLeast he)]
  · refine iff_of_false ?_ fun h => hroot h.1.1.root_isSome
    rw [shortestPaths, Search.run_noRoot (Option.not_isSome_iff_eq_none.1 hroot)]
    rintro ⟨e, he, -⟩
    cases he

theorem SameRecords.holds_iff {db db' : Database Advertisement} (h : SameRecords db db')
    {root : Address} {k : VertexKey} {d : Nat} :
    (shortestPaths db root).Holds k d ↔ (shortestPaths db' root).Holds k d := by
  simp only [holds_shortestPaths_iff, h.walk_iff]

end LinkState
