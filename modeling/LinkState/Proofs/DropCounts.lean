import LinkState.Proofs.Search.Tally
import LinkState.Proofs.TreeShape

/-! What a search counts, told from its tree. A link is unresolved if the router it names does not
advertise a link back. A path is rejected if it is longer than the largest metric; but a record
whose target is in the tree already when the router is relaxed is not looked at, whatever its
metric. That is so for the router itself and for all that stands before it. -/

namespace LinkState

namespace LinkRecord

/-- The record of the router `u` counts and leads to the vertex of the key. -/
def UsableTo (db : Database Advertisement) (u : Address) (r : LinkRecord) (k : VertexKey) : Prop :=
  (r.type = .pointToPoint ∧ k = .router r.id ∧ ∃ l, Lists db r.id l ∧ l.leadsTo u) ∨
    (r.type = .stubNetwork ∧ ∃ m, Mask.ofAddress r.data = .ok m ∧ k = .network r.id m.length)

/-- The link of the router `u` is to a router without an advertisement or without a link back. -/
def Unresolved (db : Database Advertisement) (u : Address) (r : LinkRecord) : Prop :=
  r.type = .pointToPoint ∧ ¬ ∃ l, Lists db r.id l ∧ l.leadsTo u

end LinkRecord

namespace Tree

structure Listing where
  /-- Where the router stands in the tree order. -/
  place : Nat
  router : PathVertex
  record : LinkRecord

def listings (db : Database Advertisement) (t : PathTree) : List Listing :=
  t.inOrder.zipIdx.flatMap fun (e, a) =>
    if e.2.type = .router then
      ((db.get? e.2.id).elim [] Advertisement.records).map (⟨a, e.2, ·⟩)
    else []

/-- The record makes too long a path to a vertex that is neither its router nor stands before it. -/
def Rejected (db : Database Advertisement) (t : PathTree) (x : Listing) : Prop :=
  ∃ k, x.record.UsableTo db x.router.id k ∧
    maxMetric < x.router.distance + x.record.metric.value ∧
    ∀ b h v, t.At b h v → v.key = k → x.place < b

end Tree

open Search

section

variable {db : Database Advertisement} {u : Address} {r : LinkRecord} {k : VertexKey}
  {t : PathTree} {x : Tree.Listing}

theorem LinkRecord.usableTo_iff :
    r.UsableTo db u k ↔ (target? db u r).map Target.key = some k := by
  have back (b : Advertisement) : linksBack b u = true ↔ ∃ l ∈ b.records, l.leadsTo u := by
    rw [linksBack, List.any_eq_true]
  rw [UsableTo, Option.map_eq_some_iff]
  cases htype : r.type with
  | pointToPoint =>
    simp only [target?_router htype, Lists, back]
    constructor
    · rintro (⟨-, rfl, l, ⟨b, hb, hl⟩, hto⟩ | ⟨h, -⟩)
      · exact ⟨_, ⟨b, hb, ⟨l, hl, hto⟩, rfl⟩, rfl⟩
      · cases h
    · rintro ⟨_, ⟨b, hb, ⟨l, hl, hto⟩, rfl⟩, rfl⟩
      exact .inl ⟨trivial, rfl, l, ⟨b, hb, hl⟩, hto⟩
  | stubNetwork =>
    simp only [target?_network htype]
    constructor
    · rintro (⟨h, -⟩ | ⟨-, m, hm, rfl⟩)
      · cases h
      · exact ⟨_, ⟨m, hm, rfl⟩, rfl⟩
    · rintro ⟨_, ⟨m, hm, rfl⟩, rfl⟩
      exact .inr ⟨trivial, m, hm, rfl⟩
  | unknown | transitNetwork | virtualLink | other => simp [target?, htype]

theorem LinkRecord.unresolved_iff : r.Unresolved db u ↔
    r.type = .pointToPoint ∧ (target? db u r).map Target.key = none := by
  refine and_congr_right fun htype => ?_
  have hkey (k : VertexKey) : r.UsableTo db u k ↔
      k = .router r.id ∧ ∃ l, Lists db r.id l ∧ l.leadsTo u := by
    simp [UsableTo, htype]
  simp only [Option.eq_none_iff_forall_ne_some, ne_eq, ← usableTo_iff, hkey]
  exact ⟨fun h k hk => h hk.2, fun h hl => h _ ⟨rfl, hl⟩⟩

theorem Tree.rejected_iff : t.Rejected db x ↔
    ∃ k ∈ (target? db x.router.id x.record).map Target.key,
      k ∉ (t.inOrder.take (x.place + 1)).map (·.2.key) ∧
      maxMetric < x.router.distance + x.record.metric.value := by
  have before (k : VertexKey) : (∀ b h v, t.At b h v → v.key = k → x.place < b) ↔
      k ∉ (t.inOrder.take (x.place + 1)).map (·.2.key) := by
    rw [List.mem_map]
    constructor
    · rintro h ⟨⟨i, v⟩, hmem, hk⟩
      obtain ⟨b, hb⟩ := List.mem_iff_getElem?.1 hmem
      rw [List.getElem?_take] at hb
      split at hb
      · next hlt =>
        have := h b i v hb hk
        omega
      · cases hb
    · intro h b i v hb hk
      by_contra hle
      refine h ⟨(i, v), List.mem_iff_getElem?.2 ⟨b, ?_⟩, hk⟩
      rw [List.getElem?_take, if_pos (by omega)]
      exact hb
  simp only [Tree.Rejected, LinkRecord.usableTo_iff, before, Option.mem_def]
  exact exists_congr fun k => and_congr_right fun _ => and_comm

instance : Decidable (r.Unresolved db u) := decidable_of_iff _ LinkRecord.unresolved_iff.symm

instance : Decidable (t.Rejected db x) := decidable_of_iff _ Tree.rejected_iff.symm

end

/-! ### The counts as sums -/

section

variable {db : Database Advertisement} {t : PathTree}

/-- What a record adds to the counts. -/
def Tree.dropped (db : Database Advertisement) (t : PathTree) (x : Tree.Listing) : Nat × Nat :=
  (if t.Rejected db x then 1 else 0, if x.record.Unresolved db x.router.id then 1 else 0)

theorem dropped_eq (a : Nat) (v : PathVertex) (r : LinkRecord) :
    dropped db ((t.inOrder.take (a + 1)).map (·.2.key)) v.id v.distance r =
      t.dropped db ⟨a, v, r⟩ := by
  rw [dropped, Tree.dropped]
  simp only [Tree.rejected_iff, LinkRecord.unresolved_iff]
  cases (target? db v.id r).map Target.key with
  | none =>
    simp only [Option.mem_def, reduceCtorEq, false_and, exists_false, if_false, and_true]
    split <;> rfl
  | some k =>
    simp only [Option.mem_def, Option.some.injEq, exists_eq_left', reduceCtorEq, and_false,
      if_false]
    split <;> rfl

theorem allDropped_eq_sum (seen : List VertexKey) (es : List (VertexKey × Nat)) :
    allDropped db seen es = (es.zipIdx.map fun (e, a) =>
      droppedOver db (seen ++ (es.take (a + 1)).map Prod.fst) e).sum := by
  induction es generalizing seen with
  | nil => rfl
  | cons e es ih =>
    rw [allDropped, ih, List.zipIdx_cons', List.map_cons, List.sum_cons, List.map_map]
    congr 2
    · refine List.map_congr_left fun x _ => ?_
      simp

theorem log_eq_map : log t = t.inOrder.map fun e => (e.2.key, e.2.distance) := by
  rw [log, Tree.inOrder, List.map_filterMap]
  refine List.filterMap_congr fun h _ => ?_
  rw [Tree.view]
  cases t.vertices[h]? with
  | none => rfl
  | some v => rfl

theorem sum_indicators {α : Type} (p q : α → Prop) [DecidablePred p] [DecidablePred q]
    (l : List α) : (l.map fun x => ((if p x then 1 else 0, if q x then 1 else 0) : Nat × Nat)).sum =
      (l.countP p, l.countP q) := by
  induction l with
  | nil => rfl
  | cons x l ih =>
    rw [List.map_cons, List.sum_cons, ih, List.countP_cons, List.countP_cons]
    simp [Nat.add_comm]

/-- What relaxing the vertex at a place of the tree order adds up to. -/
theorem droppedOver_eq_sum (a : Nat) (v : PathVertex) :
    droppedOver db ((t.inOrder.take (a + 1)).map (·.2.key)) (v.key, v.distance) =
      (((if v.type = .router then
        ((db.get? v.id).elim [] Advertisement.records).map (⟨a, v, ·⟩) else []) :
          List Tree.Listing).map (t.dropped db)).sum := by
  cases htype : v.type with
  | network =>
    rw [Vertex.key, htype]
    rfl
  | router =>
    rw [key_of_router htype, droppedOver, if_pos rfl, List.map_map]
    exact congrArg List.sum (List.map_congr_left fun r _ => dropped_eq a v r)

/-- What the settled vertices add up to is a number of records. -/
theorem allDropped_log : allDropped db [] (log t) =
    ((t.listings db).countP fun x => t.Rejected db x,
      (t.listings db).countP fun x => x.record.Unresolved db x.router.id) := by
  rw [← sum_indicators, log_eq_map, allDropped_eq_sum, Tree.listings, List.map_flatMap,
    List.flatMap_def, List.sum_flatten, List.zipIdx_map, List.map_map, List.map_map]
  refine congrArg List.sum (List.map_congr_left fun x _ => ?_)
  obtain ⟨⟨h, v⟩, a⟩ := x
  simp only [Function.comp_apply, List.nil_append, ← List.map_take, List.map_map]
  exact droppedOver_eq_sum a v

end

structure Tree.Accounts (db : Database Advertisement) (t : PathTree) (c : SearchStats) : Prop where
  unresolvedLinks : c.unresolvedLinks =
    (t.listings db).countP fun x => x.record.Unresolved db x.router.id
  rejectedPaths : c.rejectedPaths = (t.listings db).countP fun x => t.Rejected db x

theorem accounts_run (db : Database Advertisement) (root : Address) :
    (shortestPaths db root).Accounts db (run db root).stats := by
  have hpair : (run db root).stats.pair = _ := (counts_run db root).trans allDropped_log
  rw [SearchStats.pair, Prod.mk.injEq] at hpair
  exact ⟨hpair.2, hpair.1⟩

namespace SameRecords

variable {db db' : Database Advertisement} {t : PathTree}

theorem listings_eq (h : SameRecords db db') : t.listings db = t.listings db' := by
  have hrecords (u : Address) : (db.get? u).elim [] Advertisement.records =
      (db'.get? u).elim [] Advertisement.records := by
    have hu := h u
    revert hu
    cases db.get? u <;> cases db'.get? u <;> simp
  simp only [Tree.listings, hrecords]

theorem accounts (h : SameRecords db db') {c : SearchStats} (ha : t.Accounts db c) :
    t.Accounts db' c := by
  have hunresolved (x : Tree.Listing) : x.record.Unresolved db x.router.id ↔
      x.record.Unresolved db' x.router.id := by
    simp only [LinkRecord.Unresolved, h.lists_iff]
  have hrejected (x : Tree.Listing) : t.Rejected db x ↔ t.Rejected db' x := by
    simp only [Tree.Rejected, LinkRecord.UsableTo, h.lists_iff]
  refine ⟨ha.unresolvedLinks.trans ?_, ha.rejectedPaths.trans ?_⟩
  · simp only [h.listings_eq, hunresolved]
  · simp only [h.listings_eq, hrejected]

end SameRecords

namespace Network

/-- A search counts as unresolved each link of a router in its tree that is to a router without an
advertisement or without a link back, and as rejected each record of such a router that makes too
long a path, unless its target is the router or stands before it in the tree order. -/
theorem calculate_dropCounts (n : Network) (s : SearcherId) (root : Address)
    (hs : s < n.searchers.size) :
    Completes (calculate s root) n fun t n' =>
      t.Accounts (n.snapshot (n.searcher s).database) (n'.searcher s).stats := by
  refine (completes_calculate s root).mono fun t n' h => ?_
  obtain ⟨hm, db, hdb, rfl, hc⟩ := h
  rw [hc (hm.size_searchers ▸ hs)]
  exact hdb.symm.accounts (accounts_run db root)

/-- A link of the largest metric to a router with a link back, one to a third router and two stub
networks; the root also has a link to itself and one to a router without an advertisement. -/
def farthest : Network :=
  (exec (searcherOver
    [⟨⟨1, 1, 1, 1⟩, ⟨1, 1, 1, 1⟩, .notExplored,
      [⟨.pointToPoint, ⟨1, 1, 1, 1⟩, ⟨10, 1, 0, 1⟩, defaultInterfaceCost⟩,
       ⟨.pointToPoint, ⟨2, 2, 2, 2⟩, ⟨10, 2, 0, 1⟩, ⟨maxMetric, le_refl _⟩⟩,
       ⟨.pointToPoint, ⟨9, 9, 9, 9⟩, ⟨10, 3, 0, 1⟩, defaultInterfaceCost⟩,
       ⟨.stubNetwork, ⟨10, 5, 0, 0⟩, ⟨255, 255, 255, 0⟩, .zero⟩]⟩,
     ⟨⟨2, 2, 2, 2⟩, ⟨2, 2, 2, 2⟩, .notExplored,
      [⟨.pointToPoint, ⟨1, 1, 1, 1⟩, ⟨10, 2, 0, 2⟩, defaultInterfaceCost⟩,
       ⟨.pointToPoint, ⟨3, 3, 3, 3⟩, ⟨10, 4, 0, 1⟩, defaultInterfaceCost⟩,
       ⟨.stubNetwork, ⟨10, 5, 0, 0⟩, ⟨255, 255, 255, 0⟩, defaultInterfaceCost⟩,
       ⟨.stubNetwork, ⟨10, 6, 0, 0⟩, ⟨255, 255, 255, 0⟩, defaultInterfaceCost⟩]⟩,
     ⟨⟨3, 3, 3, 3⟩, ⟨3, 3, 3, 3⟩, .notExplored,
      [⟨.pointToPoint, ⟨2, 2, 2, 2⟩, ⟨10, 4, 0, 2⟩, defaultInterfaceCost⟩]⟩]) .empty).2

set_option maxRecDepth 10000 in
/-- The paths to the third router and to the second stub network are rejected. Those to the root and
to the first stub network are no shorter, but not looked at. -/
theorem calculate_dropCounts_farthest :
    0 < farthest.searchers.size ∧
      ∃ t, (exec (calculate 0 ⟨1, 1, 1, 1⟩) farthest).1 = .ok t ∧
        t.Accounts (farthest.snapshot (farthest.searcher 0).database)
          ((exec (calculate 0 ⟨1, 1, 1, 1⟩) farthest).2.searcher 0).stats ∧
        ((exec (calculate 0 ⟨1, 1, 1, 1⟩) farthest).2.searcher 0).stats = ⟨2, 1⟩ := by
  have hs : 0 < farthest.searchers.size := by decide +kernel
  obtain ⟨t, ht, hcounts⟩ :=
    (calculate_dropCounts farthest 0 ⟨1, 1, 1, 1⟩ hs).of_quiet (quiet_of_nil (by decide +kernel))
  exact ⟨hs, t, ht, hcounts, by cbv⟩

end Network

end LinkState
