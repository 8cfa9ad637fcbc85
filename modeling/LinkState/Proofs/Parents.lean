import LinkState.Proofs.Search.Agreement
import LinkState.Proofs.TreeShape

/-! The parents of a vertex, in their order. They are the routers that come before it in the tree
and have a record to it along a shortest path: none that was good for a longer path only is left,
and none is in it twice, however many of its records lead there. -/

namespace LinkState

/-- `u` is a router, and one of its records leads to `v` along a path of the length of `v`. -/
def Vertex.TightTo (db : Database Advertisement) (u v : PathVertex) : Prop :=
  u.type = .router ∧ ∃ w, Leads db u.id v.key w ∧ u.distance + w = v.distance

namespace Vertex

variable {db db' : Database Advertisement} {u v : PathVertex}

/-- The records of the router tell. -/
theorem tightTo_iff : u.TightTo db v ↔ u.type = .router ∧
    ∃ r ∈ (db.get? u.id).elim [] Advertisement.records,
      (Search.target? db u.id r).map Search.Target.key = some v.key ∧
        u.distance + r.metric.value = v.distance := by
  refine and_congr_right fun _ => ?_
  constructor
  · intro h
    obtain ⟨w, hl, hd⟩ := h
    obtain ⟨a, r, t, own, mem, ht, hk, rfl⟩ := Search.target?_of_leads hl
    exact ⟨r, by simpa [own] using mem, by simp [ht, hk], hd⟩
  · intro h
    obtain ⟨r, mem, hk, hd⟩ := h
    obtain ⟨t, ht, hk⟩ := Option.map_eq_some_iff.1 hk
    cases own : db.get? u.id with
    | none => simp [own] at mem
    | some a =>
      rw [own, Option.elim_some] at mem
      exact ⟨r.metric.value, hk ▸ Search.leads_of_target? own mem ht, hd⟩

instance : Decidable (u.TightTo db v) := decidable_of_iff _ tightTo_iff.symm

theorem tightTo_congr (h : SameRecords db db') : u.TightTo db v ↔ u.TightTo db' v := by
  simp only [TightTo, h.leads_iff]

end Vertex

namespace Search

variable {db : Database Advertisement} {root : Address} {s : Search} {a b h p : Nat}
  {u v : PathVertex}

theorem Finished.mem_parents_iff_of_at (hf : Finished db root s)
    (hch : Chronicle db s.tree fun _ => True) (hu : s.tree.At a p u) (hv : s.tree.At b h v) :
    p ∈ v.parents ↔ a < b ∧ u.TightTo db v := by
  have hiff := hf.mem_parents_iff_of_stands hch (hf.stands_of_at hu) (hf.stands_of_at hv)
  exact hiff

/-- Of the tree order, the part before a vertex holds its parents, and no other part does. -/
theorem Finished.parents_eq (hf : Finished db root s)
    (hch : Chronicle db s.tree fun _ => True) (hv : s.tree.At b h v) :
    v.parents = ((s.tree.inOrder.take b).filter fun e => e.2.TightTo db v).map Prod.fst := by
  have hsub : v.parents.Sublist (s.tree.inOrder.map Prod.fst) := by
    rw [Tree.map_fst_inOrder hf.order_lt, ← hf.parentsAt hv]
    exact hch.lineage.parents h
  have hnodup : (s.tree.inOrder.map Prod.fst).Nodup := by
    rw [Tree.map_fst_inOrder hf.order_lt]
    exact hf.sound.frontier.nodup
  have before : (s.tree.inOrder.take b).filter (fun e => e.1 ∈ v.parents) =
      (s.tree.inOrder.take b).filter fun e => e.2.TightTo db v := by
    refine List.filter_congr fun e he => ?_
    obtain ⟨a, ha⟩ := List.mem_iff_getElem?.1 he
    rw [List.getElem?_take] at ha
    split at ha
    · next hab =>
      have hu : s.tree.At a e.1 e.2 := ha
      simp [hf.mem_parents_iff_of_at hch hu hv, hab]
    · cases ha
  have after : (s.tree.inOrder.drop b).filter (fun e => e.1 ∈ v.parents) = [] := by
    rw [List.filter_eq_nil_iff]
    intro e he hp
    obtain ⟨a, ha⟩ := List.mem_iff_getElem?.1 he
    rw [List.getElem?_drop] at ha
    have hu : s.tree.At (b + a) e.1 e.2 := ha
    have := ((hf.mem_parents_iff_of_at hch hu hv).1 (of_decide_eq_true hp)).1
    omega
  calc v.parents
      = (s.tree.inOrder.map Prod.fst).filter (· ∈ v.parents) := (filter_mem_eq hsub hnodup).symm
    _ = (s.tree.inOrder.filter fun e => e.1 ∈ v.parents).map Prod.fst := by
        rw [List.filter_map]
        rfl
    _ = _ := by
        rw [← List.take_append_drop b s.tree.inOrder, List.filter_append, after, List.append_nil,
          List.take_append_drop, before]

end Search

open Search

/-- What the parents of the vertices of a tree are, in their order. -/
theorem parentList_shortestPaths (db : Database Advertisement) (root : Address) {b h : Nat}
    {v : PathVertex} (hv : (shortestPaths db root).At b h v) :
    v.parents.Nodup ∧ v.parents = (((shortestPaths db root).inOrder.take b).filter
      fun e => e.2.TightTo db v).map Prod.fst := by
  by_cases hroot : (db.get? root).isSome
  · have hf := run_finished hroot
    have hch := run_chronicle hroot
    exact ⟨(hf.wellFormed hch).parents_nodup b h v hv, hf.parents_eq hch hv⟩
  · rw [shortestPaths, run_noRoot (Option.not_isSome_iff_eq_none.1 hroot)] at hv
    cases hv

/-- The parents of a vertex are, each once and in tree order, the routers before it that have a
record to it along a shortest path. -/
theorem Network.calculate_parentList (n : Network) (s : SearcherId) (root : Address) :
    Completes (calculate s root) n fun t _ => ∀ b h v, t.At b h v →
      v.parents.Nodup ∧ v.parents = ((t.inOrder.take b).filter fun e =>
        e.2.TightTo (n.snapshot (n.searcher s).database) v).map Prod.fst := by
  refine (completes_calculate s root).mono fun t n' ht b h v hv => ?_
  obtain ⟨-, db, hdb, rfl, -⟩ := ht
  simp only [Vertex.tightTo_congr hdb]
  exact parentList_shortestPaths db root hv

end LinkState
