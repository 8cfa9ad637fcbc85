import LinkState.Proofs.Calculation
import LinkState.Proofs.Reachable

/-! A search leaves no mark that a later one could meet. Whatever marks a database had before, the
routers of the tree are marked as in the tree afterwards and the others are not marked; and what the
search returns and counts is what it would be without any marks. -/

namespace LinkState

namespace Network

variable {n n' : Network} {s : SearcherId} {root : Address} {t : PathTree}

theorem get?_explored {db : Database Advertisement} {id : Address} {a : Advertisement}
    (ha : (explored db root).get? id = some a) : a.status = (Search.run db root).mark id := by
  rw [explored, Database.get?_mapWith] at ha
  obtain ⟨b, -, rfl⟩ := Option.map_eq_some_iff.1 ha
  rfl

structure FreshMarks (s : SearcherId) (root : Address) (n : Network) (t : PathTree)
    (n' : Network) : Prop where
  inTree : ∀ id a, (n'.snapshot (n.searcher s).database).get? id = some a →
    (a.status = .inTree ↔ ∃ d, t.Holds (.router id) d)
  notExplored : ∀ id a, (n'.snapshot (n.searcher s).database).get? id = some a →
    (a.status = .notExplored ↔ ¬ ∃ d, t.Holds (.router id) d)
  noRoot : (n.snapshot (n.searcher s).database).get? root = none →
    ∀ id a, (n'.snapshot (n.searcher s).database).get? id = some a → a.status = .notExplored
  databases : ∀ d, n'.database d = n.database d
  contents : ∀ a, unmarked (n'.advertisement a) = unmarked (n.advertisement a)

theorem Calculated.freshMarks (h : Calculated s root n t n')
    (hc : n.OwnCopies (n.searcher s).database) : FreshMarks s root n t n' := by
  have hstatus {id : Address} {a : Advertisement}
      (ha : (n'.snapshot (n.searcher s).database).get? id = some a) :
      a.status = (Search.run (n.unexplored (n.searcher s).database) root).mark id :=
    get?_explored (h.snapshot hc ▸ ha)
  have hout {id : Address} {a : Advertisement}
      (ha : (n'.snapshot (n.searcher s).database).get? id = some a)
      (hno : ¬ ∃ d, t.Holds (.router id) d) : a.status = .notExplored := by
    rw [hstatus ha]
    exact Search.mark_run_of_not_holds (h.tree ▸ hno)
  have hin {id : Address} {a : Advertisement}
      (ha : (n'.snapshot (n.searcher s).database).get? id = some a) :
      a.status = .inTree ↔ ∃ d, t.Holds (.router id) d := by
    rw [hstatus ha, Search.mark_run_eq_inTree_iff, h.tree]
  refine ⟨fun id a => hin, fun id a ha => ⟨fun hn hd => ?_, hout ha⟩, fun hroot id a ha => ?_,
    h.marks.database, h.marks.advertisement⟩
  · rw [(hin ha).2 hd] at hn
    cases hn
  · -- without a root the tree is empty
    have hnone : (n.unexplored (n.searcher s).database).get? root = none := by
      rw [unexplored, Database.get?_map, hroot, Option.map_none]
    refine hout ha fun hd => ?_
    obtain ⟨d, e, he, -⟩ := hd
    rw [h.tree, shortestPaths, Search.run_noRoot hnone] at he
    cases he

theorem Calculated.stats_eq (h : Calculated s root n t n') (hs : s < n.searchers.size) :
    (n'.searcher s).stats =
      (Search.run (n.unexplored (n.searcher s).database) root).stats :=
  h.counts (h.marks.size_searchers ▸ hs)

/-- The marks that a search leaves are fresh, and another search from the same root, over a database
that has the same keys and differs in marks alone, returns the same tree and the same counts. -/
theorem calculate_freshMarks (hn : n.Reachable) (hs : s < n.searchers.size) (root : Address) :
    Completes (calculate s root) n fun t n' => FreshMarks s root n t n' ∧
      ∀ n₂ s₂, s₂ < n₂.searchers.size →
        n₂.unexplored (n₂.searcher s₂).database = n.unexplored (n.searcher s).database →
        Completes (calculate s₂ root) n₂ fun t₂ n₂' =>
          t₂ = t ∧ (n₂'.searcher s₂).stats = (n'.searcher s).stats := by
  refine (completes_calculate_exact s root).mono fun t n' h => ⟨?_, fun n₂ s₂ hs₂ hdb => ?_⟩
  · exact h.freshMarks (hn.furnished.copies _)
  · refine (completes_calculate_exact s₂ root).mono fun t₂ n₂' h₂ => ⟨?_, ?_⟩
    · rw [h₂.tree, hdb, h.tree]
    · rw [h₂.stats_eq hs₂, hdb, h.stats_eq hs]

/-- Two linked routers and one apart, with the marks of a search that was cut short. -/
def markedBeforeSetup : NetworkM SearcherId := do
  let d ← newDatabase
  install d ⟨⟨1, 1, 1, 1⟩, ⟨1, 1, 1, 1⟩, .inTree,
    [⟨.pointToPoint, ⟨2, 2, 2, 2⟩, ⟨10, 1, 0, 1⟩, defaultInterfaceCost⟩]⟩
  install d ⟨⟨2, 2, 2, 2⟩, ⟨2, 2, 2, 2⟩, .candidate,
    [⟨.pointToPoint, ⟨1, 1, 1, 1⟩, ⟨10, 1, 0, 2⟩, defaultInterfaceCost⟩]⟩
  install d ⟨⟨3, 3, 3, 3⟩, ⟨3, 3, 3, 3⟩, .candidate, []⟩
  newSearcher d

def markedBefore : Network := (exec markedBeforeSetup .empty).2

theorem reachable_markedBefore : markedBefore.Reachable :=
  .run .empty <| .bind .newDatabase fun _ => .bind (.install ..) fun _ =>
    .bind (.install ..) fun _ => .bind (.install ..) fun _ => .newSearcher _

theorem calculate_freshMarks_markedBefore :
    0 < markedBefore.searchers.size ∧
      ∃ t, (exec (calculate 0 ⟨1, 1, 1, 1⟩) markedBefore).1 = .ok t ∧
        FreshMarks 0 ⟨1, 1, 1, 1⟩ markedBefore t
          (exec (calculate 0 ⟨1, 1, 1, 1⟩) markedBefore).2 := by
  have hs : 0 < markedBefore.searchers.size := by decide +kernel
  obtain ⟨t, ht, hfresh, -⟩ :=
    (calculate_freshMarks reachable_markedBefore hs ⟨1, 1, 1, 1⟩).of_quiet
      (quiet_of_nil (by decide +kernel))
  exact ⟨hs, t, ht, hfresh⟩

set_option maxRecDepth 10000 in
example : ((exec (calculate 0 ⟨1, 1, 1, 1⟩) markedBefore).2.snapshot 0).entries.map
    (fun e => (e.1, e.2.status)) =
      [(⟨1, 1, 1, 1⟩, .inTree), (⟨2, 2, 2, 2⟩, .inTree), (⟨3, 3, 3, 3⟩, .notExplored)] := by
  cbv

end Network

end LinkState
