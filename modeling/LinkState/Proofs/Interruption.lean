import LinkState.Proofs.Population

/-! Routes are put into a table at once. Where an error ends the installation of routes, whatever
event a subscriber stopped it at, the routers up to some point have all their new routes and those
behind it have the routes they had; no other entry is touched, and the stores are not told. -/

namespace LinkState

namespace Network

variable {n n' : Network} {m : ManagerId}

theorem byIndex_ascending (n : Network) (ks : List NodeId) :
    (n.byIndex ks).Pairwise fun j k => (n.node j).index ≤ (n.node k).index :=
  pairwise_mergeSort_key (fun k => (n.node k).index) ks

/-- The router of a node, if it has one, has the routes over the database of a manager, and these
are all its computed routes. -/
def FreshRoutes (n : Network) (m : ManagerId) (k : NodeId) (n' : Network) : Prop :=
  ∀ x, n.routerOf k = some x →
    ∃ rs, (shortestPaths (n.unexplored (n.manager m).database) x.id).routes n.environment.names
      (n.interfacesOf k) = .ok rs ∧ n'.globals k = entries rs

theorem Marks.freshRoutes (hn : n.WellFormed) {ks : List NodeId}
    (h : Marks (n.refillAll (n.unexplored (n.manager m).database) ks n) n') {k : NodeId}
    (hk : k ∈ ks) : FreshRoutes n m k n' := by
  intro x hx
  have htop := (SameTopology.refillAll n (n.unexplored (n.manager m).database) ks n).trans
    h.sameTopology
  refine ⟨_, routes_eq_ok .., ?_⟩
  rw [globals, htop.node, h.table, table_refillAll hn rfl hk hx, globals_renewed]

/-- The nodes of a manager in ascending order of index, of which those in `done` have the routes
over its database and those in `rest` the routes they had. -/
structure RefilledUpTo (n : Network) (m : ManagerId) (done rest : List NodeId) (n' : Network) :
    Prop where
  nodes : (done ++ rest).Perm (n.nodesOf m)
  ascending : (done ++ rest).Pairwise fun j k => (n.node j).index ≤ (n.node k).index
  new : ∀ k ∈ done, FreshRoutes n m k n'
  old : ∀ k < n.nodes.size, k ∉ done → n'.table (n.node k).table = n.table (n.node k).table
  plain : ∀ k < n.nodes.size, n.routerOf k = none →
    n'.table (n.node k).table = n.table (n.node k).table
  others : ∀ t, (n'.table t).routes.without .global = (n.table t).routes.without .global
  stores : n'.stores = n.stores

theorem Marks.refilledUpTo (hn : n.WellFormed) {done rest : List NodeId}
    (hks : n.byIndex (n.nodesOf m) = done ++ rest)
    (h : Marks (n.refillAll (n.unexplored (n.manager m).database) done n) n') :
    RefilledUpTo n m done rest n' := by
  refine ⟨?_, ?_, fun k hk => h.freshRoutes hn hk, fun k hk hno => ?_, fun k hk hnone => ?_,
    fun t => ?_, ?_⟩
  · rw [← hks]
    exact List.mergeSort_perm ..
  · rw [← hks]
    exact byIndex_ascending n _
  · rw [h.table, table_refillAll_of_not hn hk fun hmem => absurd hmem hno]
  · rw [h.table, table_refillAll_of_not hn hk fun _ => hnone]
  · rw [h.table, without_refillAll]
  · rw [h.stores, stores_refillAll]

/-- All routers have their new routes, or a subscriber stopped the installation when those up to
some point had them. -/
theorem initializeRoutes_atomic (hn : n.Reachable) (hm : m < n.managers.size) :
    Completes (initializeRoutes m) n (fun _ n' => ∀ k ∈ n.nodesOf m, FreshRoutes n m k n') ∧
      ∀ f, (exec (initializeRoutes m) n).1 = .error f →
        n.Stops f ∧ ∃ done rest, RefilledUpTo n m done rest (exec (initializeRoutes m) n).2 := by
  have start : Refills n (n.manager m).database (n.unexplored (n.manager m).database) n :=
    ⟨.refl n, hn.furnished.copies _, rfl⟩
  obtain ⟨hdone, hhalt⟩ := completesOr_initializeRoutes hn.wellFormed hm start
  refine ⟨hdone.mono ?_, fun f hf => ⟨hdone.stops hf, ?_⟩⟩
  · rintro _ n' ⟨n₂, tally, h, -, rfl⟩ k hk
    exact h.freshRoutes hn.wellFormed (mem_byIndex.2 hk)
  · obtain ⟨done, rest, hks, h⟩ := hhalt f hf
    exact ⟨done, rest, h.refilledUpTo hn.wellFormed hks⟩

/-- Subscribers that bear with one event and stop the publisher of the next. -/
def patientOnce : Environment :=
  { Environment.standard with
    subscribers := fun _ deliveries => ⟨[], if deliveries.size = 2 then some "enough" else none⟩ }

/-- The two routers, with a subscriber that sees the search of the first and stops that of the
second. -/
def stoppedPair : Network := (exec (do
  let m ← pairSetup
  discard (buildDatabase m)
  withJournal (·.subscribe ⟨some searchSource, none, none⟩ none none)) (.blank patientOnce)).2

theorem reachable_stoppedPair : stoppedPair.Reachable :=
  .run (.blank patientOnce) <| .bind .pairSetup fun _ =>
    .bind (.bind (.buildDatabase _) fun _ => .pure _) fun _ => .withJournal _

set_option maxRecDepth 10000 in
theorem initializeRoutes_atomic_stoppedPair :
    0 < stoppedPair.managers.size ∧
      (exec (initializeRoutes 0) stoppedPair).1 = .error (.stopped "enough") ∧
      ∃ done rest, RefilledUpTo stoppedPair 0 done rest
        (exec (initializeRoutes 0) stoppedPair).2 := by
  have hm : 0 < stoppedPair.managers.size := by cbv
  have hf : (exec (initializeRoutes 0) stoppedPair).1 = .error (.stopped "enough") := by cbv
  obtain ⟨-, hstopped⟩ := initializeRoutes_atomic reachable_stoppedPair hm
  exact ⟨hm, hf, (hstopped _ hf).2⟩

set_option maxRecDepth 10000 in
/-- The second router has its old routes, which are none. -/
example : (stoppedPair.nodesOf 0).map
    (fun k => ((exec (initializeRoutes 0) stoppedPair).2.globals k).length) = [1, 0] := by
  cbv

end Network

end LinkState
