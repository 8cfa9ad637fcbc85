import LinkState.Proofs.Interruption

/-! What a build leaves. Each router of the nodes is accounted for: its advertisement is in the
database, it has nothing to advertise, or its discovery failed and is reported. The order in which
the nodes are given does not matter. -/

namespace LinkState

namespace Database

variable {α β : Type}

theorem mem_ids_iff {d : Database α} {id : Address} : id ∈ d.ids ↔ (d.get? id).isSome :=
  List.mem_mergeSort.trans mem_keys_iff

theorem ids_ascending (d : Database α) : d.ids.Pairwise fun x y => x.toNat < y.toNat := by
  have hnodup : d.ids.Nodup := (List.mergeSort_perm ..).nodup_iff.2 d.nodup
  refine ((Address.pairwise_sort d.keys).and hnodup).imp fun h => ?_
  exact lt_of_le_of_ne h.1 fun heq => h.2 (Address.toNat_inj.1 heq)

def ascending (d : Database Advertisement) : List Advertisement := d.ids.filterMap d.get?

theorem mem_ascending_iff {d : Database Advertisement} {a : Advertisement} :
    a ∈ d.ascending ↔ ∃ id, d.get? id = some a := by
  rw [ascending, List.mem_filterMap]
  refine exists_congr fun id => and_iff_right_of_imp fun h => ?_
  rw [mem_ids_iff, h]
  rfl

theorem pairwise_ascending {d : Database Advertisement}
    (h : ∀ id a, d.get? id = some a → a.id = id) :
    d.ascending.Pairwise fun a b => a.id.toNat < b.id.toNat := by
  rw [ascending, List.pairwise_filterMap]
  refine d.ids_ascending.imp fun hlt a ha b hb => ?_
  rwa [h _ a ha, h _ b hb]

theorem ascending_eq_nil {d : Database Advertisement} : d.ascending = [] ↔ d.size = 0 := by
  rw [size, List.length_eq_zero_iff]
  constructor <;> intro h <;> rw [List.eq_nil_iff_forall_not_mem] at h ⊢
  · exact fun e he => h e.2 (mem_ascending_iff.2 ⟨e.1, get?_of_mem he⟩)
  · intro a ha
    obtain ⟨id, hid⟩ := mem_ascending_iff.1 ha
    exact h (id, a) (Search.mem_entries_of_get? hid)

theorem dump_eq (d : Database Advertisement) : d.dump =
    if d.ascending = [] then "LSDB is empty."
    else String.intercalate "\n" (d.ascending.flatMap Advertisement.lines) := by
  have hlines : (d.ids.flatMap fun id => (d.get? id).elim [] Advertisement.lines) =
      d.ascending.flatMap Advertisement.lines := by
    rw [ascending]
    induction d.ids with
    | nil => rfl
    | cons id ids ih =>
      rw [List.flatMap_cons, List.filterMap_cons, ih]
      cases d.get? id with
      | none => rfl
      | some a => rw [List.flatMap_cons, Option.elim_some]
  simp only [dump, hlines, ascending_eq_nil]

end Database

namespace Network

variable {n n' : Network}

/-! ### Discovery on one router -/

/-- What the router of a node advertises after discovery on it alone. -/
def advertises (n : Network) (k : NodeId) : Option Advertisement :=
  (n.node k).router.bind fun r => match exec (discover r) n with
    | (.ok (), n') => (n'.router r).advertisement
    | (.error _, _) => none

/-- The malformed channel at which discovery on the router of a node alone fails. -/
def failureOf (n : Network) (k : NodeId) : Option DiscoveryFailure :=
  (n.node k).router.bind fun r => match (exec (discover r) n).1 with
    | .error (.malformedChannel m) => some ⟨(n.node k).id, (n.node k).name, (n.router r).id, m⟩
    | _ => none

/-- Discovery that completes leaves what it finds with the router. -/
theorem advertises_of_ok {k : NodeId} (hown : n.OwnRouter k) {r : RouterId}
    (hr : (n.node k).router = some r) (hok : (exec (discover r) n).1 = .ok ()) :
    n.advertises k = n.discovered (n.router r) := by
  obtain ⟨-, hlog⟩ := (ends_discover r).of_ok hok
  rw [advertises, hr, Option.bind_some]
  revert hok hlog
  rcases exec (discover r) n with ⟨res, n₁⟩
  rintro rfl ⟨j, rfl⟩
  show (Network.router (n.setFound r (n.discovered (n.router r))) r).advertisement = _
  rw [router_setFound (hown r hr).1]

theorem advertises_eq (hq : n.Quiet) {k : NodeId} (hown : n.OwnRouter k) :
    n.advertises k = (n.routerOf k).bind n.discovered := by
  rw [routerOf]
  cases hk : (n.node k).router with
  | none => rw [advertises, hk, Option.bind_none, Option.map_none, Option.bind_none]
  | some r =>
    have hres := ((ends_discover (n := n) r).of_quiet hq).1
    rw [Option.map_some, Option.bind_some]
    cases hf : n.found (n.router r) with
    | ok rs =>
      rw [hf] at hres
      exact advertises_of_ok hown hk hres
    | error f =>
      rw [advertises, hk, Option.bind_some, discovered, hf]
      rw [hf] at hres
      revert hres
      rcases exec (discover r) n with ⟨res, n₁⟩
      rintro rfl
      rfl

theorem failureOf_eq (hq : n.Quiet) (k : NodeId) :
    n.failureOf k = (n.routerOf k).bind fun x => match n.found x with
      | .error (.malformedChannel m) => some ⟨(n.node k).id, (n.node k).name, x.id, m⟩
      | _ => none := by
  rw [failureOf, routerOf]
  cases (n.node k).router with
  | none => rfl
  | some r =>
    have hres := ((ends_discover (n := n) r).of_quiet hq).1
    rw [Option.bind_some, Option.map_some, Option.bind_some, hres]
    cases n.found (n.router r) with
    | ok rs => rfl
    | error f => cases f <;> rfl

/-! ### Counting -/

def Silent (n : Network) (k : NodeId) : Prop := ∃ a, n.advertises k = some a ∧ a.records = []

instance (n : Network) (k : NodeId) : Decidable (n.Silent k) :=
  decidable_of_iff (∃ a ∈ n.advertises k, a.records = []) Iff.rfl

theorem advertised_eq_filter (hq : n.Quiet) {k : NodeId} (hown : n.OwnRouter k) :
    n.advertised k = (n.advertises k).filter fun a => !a.records.isEmpty := by
  rw [advertised, advertises_eq hq hown]

/-- Where discovery settles, the router has something to advertise or is a failure. -/
theorem Settles.cases {k : NodeId} (hs : n.Settles k) (hq : n.Quiet)
    (hown : n.OwnRouter k) {x : Router} (hx : n.routerOf k = some x) :
    (∃ rs, n.found x = .ok rs ∧
        n.advertises k = some { Advertisement.ofRouter x.id with records := rs } ∧
        n.failureOf k = none) ∨
      ∃ m, n.found x = .error (.malformedChannel m) ∧ n.advertises k = none ∧
        n.failureOf k = some ⟨(n.node k).id, (n.node k).name, x.id, m⟩ := by
  rw [advertises_eq hq hown, failureOf_eq hq, hx, Option.bind_some, Option.bind_some, discovered]
  rcases hs x hx with ⟨rs, hf⟩ | ⟨m, hf⟩ <;> rw [hf]
  · exact .inl ⟨rs, rfl, rfl, rfl⟩
  · exact .inr ⟨m, rfl, rfl, rfl⟩

theorem Settles.reported {k : NodeId} (hs : n.Settles k) (hq : n.Quiet)
    (hown : n.OwnRouter k) (report : BuildReport) :
    n.reported report k = .ok ⟨report.routers + if (n.routerOf k).isSome then 1 else 0,
      report.advertisements + if (n.advertised k).isSome then 1 else 0,
      report.failures ++ (n.failureOf k).toList⟩ := by
  rw [Network.reported]
  cases hx : n.routerOf k with
  | none => simp [advertised, failureOf_eq hq, hx]
  | some x =>
    rcases hs.cases hq hown hx with ⟨rs, hf, -, hfail⟩ | ⟨m, hf, hadv, hfail⟩
    · simp [hf, hfail, caught, Except.map]
    · simp [hf, hfail, advertised_eq_filter hq hown, hadv, caught, Except.map]

theorem buildReport_eq (hq : n.Quiet) {ks : List NodeId}
    (hks : ∀ k ∈ ks, n.OwnRouter k ∧ n.Settles k) :
    n.buildReport ks = .ok ⟨ks.countP fun k => (n.routerOf k).isSome,
      ks.countP fun k => (n.advertised k).isSome, ks.filterMap n.failureOf⟩ := by
  have key (report : BuildReport) : ks.foldlM n.reported report =
      .ok ⟨report.routers + ks.countP fun k => (n.routerOf k).isSome,
        report.advertisements + ks.countP fun k => (n.advertised k).isSome,
        report.failures ++ ks.filterMap n.failureOf⟩ := by
    induction ks generalizing report with
    | nil => simp [pure, Except.pure]
    | cons k ks ih =>
      rw [List.forall_mem_cons] at hks
      rw [List.foldlM_cons, hks.1.2.reported hq hks.1.1]
      refine (ih hks.2 _).trans ?_
      simp only [List.countP_cons, List.filterMap_cons]
      cases n.failureOf k <;> simp [Nat.add_assoc, Nat.add_comm]
  rw [buildReport, key]
  simp [BuildReport.empty]

/-- Every router is counted in one of three places. -/
theorem countP_router (hq : n.Quiet) {ks : List NodeId}
    (hks : ∀ k ∈ ks, n.OwnRouter k ∧ n.Settles k) :
    (ks.countP fun k => (n.routerOf k).isSome) =
      (ks.countP fun k => (n.advertised k).isSome) + (ks.filterMap n.failureOf).length +
        ks.countP fun k => n.Silent k := by
  rw [List.length_filterMap_eq_countP]
  induction ks with
  | nil => rfl
  | cons k ks ih =>
    rw [List.forall_mem_cons] at hks
    simp only [List.countP_cons, ih hks.2]
    have hk : (if (n.routerOf k).isSome then 1 else 0) =
        (if (n.advertised k).isSome then 1 else 0) + (if (n.failureOf k).isSome then 1 else 0) +
          if n.Silent k then 1 else 0 := by
      rw [advertised_eq_filter hq hks.1.1]
      cases hx : n.routerOf k with
      | none => simp [Silent, advertises_eq hq hks.1.1, failureOf_eq hq, hx]
      | some x =>
        rcases hks.1.2.cases hq hks.1.1 hx with ⟨rs, -, hadv, hfail⟩ | ⟨m, -, hadv, hfail⟩
        · by_cases hrs : rs = [] <;> simp [Silent, hadv, hfail, hrs]
        · simp [Silent, hadv, hfail]
    simp only [decide_eq_true_eq]
    omega

theorem size_linkState {ks : List NodeId} (hnodup : ks.Nodup) (hids : n.DistinctIds ks) :
    (n.linkState ks).size = ks.countP fun k => (n.advertised k).isSome := by
  have hdistinct : ((ks.filterMap n.advertised).map (·.id)).Nodup := by
    rw [List.Nodup, List.pairwise_map, List.pairwise_filterMap]
    refine hnodup.imp_of_mem fun {j k} hj hk hne a ha b hb heq => hne ?_
    obtain ⟨x, hx, hax, -⟩ := advertised_eq_some ha
    obtain ⟨y, hy, hby, -⟩ := advertised_eq_some hb
    exact hids j hj k hk x y hx hy (hax.symm.trans (heq.trans hby))
  have hperm : ((ks.filterMap n.advertised).map (·.id)).Perm (n.linkState ks).keys := by
    refine (List.perm_ext_iff_of_nodup hdistinct (n.linkState ks).nodup).2 fun id => ?_
    rw [show id ∈ (n.linkState ks).entries.map Prod.fst ↔ _ from Database.mem_keys_iff]
    constructor
    · intro h
      obtain ⟨a, ha, hid⟩ := List.mem_map.1 h
      obtain ⟨k, hk, hadv⟩ := List.mem_filterMap.1 ha
      exact isSome_get?_foldl_absorb (.inr ⟨k, hk, a, hadv, hid⟩)
    · intro h
      obtain ⟨a, ha⟩ := Option.isSome_iff_exists.1 h
      obtain ⟨k, hk, hadv, hid⟩ := get?_linkState ha
      exact List.mem_map.2 ⟨a, List.mem_filterMap.2 ⟨k, hk, hadv⟩, hid⟩
  have hsize : (n.linkState ks).size = (n.linkState ks).keys.length := (List.length_map _).symm
  rw [hsize, ← hperm.length_eq, List.length_map, List.length_filterMap_eq_countP]

/-! ### What the routers hold -/

def Fresh (n : Network) (r : RouterId) : Prop :=
  (n.router r).advertisement = n.discovered (n.router r)

theorem SameTopology.discovered (h : SameTopology n n') (r : RouterId) :
    n'.discovered (n'.router r) = n.discovered (n.router r) := by
  rw [Network.discovered, Network.discovered, h.found (h.router r), h.router_id]

theorem Fresh.congr {r : RouterId} (hr : n.Fresh r) (h : SameTopology n n')
    (hrouters : n'.routers = n.routers) : n'.Fresh r := by
  rw [Fresh, h.discovered, router, hrouters]
  exact hr

theorem Fresh.logged {r : RouterId} (hr : n.Fresh r) (j : Journal) :
    Fresh { n with journal := j } r :=
  hr.congr (Logged.sameTopology ⟨j, rfl⟩) rfl

theorem fresh_setFound {r s : RouterId} (hr : r < n.routers.size) (hs : n.Fresh s ∨ s = r) :
    (n.setFound r (n.discovered (n.router r))).Fresh s := by
  rw [Fresh, (SameTopology.setFound ..).discovered]
  by_cases h : s = r
  · rw [h, router_setFound hr]
  · rw [router_setFound_of_ne h]
    exact hs.resolve_right h

theorem completes_install_fresh {d : DatabaseId} {a : Advertisement} {P : RouterId → Prop}
    (h : ∀ s, P s → n.Fresh s) : Completes (install d a) n fun _ n' => ∀ s, P s → n'.Fresh s := by
  refine Completes.bind (completes_modifyGet rfl (completes_modify rfl fun s hs => ?_))
  exact (h s hs).congr ⟨rfl, rfl, rfl, rfl, rfl, rfl, rfl, rfl, rfl, Array.size_modify⟩ rfl

/-- A visit makes the router of the node fresh and keeps fresh ones so. -/
theorem ends_visit_fresh (d : DatabaseId) (report : BuildReport) {k : NodeId}
    (hown : n.OwnRouter k) : Ends (visit d report k) n fun _ n' =>
      ∀ s, n.Fresh s ∨ (n.node k).router = some s → n'.Fresh s := by
  refine Completes.bind (completes_get ?_)
  cases hk : (n.node k).router with
  | none => exact ends_pure fun s hs => hs.resolve_right nofun
  | some r =>
    refine Ends.bind ((ends_tryDiscover r).mono ?_)
    rintro res n₁ - ⟨rfl, j, rfl⟩
    have hfresh (s : RouterId) (hs : n.Fresh s ∨ some r = some s) :
        Fresh { n.setFound r (n.discovered (n.router r)) with journal := j } s :=
      (fresh_setFound (hown r hk).1 (hs.imp_right fun h => (Option.some.inj h).symm)).logged j
    cases caught (n.found (n.router r)) with
    | error f => exact hfresh
    | ok m =>
      refine Completes.bind (completes_get ?_)
      cases m with
      | some m =>
        exact Completes.bind
          (completes_log fun j' => ends_pure fun s hs => (hfresh s hs).logged j')
      | none =>
        dsimp only
        split
        · exact ends_pure hfresh
        · split
          · exact Completes.bind
              (completes_log fun j' => ends_pure fun s hs => (hfresh s hs).logged j')
          · exact Completes.bind
              ((completes_install_fresh hfresh).mono fun _ _ h => ends_pure h)

structure Freshening (n : Network) (ks rest : List NodeId) (m : Network) : Prop where
  topology : SameTopology n m
  fresh : ∀ k ∈ ks, k ∈ rest ∨ ∀ r, (n.node k).router = some r → m.Fresh r

theorem Freshening.logged {ks rest : List NodeId} (h : Freshening n ks rest n') (j : Journal) :
    Freshening n ks rest { n' with journal := j } :=
  ⟨h.topology.trans (Logged.sameTopology ⟨j, rfl⟩),
    fun k hk => (h.fresh k hk).imp_right fun hr r hrouter => (hr r hrouter).logged j⟩

theorem Freshening.visit {ks rest : List NodeId} {k : NodeId} {m m' : Network}
    (h : Freshening n ks (k :: rest) m) (htop : SameTopology m m')
    (hfresh : ∀ s, m.Fresh s ∨ (m.node k).router = some s → m'.Fresh s) :
    Freshening n ks rest m' := by
  refine ⟨h.topology.trans htop, fun j hj => ?_⟩
  rcases h.fresh j hj with hmem | hold
  · rcases List.mem_cons.1 hmem with rfl | hrest
    · exact .inr fun r hr => hfresh r (.inr (h.topology.node j ▸ hr))
    · exact .inl hrest
  · exact .inr fun r hr => hfresh r (.inl (hold r hr))

/-- A build makes the routers of the nodes fresh. -/
theorem ends_build_fresh (d : DatabaseId) (ks : List NodeId) (hown : ∀ k, n.OwnRouter k) :
    Ends (build d ks) n fun res n' => ∀ report, res = .ok report →
      Freshening n (n.byIndex ks) [] n' := by
  have hsize : (n.databases.modify d fun _ => .empty).size = n.databases.size := Array.size_modify
  have start : SameTopology n { n with databases := n.databases.modify d fun _ => .empty } :=
    ⟨rfl, rfl, rfl, rfl, rfl, rfl, rfl, rfl, rfl, hsize⟩
  refine Completes.bind (completes_modify rfl (Completes.bind (completes_get ?_)))
  rw [start.byIndex]
  refine Ends.bind ((ends_foldlM (f := n.reported) (Freshening n (n.byIndex ks))
    (fun k rest report m h => ?_) (n.byIndex ks) BuildReport.empty
    ⟨start, fun k hk => .inl hk⟩).mono ?_)
  · have hk := h.topology.ownRouter (hown k)
    refine ((ends_visit d report hk).and (ends_visit_fresh d report hk)).mono ?_
    rintro res m' - ⟨⟨rfl, hv⟩, hfresh⟩
    exact ⟨by rw [h.topology.reported], h.visit hv.topology hfresh⟩
  · rintro res m - ⟨-, rest, hinv, hrest⟩
    cases res with
    | error f => exact nofun
    | ok report =>
      rw [hrest report rfl] at hinv
      exact Completes.bind (completes_log fun j => ends_pure fun _ _ => hinv.logged j)

/-! ### The whole build -/

/-- What a build of a database from nodes leaves behind, and its report. -/
structure Inventory (n : Network) (d : DatabaseId) (ks : List NodeId) (report : BuildReport)
    (n' : Network) : Prop where
  /-- Under an ID is what the router with that ID advertises, if that has records. -/
  stored : ∀ id a, (n'.snapshot d).get? id = some a ↔ ∃ k ∈ ks, ∃ x,
    n.routerOf k = some x ∧ x.id = id ∧ n.advertises k = some a ∧ a.records ≠ []
  header : ∀ id a, (n'.snapshot d).get? id = some a →
    a.id = id ∧ a.origin = id ∧ a.status = .notExplored
  /-- The router itself has the same advertisement. -/
  own : ∀ k ∈ ks, ∀ x, n'.routerOf k = some x → ∀ a, (n'.snapshot d).get? x.id = some a →
    x.advertisement = some a
  routers : report.routers = ks.countP fun k => (n.node k).router.isSome
  advertisements : report.advertisements = (n'.database d).size
  failures : ∃ order : List NodeId, order.Perm ks ∧
    (order.Pairwise fun j k => (n.node j).index < (n.node k).index) ∧
    report.failures = order.filterMap n.failureOf
  balance : report.routers =
    report.advertisements + report.failures.length + ks.countP fun k => n.Silent k
  dump : ∃ as : List Advertisement, (∀ a, a ∈ as ↔ ∃ id, (n'.snapshot d).get? id = some a) ∧
    (as.Pairwise fun a b => a.id.toNat < b.id.toNat) ∧
    (n'.snapshot d).dump = if as = [] then "LSDB is empty."
      else String.intercalate "\n" (as.flatMap Advertisement.lines)

/-- Nodes of distinct indices have one order. -/
theorem byIndex_perm {ks ks' : List NodeId} (hindex : (ks.map fun k => (n.node k).index).Nodup)
    (hperm : ks'.Perm ks) : n.byIndex ks' = n.byIndex ks := by
  refine List.Perm.eq_of_pairwise ?_ (byIndex_ascending n ks') (byIndex_ascending n ks)
    ((List.mergeSort_perm ..).trans (hperm.trans (List.mergeSort_perm ..).symm))
  intro j k hj hk hjk hkj
  exact List.inj_on_of_nodup_map hindex (hperm.mem_iff.1 (mem_byIndex.1 hj)) (mem_byIndex.1 hk)
    (le_antisymm hjk hkj)

theorem build_perm {d : DatabaseId} {ks ks' : List NodeId}
    (hindex : (ks.map fun k => (n.node k).index).Nodup) (hperm : ks'.Perm ks) :
    exec (build d ks') n = exec (build d ks) n := by
  have hsame : Network.byIndex { n with databases := n.databases.modify d fun _ => .empty } ks' =
      Network.byIndex { n with databases := n.databases.modify d fun _ => .empty } ks :=
    byIndex_perm hindex hperm
  have hclear : exec (clearDatabase d) n =
    (.ok (), { n with databases := n.databases.modify d fun _ => .empty }) := rfl
  rw [build, build, exec_bind, exec_bind, hclear]
  dsimp only
  rw [exec_get_bind, exec_get_bind, hsame]

theorem header_of_advertised {k : NodeId} {a : Advertisement} (h : n.advertised k = some a) :
    a.origin = a.id ∧ a.status = .notExplored := by
  obtain ⟨hb, -⟩ := Option.filter_eq_some_iff.1 h
  obtain ⟨x, -, hd⟩ := Option.bind_eq_some_iff.1 hb
  obtain ⟨rs, -, rfl⟩ := Option.map_eq_some_iff.1 hd
  exact ⟨rfl, rfl⟩

theorem get?_linkState_iff (hq : n.Quiet) (hown : ∀ k, n.OwnRouter k) {ks : List NodeId}
    (hids : n.DistinctIds ks) {id : Address} {a : Advertisement} :
    (n.linkState ks).get? id = some a ↔ ∃ k ∈ ks, ∃ x,
      n.routerOf k = some x ∧ x.id = id ∧ n.advertises k = some a ∧ a.records ≠ [] := by
  constructor
  · intro h
    obtain ⟨k, hk, hadv, rfl⟩ := get?_linkState h
    obtain ⟨x, hx, hid, -, hne⟩ := advertised_eq_some hadv
    rw [advertised_eq_filter hq (hown k)] at hadv
    exact ⟨k, hk, x, hx, hid.symm, (Option.filter_eq_some_iff.1 hadv).1, hne⟩
  · rintro ⟨k, hk, x, hx, rfl, hadv, hne⟩
    rw [hids.get?_linkState hk hx, advertised_eq_filter hq (hown k), hadv]
    simp [hne]

/-- After a build, a router of the nodes that is in the database holds what the database has. -/
theorem Freshening.own {ks : List NodeId} (h : Freshening n ks [] n') (hids : n.DistinctIds ks)
    {k : NodeId} (hk : k ∈ ks) {x : Router} (hx : n'.routerOf k = some x) {a : Advertisement}
    (ha : (n.linkState ks).get? x.id = some a) : x.advertisement = some a := by
  obtain ⟨r, hr, rfl⟩ := Option.map_eq_some_iff.1 hx
  rw [h.topology.node] at hr
  have hy : n.routerOf k = some (n.router r) := by rw [routerOf, hr, Option.map_some]
  rw [h.topology.router_id, hids.get?_linkState hk hy, advertised, hy, Option.bind_some] at ha
  rw [(h.fresh k hk).resolve_left List.not_mem_nil r hr, h.topology.discovered]
  exact (Option.filter_eq_some_iff.1 ha).1

theorem build_inventory {d : DatabaseId} {ks : List NodeId} (hn : n.Reachable)
    (hq : n.Quiet) (hd : d < n.databases.size)
    (hindex : (ks.map fun k => (n.node k).index).Nodup) (hids : n.DistinctIds ks)
    (hmasks : ∀ k ∈ ks, n.WholeMasks k) :
    (∃ report, (exec (build d ks) n).1 = .ok report ∧
        Inventory n d ks report (exec (build d ks) n).2) ∧
      ∀ ks', ks'.Perm ks → exec (build d ks') n = exec (build d ks) n := by
  refine ⟨?_, fun ks' => build_perm hindex⟩
  have hown := hn.wellFormed.routers
  have hperm : (n.byIndex ks).Perm ks := List.mergeSort_perm ..
  have horder (k : NodeId) (hk : k ∈ n.byIndex ks) : n.OwnRouter k ∧ n.Settles k :=
    ⟨hown k, (hmasks k (mem_byIndex.1 hk)).settles (hown k)⟩
  have hids' : n.DistinctIds (n.byIndex ks) := fun j hj k hk =>
    hids j (mem_byIndex.1 hj) k (mem_byIndex.1 hk)
  have hbuild : Ends (build d ks) n _ := ends_build hd hown
  obtain ⟨hres, hbuilt⟩ := hbuild.of_quiet hq
  rw [buildReport_eq hq horder] at hres
  have hsnap := (hbuilt _ hres).rest
  have hfresh := (ends_build_fresh d ks hown).of_quiet hq _ hres
  refine ⟨_, hres, ?_⟩
  generalize (exec (build d ks) n).2 = n' at hsnap hfresh
  replace hsnap : n'.snapshot d = n.linkState (n.byIndex ks) := hsnap
  have hsize : (n'.database d).size = (n'.snapshot d).size := (List.length_map _).symm
  have hkey (id : Address) (a : Advertisement) (ha : (n'.snapshot d).get? id = some a) :
      a.id = id ∧ a.origin = id ∧ a.status = .notExplored := by
    rw [hsnap] at ha
    obtain ⟨k, -, hadv, rfl⟩ := get?_linkState ha
    exact ⟨rfl, header_of_advertised hadv⟩
  constructor
  case stored =>
    intro id a
    rw [hsnap, get?_linkState_iff hq hown hids']
    simp only [mem_byIndex]
  case header => exact hkey
  case own =>
    intro k hk x hx a ha
    exact hfresh.own hids' (mem_byIndex.2 hk) hx (hsnap ▸ ha)
  case routers =>
    rw [hperm.countP_eq]
    simp only [routerOf, Option.isSome_map]
  case advertisements =>
    rw [hsize, hsnap, size_linkState (hperm.nodup_iff.2 (.of_map _ hindex)) hids']
  case failures =>
    refine ⟨n.byIndex ks, hperm, ?_, rfl⟩
    have hne := (List.pairwise_map.1 ((hperm.map _).nodup_iff.2 hindex))
    exact ((byIndex_ascending n ks).and hne).imp fun h => lt_of_le_of_ne h.1 h.2
  case balance => rw [countP_router hq horder, hperm.countP_eq (n.Silent ·)]
  case dump =>
    exact ⟨(n'.snapshot d).ascending, fun a => Database.mem_ascending_iff,
      Database.pairwise_ascending fun id a ha => (hkey id a ha).1, Database.dump_eq _⟩

/-! ### Routers of every kind -/

def mixedSetup : NetworkM DatabaseId := do
  let a ← newRouterNode "A"
  let b ← newRouterNode "B"
  newLink a b "ab" ⟨10, 0, 0, 1⟩ ⟨10, 0, 0, 2⟩ 5
  let c ← newRouterNode "C"
  attach (← newChannel "loose") (← addInterface c "c" (some ⟨10, 0, 1, 1⟩) (some linkMask) .serial)
  discard (newRouterNode "D")
  discard (newNode "E")
  let d ← newDatabase
  install d (.ofRouter ⟨9, 9, 9, 9⟩)
  return d

/-- Two routers with a link, one with a loose end, one without interfaces and a node without a
router, and a database in which something stands. -/
def mixed : Network := (exec mixedSetup .empty).2

theorem reachable_mixed : mixed.Reachable :=
  .run .empty <| .bind (.newRouterNode _) fun _ => .bind (.newRouterNode _) fun _ =>
    .bind (.newLink ..) fun _ => .bind (.newRouterNode _) fun _ => .bind (.newChannel _) fun _ =>
    .bind (.addInterface ..) fun _ => .bind (.attach ..) fun _ =>
    .bind (.bind (.newRouterNode _) fun _ => .pure _) fun _ =>
    .bind (.bind (.newNode _) fun _ => .pure _) fun _ => .bind .newDatabase fun _ =>
    .bind (.install ..) fun _ => .pure _

set_option maxRecDepth 10000 in
theorem build_inventory_mixed :
    mixed.Quiet ∧ 0 < mixed.databases.size ∧
      ([4, 2, 0, 3, 1].map fun k => (mixed.node k).index).Nodup ∧
      mixed.DistinctIds [4, 2, 0, 3, 1] ∧ (∀ k ∈ [4, 2, 0, 3, 1], mixed.WholeMasks k) ∧
      (∃ report, (exec (build 0 [4, 2, 0, 3, 1]) mixed).1 = .ok report ∧
        Inventory mixed 0 [4, 2, 0, 3, 1] report (exec (build 0 [4, 2, 0, 3, 1]) mixed).2) ∧
      exec (build 0 [0, 1, 2, 3, 4]) mixed = exec (build 0 [4, 2, 0, 3, 1]) mixed := by
  have hq : mixed.Quiet := quiet_of_nil (by decide +kernel)
  have hd : 0 < mixed.databases.size := by decide +kernel
  have hindex : ([4, 2, 0, 3, 1].map fun k => (mixed.node k).index).Nodup := by decide +kernel
  have hids : mixed.DistinctIds [4, 2, 0, 3, 1] := by decide +kernel
  have hmasks : ∀ k ∈ [4, 2, 0, 3, 1], mixed.WholeMasks k := by decide +kernel
  obtain ⟨hreport, hperm⟩ := build_inventory reachable_mixed hq hd hindex hids hmasks
  exact ⟨hq, hd, hindex, hids, hmasks, hreport, hperm _ (by decide)⟩

set_option maxRecDepth 10000 in
/-- Of the four routers two are in the database and one failed; the fourth is silent. -/
example : ((exec (build 0 [4, 2, 0, 3, 1]) mixed).1.toOption.map fun report =>
    (report.routers, report.advertisements, report.failures.map (·.nodeName))) =
      some (4, 2, ["C"]) := by
  cbv

end Network

end LinkState
