import LinkState.Proofs.Copies
import LinkState.Proofs.Discovery

/-! Building a database. Afterwards it has, for the nodes in the order in which they were visited,
what discovery finds on each: `linkState`, a function of the topology. -/

namespace LinkState

namespace Database

variable {α β : Type}

theorem map_put (f : α → β) (id : Address) (x : α) (es : List (Address × α)) :
    (put id x es).map (fun e => (e.1, f e.2)) = put id (f x) (es.map fun e => (e.1, f e.2)) := by
  induction es with
  | nil => rfl
  | cons e es ih =>
    rw [put, List.map_cons, put]
    split
    · rfl
    · rw [List.map_cons, ih]

theorem map_insert (f : α → β) (d : Database α) (id : Address) (x : α) :
    (d.insert id x).map f = (d.map f).insert id (f x) := by
  rw [insert, map, insert, mk.injEq]
  exact map_put f id x d.entries

end Database

namespace Network

variable {n n' : Network}

def advertised (n : Network) (k : NodeId) : Option Advertisement :=
  ((n.routerOf k).bind n.discovered).filter fun a => !a.records.isEmpty

/-- A database after the visit of a node. -/
def absorb (n : Network) (db : Database Advertisement) (k : NodeId) : Database Advertisement :=
  (n.advertised k).elim db fun a => db.insert a.id a

def linkState (n : Network) (ks : List NodeId) : Database Advertisement := ks.foldl n.absorb .empty

theorem SameTopology.advertised (h : SameTopology n n') (k : NodeId) :
    n'.advertised k = n.advertised k := by
  have hd (r : RouterId) : n'.discovered (n'.router r) = n.discovered (n.router r) := by
    rw [discovered, discovered, h.found (h.router r), h.router_id]
  simp only [Network.advertised, Network.routerOf, Option.bind_map, h.node, Function.comp_def, hd]

theorem advertised_eq_some {k : NodeId} {a : Advertisement} (h : n.advertised k = some a) :
    ∃ x, n.routerOf k = some x ∧ a.id = x.id ∧ n.found x = .ok a.records ∧ a.records ≠ [] := by
  obtain ⟨hb, hne⟩ := Option.filter_eq_some_iff.1 h
  obtain ⟨x, hx, hd⟩ := Option.bind_eq_some_iff.1 hb
  obtain ⟨rs, hrs, rfl⟩ := Option.map_eq_some_iff.1 hd
  refine ⟨x, hx, rfl, ?_, by simpa using hne⟩
  cases hf : n.found x with
  | ok rs' =>
    rw [hf] at hrs
    obtain rfl := Option.some.inj hrs
    rfl
  | error f =>
    rw [hf] at hrs
    cases hrs

theorem get?_foldl_absorb {ks : List NodeId} {db : Database Advertisement} {id : Address}
    {a : Advertisement} (h : (ks.foldl n.absorb db).get? id = some a) :
    db.get? id = some a ∨ ∃ k ∈ ks, n.advertised k = some a ∧ a.id = id := by
  induction ks generalizing db with
  | nil => exact .inl h
  | cons k ks ih =>
    rcases ih h with hdb | ⟨j, hj, hrest⟩
    · rw [absorb] at hdb
      cases hk : n.advertised k with
      | none => exact .inl (by simpa [hk] using hdb)
      | some b =>
        rw [hk, Option.elim_some, Database.get?_insert] at hdb
        split at hdb
        · next hid =>
          obtain rfl := Option.some.inj hdb
          exact .inr ⟨k, List.mem_cons_self .., hk, hid.symm⟩
        · exact .inl hdb
    · exact .inr ⟨j, List.mem_cons_of_mem _ hj, hrest⟩

/-- What the database has comes from one of the nodes. -/
theorem get?_linkState {ks : List NodeId} {id : Address} {a : Advertisement}
    (h : (n.linkState ks).get? id = some a) : ∃ k ∈ ks, n.advertised k = some a ∧ a.id = id := by
  rcases get?_foldl_absorb h with hempty | hk
  · cases hempty
  · exact hk

theorem isSome_get?_foldl_absorb {ks : List NodeId} {db : Database Advertisement} {id : Address}
    (h : (db.get? id).isSome ∨ ∃ k ∈ ks, ∃ a, n.advertised k = some a ∧ a.id = id) :
    ((ks.foldl n.absorb db).get? id).isSome := by
  induction ks generalizing db with
  | nil =>
    rcases h with h | ⟨k, hk, -⟩
    · exact h
    · cases hk
  | cons k ks ih =>
    refine ih ?_
    rw [absorb]
    rcases h with h | ⟨j, hj, a, ha, hid⟩
    · left
      cases n.advertised k with
      | none => exact h
      | some b =>
        rw [Option.elim_some, Database.get?_insert]
        split
        · rfl
        · exact h
    · rcases List.mem_cons.1 hj with rfl | hj
      · left
        simp [ha, Database.get?_insert, hid]
      · exact .inr ⟨j, hj, a, ha, hid⟩

def DistinctIds (n : Network) (ks : List NodeId) : Prop :=
  ∀ j ∈ ks, ∀ k ∈ ks, ∀ x y, n.routerOf j = some x → n.routerOf k = some y → x.id = y.id → j = k

/-- No router of another of the nodes has the ID of that of `k`. -/
def Alone (n : Network) (ks : List NodeId) (k : NodeId) : Prop :=
  ∀ j ∈ ks, ∀ x y, n.routerOf k = some x → n.routerOf j = some y → x.id = y.id → k = j

theorem DistinctIds.alone {ks : List NodeId} (h : n.DistinctIds ks) {k : NodeId} (hk : k ∈ ks) :
    n.Alone ks k := h k hk

/-- Under the ID of a router that no other has, the database has what the router advertises. -/
theorem Alone.get?_linkState {ks : List NodeId} {k : NodeId} (h : n.Alone ks k)
    (hk : k ∈ ks) {x : Router} (hx : n.routerOf k = some x) :
    (n.linkState ks).get? x.id = n.advertised k := by
  cases hget : (n.linkState ks).get? x.id with
  | some a =>
    obtain ⟨j, hj, ha, hid⟩ := Network.get?_linkState hget
    obtain ⟨y, hy, hay, -⟩ := advertised_eq_some ha
    rw [h j hj x y hx hy (hid.symm.trans hay), ha]
  | none =>
    cases ha : n.advertised k with
    | none => rfl
    | some a =>
      obtain ⟨y, hy, hid, -⟩ := advertised_eq_some ha
      obtain rfl := Option.some.inj (hx.symm.trans hy)
      have hsome : ((n.linkState ks).get? x.id).isSome :=
        isSome_get?_foldl_absorb (.inr ⟨k, hk, a, ha, hid⟩)
      rw [hget] at hsome
      cases hsome

theorem DistinctIds.get?_linkState {ks : List NodeId} (h : n.DistinctIds ks) {k : NodeId}
    (hk : k ∈ ks) {x : Router} (hx : n.routerOf k = some x) :
    (n.linkState ks).get? x.id = n.advertised k := (h.alone hk).get?_linkState hk hx

/-! ### Reports -/

/-- Of the faults of discovery, that of a malformed channel is caught. -/
def caught {α : Type} : Except Fault α → Except Fault (Option MalformedChannel)
  | .ok _ => .ok none
  | .error (.malformedChannel m) => .ok (some m)
  | .error f => .error f

theorem of_caught_eq_ok {α : Type} {e : Except Fault α} {o : Option MalformedChannel}
    (h : caught e = .ok o) : (∃ a, e = .ok a) ∨ ∃ m, e = .error (.malformedChannel m) := by
  cases e with
  | ok a => exact .inl ⟨a, rfl⟩
  | error f =>
    cases f with
    | malformedChannel m => exact .inr ⟨m, rfl⟩
    | _ => cases h

theorem of_caught_eq_error {α : Type} {e : Except Fault α} {f : Fault}
    (h : caught e = .error f) : e = .error f ∧ ∀ m, f ≠ .malformedChannel m := by
  cases e with
  | ok a => cases h
  | error g =>
    cases g with
    | malformedChannel m => cases h
    | _ =>
      obtain rfl := Except.error.inj h
      exact ⟨rfl, nofun⟩

/-- A report after the visit of a node, or the fault that ends the visit. -/
def reported (n : Network) (report : BuildReport) (k : NodeId) : Except Fault BuildReport :=
  match n.routerOf k with
  | none => .ok report
  | some x => (caught (n.found x)).map fun
    | some m => { report with
        routers := report.routers + 1
        failures := report.failures ++ [⟨(n.node k).id, (n.node k).name, x.id, m⟩] }
    | none => { report with
        routers := report.routers + 1
        advertisements := report.advertisements + if (n.advertised k).isSome then 1 else 0 }

def buildReport (n : Network) (ks : List NodeId) : Except Fault BuildReport :=
  ks.foldlM n.reported .empty

theorem isSome_discovered_iff {x : Router} :
    (n.discovered x).isSome ↔ caught (n.found x) = .ok none := by
  rw [discovered]
  cases n.found x with
  | ok rs => simp [caught, Except.toOption]
  | error f => cases f <;> simp [caught, Except.toOption]

theorem SameTopology.reported (h : SameTopology n n') : n'.reported = n.reported := by
  funext report k
  rw [Network.reported, Network.reported, h.advertised, h.node]
  have hk := h.routerOf k
  cases hx : n.routerOf k with
  | none =>
    rw [hx, Option.map_none, Option.map_eq_none_iff] at hk
    rw [hk]
  | some x =>
    obtain ⟨y, hy, hblank⟩ := h.exists_blank hx
    rw [hy]
    dsimp only
    rw [h.found hblank, (Router.blank_eq_iff.1 hblank).2.1]

/-- Discovery on the router of a node, if it has one, finds records or meets a malformed channel. -/
def Settles (n : Network) (k : NodeId) : Prop :=
  ∀ x, n.routerOf k = some x →
    (∃ rs, n.found x = .ok rs) ∨ ∃ m, n.found x = .error (.malformedChannel m)

theorem WholeMasks.settles {k : NodeId} (hw : n.WholeMasks k) (hown : n.OwnRouter k) :
    n.Settles k := by
  intro x hx
  rw [← hown.node_eq hx] at hw
  cases hf : n.found x with
  | ok rs => exact .inl ⟨rs, rfl⟩
  | error f =>
    obtain ⟨m, rfl⟩ := malformed_of_found hw hf
    exact .inr ⟨m, rfl⟩

theorem Settles.exists_reported {k : NodeId} (hs : n.Settles k) (report : BuildReport) :
    ∃ r, n.reported report k = .ok r := by
  rw [reported]
  cases hx : n.routerOf k with
  | none => exact ⟨_, rfl⟩
  | some x =>
    dsimp only
    rcases hs x hx with ⟨rs, hf⟩ | ⟨m, hf⟩ <;> rw [hf] <;> exact ⟨_, rfl⟩

theorem exists_buildReport {ks : List NodeId} (hks : ∀ k ∈ ks, n.WholeMasks k ∧ n.OwnRouter k) :
    ∃ r, n.buildReport ks = .ok r := by
  rw [buildReport]
  generalize BuildReport.empty = report
  induction ks generalizing report with
  | nil => exact ⟨report, rfl⟩
  | cons k ks ih =>
    rw [List.forall_mem_cons] at hks
    obtain ⟨r, hr⟩ := (hks.1.1.settles hks.1.2).exists_reported report
    rw [List.foldlM_cons, hr]
    exact ih hks.2 r

theorem ends_tryDiscover (r : RouterId) : Ends (tryDiscover r) n fun res n' =>
    res = caught (n.found (n.router r)) ∧
      Logged (n.setFound r (n.discovered (n.router r))) n' := by
  refine Ends.tryCatch (Ends.bind ((ends_discover r).mono ?_)) fun _ => rfl
  rintro res n' - ⟨rfl, hn⟩
  cases n.found (n.router r) with
  | ok rs => exact ends_pure ⟨rfl, hn⟩
  | error f =>
    cases f with
    | malformedChannel m => exact ends_pure ⟨rfl, hn⟩
    | _ => exact ends_throw ⟨rfl, hn⟩

theorem router_setFound {r : RouterId} (hr : r < n.routers.size) (a : Option Advertisement) :
    (n.setFound r a).router r = { n.router r with advertisement := a } := by
  simp [router, setFound, Array.getD_eq_getD_getElem?, hr, Array.getElem_modify]

theorem router_setFound_of_ne {r s : RouterId} (hs : s ≠ r) (a : Option Advertisement) :
    (n.setFound r a).router s = n.router s := by
  rw [router, setFound, getD_modify, if_neg fun h => hs h.1, router]

/-! ### Visiting nodes -/

structure Visits (d : DatabaseId) (a : Option Advertisement) (n n' : Network) : Prop where
  topology : SameTopology n n'
  tables : n'.tables = n.tables
  stores : n'.stores = n.stores
  advertisements : n'.advertisements = a.elim n.advertisements n.advertisements.push
  databases : n'.databases = a.elim n.databases fun a =>
    n.databases.modify d (·.insert a.id n.advertisements.size)

theorem Visits.journal {d : DatabaseId} {a : Option Advertisement} (h : Visits d a n n')
    (j : Journal) : Visits d a n { n' with journal := j } :=
  ⟨h.topology.trans (Logged.sameTopology ⟨j, rfl⟩), h.tables, h.stores, h.advertisements,
    h.databases⟩

theorem Visits.found {n₁ : Network} (r : RouterId) (a : Option Advertisement) (d : DatabaseId)
    (h : Logged (n.setFound r a) n₁) : Visits d none n n₁ := by
  obtain ⟨j, rfl⟩ := h
  exact Visits.journal ⟨.setFound n r a, rfl, rfl, rfl, rfl⟩ j

theorem completes_install {n₁ : Network} {d : DatabaseId} (h : Visits d none n n₁)
    (a : Advertisement) : Completes (install d a) n₁ fun _ n' => Visits d (some a) n n' := by
  refine Completes.bind (completes_modifyGet rfl (completes_modify rfl ?_))
  have hadv : n₁.advertisements = n.advertisements := h.advertisements
  have hdb : n₁.databases = n.databases := h.databases
  refine ⟨h.topology.trans ⟨rfl, rfl, rfl, rfl, rfl, rfl, rfl, rfl, rfl, Array.size_modify⟩,
    h.tables, h.stores, ?_, ?_⟩
  · exact congrArg (·.push a) hadv
  · show n₁.databases.modify d (·.insert a.id n₁.advertisements.size) = _
    rw [hadv, hdb]
    rfl

theorem ends_visit (d : DatabaseId) (report : BuildReport) {k : NodeId} (hown : n.OwnRouter k) :
    Ends (visit d report k) n fun res n' =>
      res = n.reported report k ∧ Visits d (n.advertised k) n n' := by
  refine Completes.bind (completes_get ?_)
  rw [reported]
  cases hk : (n.node k).router with
  | none =>
    have hx : n.routerOf k = none := by rw [routerOf, hk, Option.map_none]
    rw [advertised, hx]
    exact ends_pure ⟨rfl, .refl n, rfl, rfl, rfl, rfl⟩
  | some r =>
    have hx : n.routerOf k = some (n.router r) := by rw [routerOf, hk, Option.map_some]
    have hadv : n.advertised k =
        (n.discovered (n.router r)).filter fun a => !a.records.isEmpty := by
      rw [advertised, hx, Option.bind_some]
    rw [hx]
    dsimp only
    refine Ends.bind ((ends_tryDiscover r).mono ?_)
    rintro res n₁ - ⟨rfl, hn₁⟩
    have hv := Visits.found r _ d hn₁
    have hrouter : n₁.router r =
        { n.router r with advertisement := n.discovered (n.router r) } := by
      obtain ⟨j, rfl⟩ := hn₁
      exact router_setFound (hown r hk).1 _
    have hm := isSome_discovered_iff (n := n) (x := n.router r)
    cases hf : caught (n.found (n.router r)) with
    | error f =>
      have hnone : n.discovered (n.router r) = none := by simpa [hf] using hm
      rw [hadv, hnone]
      exact ⟨rfl, hv⟩
    | ok m =>
      refine Completes.bind (completes_get ?_)
      rw [hrouter, hv.topology.node]
      cases m with
      | some m =>
        have hnone : n.discovered (n.router r) = none := by simpa [hf] using hm
        rw [hadv, hnone]
        exact Completes.bind (completes_log fun j => ends_pure ⟨rfl, hv.journal j⟩)
      | none =>
        obtain ⟨a, ha⟩ := Option.isSome_iff_exists.1 (hm.2 hf)
        rw [ha, Option.filter_some] at hadv
        rw [ha]
        dsimp only
        by_cases hempty : a.records.isEmpty
        · rw [if_neg (by simp [hempty])] at hadv
          rw [if_pos hempty, hadv]
          exact Completes.bind (completes_log fun j => ends_pure ⟨rfl, hv.journal j⟩)
        · rw [if_pos (by simp [hempty])] at hadv
          rw [if_neg hempty, hadv]
          exact Completes.bind ((completes_install hv a).mono fun _ _ h => ends_pure ⟨rfl, h⟩)

/-! ### The whole database -/

theorem Visits.snapshot {d : DatabaseId} {a : Option Advertisement} (h : Visits d a n n')
    (hd : d < n.databases.size) (hc : n.OwnCopies d) :
    n'.OwnCopies d ∧
      n'.snapshot d = a.elim (n.snapshot d) fun a => (n.snapshot d).insert a.id a := by
  cases a with
  | none =>
    have hadv : n'.advertisements = n.advertisements := h.advertisements
    have hdb : n'.databases = n.databases := h.databases
    have same : n'.advertisement = n.advertisement := by
      funext i
      rw [advertisement, hadv, advertisement]
    refine ⟨hc.of_eq hdb (hadv ▸ le_rfl), ?_⟩
    rw [Network.snapshot, database, hdb, same]
    rfl
  | some a =>
    have hadv : n'.advertisements = n.advertisements.push a := h.advertisements
    have hdb : n'.database d = (n.database d).insert a.id n.advertisements.size := by
      rw [database, h.databases]
      simp [Array.getD_eq_getD_getElem?, hd, Array.getElem_modify, database]
    have hget (i : AdvertisementId) : n'.advertisement i =
        if i = n.advertisements.size then a else n.advertisement i := by
      rw [advertisement, hadv]
      exact getD_push ..
    refine ⟨hc.insert hdb (by rw [hadv, Array.size_push]), ?_⟩
    rw [Network.snapshot, hdb, Database.map_insert, hget, if_pos rfl, Network.snapshot,
      Database.map_eq_mapWith, Database.map_eq_mapWith, Database.mapWith_congr fun e he => ?_]
    · rfl
    · rw [hget, if_neg (hc.fits e he).ne]

structure Building (n : Network) (d : DatabaseId) (db : Database Advertisement) (ks : List NodeId)
    (m : Network) : Prop where
  topology : SameTopology n m
  tables : m.tables = n.tables
  stores : m.stores = n.stores
  exists_database : d < m.databases.size
  copies : m.OwnCopies d
  rest : ks.foldl n.absorb (m.snapshot d) = db

theorem Building.visits {d : DatabaseId} {db : Database Advertisement} {k : NodeId}
    {ks : List NodeId} {m m' : Network} (h : Building n d db (k :: ks) m)
    (hv : Visits d (m.advertised k) m m') : Building n d db ks m' := by
  obtain ⟨hcopies, hsnap⟩ := hv.snapshot h.exists_database h.copies
  refine ⟨h.topology.trans hv.topology, hv.tables.trans h.tables, hv.stores.trans h.stores, ?_,
    hcopies, ?_⟩
  · rw [hv.topology.databases]
    exact h.exists_database
  · rw [hsnap, h.topology.advertised]
    exact h.rest

theorem Building.logged {d : DatabaseId} {db : Database Advertisement} {ks : List NodeId}
    {m m' : Network} (h : Building n d db ks m) (hl : Logged m m') : Building n d db ks m' := by
  obtain ⟨j, rfl⟩ := hl
  exact ⟨h.topology.trans (Logged.sameTopology ⟨j, rfl⟩), h.tables, h.stores, h.exists_database,
    h.copies.of_eq rfl le_rfl, h.rest⟩

theorem Building.clear {d : DatabaseId} (hd : d < n.databases.size) (ks : List NodeId) :
    Building n d (n.linkState ks) ks
      { n with databases := n.databases.modify d fun _ => .empty } := by
  have hempty : Network.database { n with databases := n.databases.modify d fun _ => .empty } d =
      .empty := by
    simp [Network.database, Array.getD_eq_getD_getElem?, hd, Array.getElem_modify]
  have hsize : (n.databases.modify d fun _ => .empty).size = n.databases.size := Array.size_modify
  refine ⟨⟨rfl, rfl, rfl, rfl, rfl, rfl, rfl, rfl, rfl, hsize⟩, rfl, rfl, hsize ▸ hd,
    ownCopies_of_empty hempty, ?_⟩
  rw [Network.snapshot, hempty]
  rfl

theorem ends_build {d : DatabaseId} {ks : List NodeId} (hd : d < n.databases.size)
    (hown : ∀ k, n.OwnRouter k) :
    Ends (build d ks) n fun res n' => res = n.buildReport (n.byIndex ks) ∧
      ∀ r, res = .ok r → Building n d (n.linkState (n.byIndex ks)) [] n' := by
  refine Completes.bind (completes_modify rfl ?_)
  have start := Building.clear hd (n.byIndex ks)
  refine Completes.bind (completes_get ?_)
  rw [start.topology.byIndex]
  refine Ends.bind ((ends_foldlM (f := n.reported) (Building n d (n.linkState (n.byIndex ks)))
    (fun k l report m h => ?_) (n.byIndex ks) BuildReport.empty start).mono ?_)
  · refine (ends_visit d report (h.topology.ownRouter (hown k))).mono ?_
    rintro res m' - ⟨rfl, hv⟩
    exact ⟨by rw [h.topology.reported], h.visits hv⟩
  · rintro res m - ⟨rfl, rest, hb, hrest⟩
    rw [buildReport]
    revert hrest
    cases (n.byIndex ks).foldlM n.reported .empty with
    | error f => exact fun _ => ⟨rfl, nofun⟩
    | ok r =>
      intro hrest
      rw [hrest r rfl] at hb
      exact Completes.bind (completes_log fun j => ends_pure ⟨rfl, fun _ _ => hb.logged ⟨j, rfl⟩⟩)

end Network

end LinkState
