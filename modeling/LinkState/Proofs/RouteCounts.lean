import LinkState.Proofs.HopChoice
import LinkState.Proofs.Interruption

/-! What a store is told of the routes. The count under a name is that of the last router that goes
by it: routers with names of their own are all accounted for, and the counts add up to the total
that is returned. Of routers that share a name only one is, while the total counts them all. -/

namespace LinkState

namespace Tally

variable {t : Tally} {name other : String} {c : Number} {α : Type}

theorem record_reserved (t : Tally) (c : Number) : t.record reserved c = t := if_pos rfl

/-- A name that is new comes last. -/
theorem record_of_absent (h : name ≠ reserved) (hname : ∀ e ∈ t, e.1 ≠ name) :
    t.record name c = t ++ [(name, c)] := by
  rw [record, if_neg h, if_neg]
  intro hany
  obtain ⟨e, he, hen⟩ := List.any_eq_true.1 hany
  exact hname e he (of_decide_eq_true hen)

/-- A name that is there keeps its place. -/
theorem record_of_present (h : name ≠ reserved) (hname : ∃ e ∈ t, e.1 = name) :
    t.record name c = t.map fun e => if e.1 = name then (name, c) else e := by
  rw [record, if_neg h, if_pos]
  obtain ⟨e, he, hen⟩ := hname
  exact List.any_eq_true.2 ⟨e, he, decide_eq_true hen⟩

theorem lookup_cons (e : String × Number) (t : Tally) (name : String) :
    List.lookup name (e :: t) = if name = e.1 then some e.2 else List.lookup name t := by
  by_cases h : name = e.1
  · rw [if_pos h, h]
    exact List.lookup_cons_self
  · rw [if_neg h, List.lookup_cons, beq_false_of_ne h]

/-- Replacing a count changes what is found under its name alone. -/
theorem lookup_replace (t : Tally) (name other : String) (c : Number) :
    List.lookup other (t.map fun e => if e.1 = name then (name, c) else e) =
      (t.lookup other).map fun d => if other = name then c else d := by
  induction t with
  | nil => rfl
  | cons e t ih =>
    have hfst : (if e.1 = name then (name, c) else e).1 = e.1 := by
      split
      · next he => exact he.symm
      · rfl
    rw [List.map_cons, lookup_cons, lookup_cons, hfst, ih]
    by_cases hother : other = e.1
    · rw [if_pos hother, if_pos hother, hother, Option.map_some]
      split <;> rfl
    · rw [if_neg hother, if_neg hother]

/-- What is found under a name is what was recorded there last. -/
theorem lookup_record (h : name ≠ reserved) (t : Tally) (other : String) (c : Number) :
    (t.record name c).lookup other = if other = name then some c else t.lookup other := by
  by_cases hname : ∃ e ∈ t, e.1 = name
  · rw [record_of_present h hname, lookup_replace]
    by_cases hother : other = name
    · have hsome : (t.lookup name).isSome := by
        obtain ⟨e, he, hen⟩ := hname
        exact List.lookup_isSome_iff.2 ⟨e, he, beq_iff_eq.2 hen.symm⟩
      obtain ⟨old, hold⟩ := Option.isSome_iff_exists.1 hsome
      rw [hother, hold, Option.map_some, if_pos rfl, if_pos rfl]
    · simp only [if_neg hother, Option.map_id_fun', id]
  · have habsent : ∀ e ∈ t, e.1 ≠ name := fun e he hen => hname ⟨e, he, hen⟩
    rw [record_of_absent h habsent, List.lookup_append, lookup_cons]
    by_cases hother : other = name
    · have hnone : t.lookup other = none :=
        List.lookup_eq_none_iff.2 fun e he =>
          bne_iff_ne.2 fun h => habsent e he (h.symm.trans hother)
      rw [if_pos hother, if_pos hother, hnone, Option.none_or]
    · rw [if_neg hother, if_neg hother]
      exact Option.or_none

/-- What the counts add up to, where all of them are natural numbers. -/
def sum? (t : Tally) : Option Nat := (t.mapM fun e : String × Number => e.2.toNat?).map List.sum

theorem sum?_map (name : α → String) (count : α → Nat) (ks : List α) :
    sum? (ks.map fun k => (name k, .finite (count k))) = some (ks.map count).sum := by
  have hmapM : (ks.map fun k => (name k, Number.finite (count k))).mapM
      (fun e : String × Number => e.2.toNat?) = some (ks.map count) := by
    induction ks with
    | nil => rfl
    | cons k ks ih =>
      rw [List.map_cons, List.mapM_cons, ih]
      simp [Number.toNat?]
  rw [sum?, hmapM, Option.map_some]

end Tally

namespace Network

variable {n n' : Network} {m : ManagerId} {db : Database Advertisement} {ks : List NodeId}
  {k : NodeId}

/-! ### The number of routes -/

/-- There are not more routes than there are addresses and prefix lengths. -/
theorem length_le_of_ascending {rs : List (Route Nat)} (hasc : Tree.Ascending rs)
    (hwhole : ∀ r ∈ rs, r.mask.Whole) : rs.length ≤ 0x100000000 * 33 := by
  have hlength {r : Route Nat} (hr : r ∈ rs) : r.mask.length < 33 := by
    obtain ⟨k, hk⟩ := (hwhole r hr).exists_ofLength
    rw [hk, Mask.length_ofLength]
    exact k.isLt
  -- the destinations are numbered in their order, so that no number comes twice
  have hnodup : (rs.map fun r => r.network.toNat * 33 + r.mask.length).Nodup := by
    rw [List.Nodup, List.pairwise_map]
    refine List.Pairwise.imp_of_mem (fun {r t} hr ht hrt => ?_) hasc
    have := hlength hr
    have := hlength ht
    rcases hrt with hrt | ⟨hrt, hlt⟩
    · omega
    · rw [hrt]
      omega
  have hsub : (rs.map fun r => r.network.toNat * 33 + r.mask.length) ⊆
      List.range (0x100000000 * 33) := by
    intro i hi
    obtain ⟨r, hr, rfl⟩ := List.mem_map.1 hi
    have := hlength hr
    have := r.network.toNat_lt
    rw [List.mem_range]
    omega
  have := (hnodup.subperm hsub).length_le
  rwa [List.length_map, List.length_range] at this

def countOver (n : Network) (db : Database Advertisement) (k : NodeId) : Nat :=
  (n.routerOf k).elim 0 fun x =>
    (routesOver n.environment.names db x.id (n.interfacesOf k)).length

theorem length_routesOver_le (names : NameOrder) (db : Database Advertisement) (root : Address)
    (interfaces : List Interface) :
    (routesOver names db root interfaces).length ≤ 0x100000000 * 33 := by
  obtain ⟨rs, hrs, hasc, hmem⟩ := choosesHops_shortestPaths db root names interfaces
  obtain rfl := Except.ok.inj ((routes_eq_ok ..).symm.trans hrs)
  refine length_le_of_ascending hasc fun r hr => ?_
  obtain ⟨a, h, v, -, ht⟩ := (hmem r).1 hr
  exact ht.whole

/-- Counts of routes are small enough to be exact. -/
theorem ofNat_length_routesOver (names : NameOrder) (db : Database Advertisement) (root : Address)
    (interfaces : List Interface) :
    Number.ofNat (routesOver names db root interfaces).length =
      .finite (routesOver names db root interfaces).length := by
  refine Number.ofNat_eq ((length_routesOver_le names db root interfaces).trans ?_)
  norm_num

/-! ### The counts of the nodes -/

def withRouter (n : Network) (ks : List NodeId) : List NodeId :=
  ks.filter fun k => (n.routerOf k).isSome

theorem withRouter_append_singleton (n : Network) (ks : List NodeId) (k : NodeId) :
    n.withRouter (ks ++ [k]) = n.withRouter ks ++ n.withRouter [k] := List.filter_append ..

theorem withRouter_singleton_of_none (hk : n.routerOf k = none) : n.withRouter [k] = [] := by
  rw [withRouter, List.filter_singleton, hk]
  rfl

theorem withRouter_singleton_of_some {x : Router} (hk : n.routerOf k = some x) :
    n.withRouter [k] = [k] := by
  rw [withRouter, List.filter_singleton, hk]
  rfl

theorem tallied_of_none (counts : Installed) (hk : n.routerOf k = none) :
    n.tallied db counts k = counts := by
  rw [tallied, hk, Option.elim_none]

theorem tallied_of_some {x : Router} (counts : Installed) (hk : n.routerOf k = some x) :
    n.tallied db counts k =
      ⟨counts.tally.record (n.node k).name (.finite (n.countOver db k)),
        counts.total + n.countOver db k⟩ := by
  have hcount : n.countOver db k =
      (routesOver n.environment.names db x.id (n.interfacesOf k)).length := by
    rw [countOver, hk, Option.elim_some]
  rw [tallied, hk, Option.elim_some, hcount]
  dsimp only
  rw [ofNat_length_routesOver]

theorem total_talliedAll (n : Network) (db : Database Advertisement) (ks : List NodeId) :
    (n.talliedAll db ks ⟨[], 0⟩).total = ((n.withRouter ks).map (n.countOver db)).sum := by
  induction ks using List.reverseRecOn with
  | nil => rfl
  | append_singleton ks k ih =>
    rw [talliedAll_append_singleton, withRouter_append_singleton]
    cases hk : n.routerOf k with
    | none => rw [tallied_of_none _ hk, ih, withRouter_singleton_of_none hk, List.append_nil]
    | some x =>
      rw [tallied_of_some _ hk, withRouter_singleton_of_some hk, List.map_append, List.sum_append,
        ← ih]
      rfl

/-- Each name has the count of the last router that goes by it. -/
theorem lookup_talliedAll (n : Network) (db : Database Advertisement) (ks : List NodeId)
    {name : String} (h : name ≠ Tally.reserved) :
    (n.talliedAll db ks ⟨[], 0⟩).tally.lookup name =
      ((n.withRouter ks).reverse.find? fun k => (n.node k).name = name).map
        fun k => .finite (n.countOver db k) := by
  -- from the end on: the last node hides what is recorded under its name before it
  induction ks using List.reverseRecOn with
  | nil => rfl
  | append_singleton ks k ih =>
    rw [talliedAll_append_singleton, withRouter_append_singleton]
    cases hk : n.routerOf k with
    | none => rw [tallied_of_none _ hk, ih, withRouter_singleton_of_none hk, List.append_nil]
    | some x =>
      rw [tallied_of_some _ hk, withRouter_singleton_of_some hk, List.reverse_append,
        List.reverse_singleton, List.singleton_append, List.find?_cons]
      by_cases hname : (n.node k).name = name
      · rw [Tally.lookup_record (hname ▸ h), if_pos hname.symm, decide_eq_true hname]
        rfl
      · rw [decide_eq_false hname, ← ih]
        by_cases hreserved : (n.node k).name = Tally.reserved
        · rw [hreserved, Tally.record_reserved]
        · rw [Tally.lookup_record hreserved, if_neg (Ne.symm hname)]

/-- Routers with names of their own all have their counts. -/
theorem tally_talliedAll (hnodup : ((n.withRouter ks).map fun k => (n.node k).name).Nodup)
    (hreserved : ∀ k ∈ n.withRouter ks, (n.node k).name ≠ Tally.reserved) :
    (n.talliedAll db ks ⟨[], 0⟩).tally =
      (n.withRouter ks).map fun k => ((n.node k).name, .finite (n.countOver db k)) := by
  induction ks using List.reverseRecOn with
  | nil => rfl
  | append_singleton ks k ih =>
    rw [talliedAll_append_singleton]
    rw [withRouter_append_singleton] at hnodup hreserved ⊢
    have ih := ih (List.Nodup.sublist ((List.sublist_append_left ..).map _) hnodup)
      fun j hj => hreserved j (List.mem_append_left _ hj)
    cases hk : n.routerOf k with
    | none => rw [tallied_of_none _ hk, ih, withRouter_singleton_of_none hk, List.append_nil]
    | some x =>
      rw [withRouter_singleton_of_some hk] at hnodup hreserved ⊢
      rw [tallied_of_some _ hk, Tally.record_of_absent, ih, List.map_append]
      · rfl
      · exact hreserved k (List.mem_append_right _ (List.mem_singleton_self k))
      · rw [ih]
        intro e he hen
        obtain ⟨j, hj, rfl⟩ := List.mem_map.1 he
        rw [List.map_append, List.nodup_append] at hnodup
        exact hnodup.2.2 _ (List.mem_map_of_mem hj) _ (List.mem_singleton_self _) hen

/-! ### What the store of a manager is told -/

def installed (n : Network) (m : ManagerId) : Tally :=
  (n.store (n.manager m).store).state.installed

/-- The nodes with a router among those of a manager, in ascending order of index. -/
def routersOf (n : Network) (m : ManagerId) : List NodeId :=
  n.withRouter (n.byIndex (n.nodesOf m))

/-- The routers of a manager have names of their own, which a tally takes. -/
structure OwnNames (n : Network) (m : ManagerId) : Prop where
  nodup : ((n.routersOf m).map fun k => (n.node k).name).Nodup
  not_mem : Tally.reserved ∉ (n.routersOf m).map fun k => (n.node k).name

/-- The store has the number of routes of every router under its name, and they add up. -/
structure AccountsForEach (n : Network) (m : ManagerId) (total : Nat) (n' : Network) : Prop where
  own : ∀ k ∈ n.routersOf m,
    (n'.installed m).lookup (n.node k).name = some (.finite (n'.globals k).length)
  sum : (n'.installed m).sum? = some total

structure Accounted (n : Network) (m : ManagerId) (total : Nat) (n' : Network) : Prop where
  computations : n'.computations (n.manager m).store = n.computations (n.manager m).store + 1
  returned : total = ((n.routersOf m).map fun k => (n'.globals k).length).sum
  last : ∀ name ≠ Tally.reserved, (n'.installed m).lookup name =
    ((n.routersOf m).reverse.find? fun k => (n.node k).name = name).map
      fun k => .finite (n'.globals k).length
  each : n.OwnNames m → AccountsForEach n m total n'

theorem OwnNames.ne_reserved (h : n.OwnNames m) (hk : k ∈ n.routersOf m) :
    (n.node k).name ≠ Tally.reserved :=
  fun hr => h.not_mem (hr ▸ List.mem_map_of_mem hk)

/-- Among routers with names of their own the last of a name is the only one. -/
theorem OwnNames.find?_reverse (h : n.OwnNames m) (hk : k ∈ n.routersOf m) :
    ((n.routersOf m).reverse.find? fun j => (n.node j).name = (n.node k).name) = some k := by
  have hsome : ((n.routersOf m).reverse.find? fun j => (n.node j).name = (n.node k).name).isSome :=
    List.find?_isSome.2 ⟨k, List.mem_reverse.2 hk, decide_eq_true rfl⟩
  obtain ⟨j, hj⟩ := Option.isSome_iff_exists.1 hsome
  have hname : (n.node j).name = (n.node k).name := by simpa using List.find?_some hj
  have hmem := List.mem_reverse.1 (List.mem_of_find?_eq_some hj)
  rw [hj, List.inj_on_of_nodup_map h.nodup hmem hk hname]

/-- What the tables hold after a run over the nodes is what was counted. -/
theorem Marks.countOver_eq (hn : n.WellFormed)
    (h : Marks (n.refillAll (n.unexplored (n.manager m).database) (n.byIndex (n.nodesOf m)) n) n')
    (hk : k ∈ n.routersOf m) :
    n.countOver (n.unexplored (n.manager m).database) k = (n'.globals k).length := by
  obtain ⟨hmem, hsome⟩ := List.mem_filter.1 hk
  obtain ⟨x, hx⟩ := Option.isSome_iff_exists.1 hsome
  obtain ⟨rs, hrs, hglobals⟩ := h.freshRoutes hn hmem x hx
  obtain rfl := Except.ok.inj ((routes_eq_ok ..).symm.trans hrs)
  rw [countOver, hx, Option.elim_some, hglobals, entries, List.length_map]

/-- A store that has the counts of all nodes knows what the tables hold. -/
theorem accounted_of_talliedAll
    (hcomputations : n'.computations (n.manager m).store = n.computations (n.manager m).store + 1)
    (hinstalled : n'.installed m =
      (n.talliedAll db (n.byIndex (n.nodesOf m)) ⟨[], 0⟩).tally)
    (hglobals : ∀ k ∈ n.routersOf m, n.countOver db k = (n'.globals k).length) :
    Accounted n m (n.talliedAll db (n.byIndex (n.nodesOf m)) ⟨[], 0⟩).total n' := by
  have hlast : ∀ name ≠ Tally.reserved, (n'.installed m).lookup name =
      ((n.routersOf m).reverse.find? fun k => (n.node k).name = name).map
        fun k => .finite (n'.globals k).length := by
    intro name hname
    rw [hinstalled]
    refine (lookup_talliedAll n db _ hname).trans (Option.map_congr fun k hk => ?_)
    rw [hglobals k (List.mem_reverse.1 (List.mem_of_find?_eq_some hk))]
  refine ⟨hcomputations, ?_, hlast, fun hown => ⟨fun k hk => ?_, ?_⟩⟩
  · rw [total_talliedAll]
    exact congrArg List.sum (List.map_congr_left hglobals)
  · rw [hlast _ (hown.ne_reserved hk), hown.find?_reverse hk, Option.map_some]
  · rw [hinstalled, total_talliedAll, tally_talliedAll hown.nodup fun _ => hown.ne_reserved,
      Tally.sum?_map]

/-- The store of a manager is told of one more computation and, under each name, of the routes of
the last router that goes by it. If the library of stores merges updates, this is what the store
knows then. -/
theorem initializeRoutes_accounted (hn : n.Reachable) (hm : m < n.managers.size)
    (hset : n.environment.stores.Merges) :
    Completes (initializeRoutes m) n fun total n' => Accounted n m total n' := by
  have start : Refills n (n.manager m).database (n.unexplored (n.manager m).database) n :=
    ⟨.refl n, hn.furnished.copies _, rfl⟩
  refine (completesOr_initializeRoutes_tallied hn.wellFormed hm start).completes.mono ?_
  rintro total n' ⟨n₂, counts, hcounts, rfl, h, -, rfl⟩
  have hstores : n₂.stores = n.stores := h.stores.trans stores_refillAll
  have hlt : (n.manager m).store < n₂.stores.size := hstores ▸ hn.furnished.stores m hm
  have htop := (SameTopology.refillAll n _ _ n).trans h.sameTopology
  have hstate := state_recordRoutes (htop.environment ▸ hset) hlt counts.tally
  subst hcounts
  refine accounted_of_talliedAll ?_ ?_ fun k hk => ?_
  · rw [computations, hstate, computations_congr hstores]
  · have hmanager (tally : Tally) :
        (exec (act (n.manager m).store (.recordRoutes tally)) n₂).2.manager m = n.manager m :=
      htop.manager m
    rw [installed, hmanager, hstate]
  · have hcount := h.countOver_eq hn.wellFormed hk
    exact hcount

/-- Two routers by these names with a link between them, a network behind the first, and a manager
that has their database. -/
def labelledSetup (first second : String) : NetworkM Unit := do
  let a ← newRouterNode first
  let b ← newRouterNode second
  newLink a b "ab" ⟨10, 0, 0, 1⟩ ⟨10, 0, 0, 2⟩ 5
  addStub a ⟨192, 168, 0, 0⟩ linkMask none
  let m ← newManager (some [a, b])
  discard (buildDatabase m)

theorem Operation.labelledSetup (first second : String) : Operation (labelledSetup first second) :=
  .bind (.newRouterNode _) fun _ => .bind (.newRouterNode _) fun _ => .bind (.newLink ..) fun _ =>
    .bind (.addStub ..) fun _ => .bind (.newManager _) fun _ => .bind (.buildDatabase _) fun _ =>
      .pure _

def labelled (first second : String) : Network := (exec (labelledSetup first second) .empty).2

theorem reachable_labelled (first second : String) : (labelled first second).Reachable :=
  .run .empty (.labelledSetup first second)

theorem merges_labelled (first second : String) :
    (labelled first second).environment.stores.Merges := by
  rw [labelled]
  exact (Operation.labelledSetup first second).merges

set_option maxRecDepth 10000 in
theorem initializeRoutes_accounted_labelled :
    0 < (labelled "A" "B").managers.size ∧ (labelled "A" "B").environment.stores.Merges ∧
      (labelled "A" "B").OwnNames 0 ∧
      (exec (initializeRoutes 0) (labelled "A" "B")).1 = .ok 3 ∧
      AccountsForEach (labelled "A" "B") 0 3 (exec (initializeRoutes 0) (labelled "A" "B")).2 := by
  have hm : 0 < (labelled "A" "B").managers.size := by cbv
  have hnames : ((labelled "A" "B").routersOf 0).map (fun k => ((labelled "A" "B").node k).name) =
      ["A", "B"] := by cbv
  have hown : (labelled "A" "B").OwnNames 0 := by
    constructor
    · rw [hnames]
      decide
    · rw [hnames]
      decide
  have hok : (exec (initializeRoutes 0) (labelled "A" "B")).1 = .ok 3 := by cbv
  have hset := merges_labelled "A" "B"
  have haccounted := (initializeRoutes_accounted (reachable_labelled "A" "B") hm hset).of_ok hok
  exact ⟨hm, hset, hown, hok, haccounted.each hown⟩

set_option maxRecDepth 10000 in
/-- Of two routers by one name the store knows the last, while the total counts both. -/
theorem not_all_accounted :
    ¬ ∀ (n : Network) (m : ManagerId), n.Reachable → m < n.managers.size →
      n.environment.stores.Merges → (n.nodesOf m).Nodup → ∀ total n', 
        exec (initializeRoutes m) n = (.ok total, n') → AccountsForEach n m total n' ∧
          n'.computations (n.manager m).store = n.computations (n.manager m).store + 1 := by
  intro hall
  have hrun : (exec (initializeRoutes 0) (labelled "R" "R")).1 = .ok 3 ∧
      ((exec (initializeRoutes 0) (labelled "R" "R")).2.installed 0).sum? = some 2 := by cbv
  obtain ⟨hok, hsum⟩ := hrun
  have hnodes : (labelled "R" "R").nodesOf 0 = [0, 1] := by cbv
  obtain ⟨haccounts, -⟩ := hall (labelled "R" "R") 0 (reachable_labelled "R" "R") (by cbv)
    (merges_labelled "R" "R") (by rw [hnodes]; decide) 3 _ (Prod.ext hok rfl)
  rw [haccounts.sum] at hsum
  cases hsum

end Network

end LinkState
