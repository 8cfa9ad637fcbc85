import LinkState.Proofs.Calculation
import LinkState.Proofs.Routes

/-! Searches and traces end. Each turn of a search is for one vertex, and there are no more vertices
than advertisements and networks. To trace a vertex back takes less than a step for each vertex, as
parents come before it in the tree order; their distances would not tell, since links of metric 0
may lead in a circle. -/

namespace LinkState

/-- The networks of the stub records with a contiguous mask, with their prefix lengths. -/
def Database.networks (db : Database Advertisement) : List (Address × Nat) :=
  db.entries.flatMap fun e => e.2.stubs.filterMap fun r =>
    (Mask.ofAddress r.data).toOption.map fun m => (r.id, m.length)

/-- The number of advertisements and of different networks. -/
def Database.extent (db : Database Advertisement) : Nat := db.size + db.networks.dedup.length

theorem Database.extent_unmarked (db : Database Advertisement) :
    (db.map Network.unmarked).extent = db.extent := by
  simp only [extent, networks, size, Database.map, List.length_map, List.flatMap_map]
  rfl

namespace Search

variable {db : Database Advertisement} {root : Address} {a : Advertisement} {s s' : Search}
  {h h' i : Nat}

/-! ### The number of vertices -/

def vertexKeys (db : Database Advertisement) : List VertexKey :=
  db.keys.map .router ++ db.networks.dedup.map fun e => .network e.1 e.2

theorem length_vertexKeys (db : Database Advertisement) :
    (vertexKeys db).length = db.extent := by
  rw [vertexKeys, List.length_append, List.length_map, List.length_map, Database.keys,
    List.length_map]
  rfl

theorem mem_vertexKeys_of_walk {k : VertexKey} {d : Nat} (hw : Walk db root k d) :
    k ∈ vertexKeys db := by
  have router {u : Address} (hu : (db.get? u).isSome) : VertexKey.router u ∈ vertexKeys db :=
    List.mem_append_left _ (List.mem_map_of_mem (Database.mem_keys_iff.2 hu))
  cases hw with
  | start hroot => exact router hroot
  | step _ l =>
    cases l with
    | router _ _ _ far => exact router (far ▸ rfl)
    | @network b r m own mem type mask =>
      refine List.mem_append_right _ (List.mem_map.2 ⟨(r.id, m.length), List.mem_dedup.2 ?_, rfl⟩)
      refine List.mem_flatMap.2 ⟨_, mem_entries_of_get? own, List.mem_filterMap.2 ⟨r, ?_, ?_⟩⟩
      · exact List.mem_filter.2 ⟨mem, decide_eq_true type⟩
      · rw [mask]
        rfl

/-- At no moment are there more vertices than advertisements and networks. -/
theorem Sound.size_le (hs : Sound db root s) : s.tree.size ≤ db.extent := by
  have hle := hs.length_le (List.nodup_range (n := s.tree.size)) (fun i hi => ?_)
    fun k d => mem_vertexKeys_of_walk
  · rwa [List.length_range, length_vertexKeys] at hle
  · exact ⟨_, Tree.view_of_getElem? (Array.getElem?_eq_getElem (List.mem_range.1 hi))⟩

/-! ### Turns -/

/-- One turn: the vertex that entered last is relaxed and the closest candidate enters, if there is
one. -/
def turn? (db : Database Advertisement) (x : Search × Nat) : Option (Search × Nat) :=
  let s := x.1.relax db x.2
  (s.queue.pop? (order s.tree)).map fun (next, queue) =>
    ({ s with queue := queue }.enter next, next)

/-- Where a search stands when a turn begins, with the vertex that the turn is for; `none` if it is
over before. The first turn is for the root. -/
def atTurn (db : Database Advertisement) (root : Address) (a : Advertisement) (i : Nat) :
    Option (Search × Nat) :=
  (·.bind (turn? db))^[i] (some ((start root a).enter 0, 0))

theorem atTurn_succ : atTurn db root a (i + 1) = (atTurn db root a i).bind (turn? db) :=
  Function.iterate_succ_apply' ..

theorem atTurn_eq_none {j : Nat} (hi : atTurn db root a i = none) (hij : i ≤ j) :
    atTurn db root a j = none := by
  induction j, hij using Nat.le_induction with
  | base => exact hi
  | succ j _ ih => rw [atTurn_succ, ih, Option.bind_none]

theorem loop_succ (fuel : Nat) : loop db (fuel + 1) s h =
    (turn? db (s, h)).elim (s.relax db h) fun x => loop db fuel x.1 x.2 := by
  rw [loop, turn?]
  dsimp only
  cases (s.relax db h).queue.pop? (order (s.relax db h).tree) <;> rfl

/-- A search that is over after some turns needs no more fuel than for these. -/
theorem loop_eq {k : Nat} (hk : (·.bind (turn? db))^[k] (some (s, h)) = some (s', h'))
    (hlast : turn? db (s', h') = none) {fuel : Nat} (hfuel : k < fuel) :
    loop db fuel s h = s'.relax db h' := by
  induction k generalizing s h fuel with
  | zero =>
    obtain ⟨fuel, rfl⟩ := Nat.exists_eq_add_one.2 hfuel
    obtain ⟨rfl, rfl⟩ := Prod.mk.injEq .. ▸ Option.some.inj hk
    rw [loop_succ, hlast, Option.elim_none]
  | succ k ih =>
    obtain ⟨fuel, rfl⟩ := Nat.exists_eq_add_one.2 (Nat.zero_lt_of_lt hfuel)
    rw [Function.iterate_succ_apply, Option.bind_some] at hk
    rw [loop_succ]
    cases hx : turn? db (s, h) with
    | none =>
      rw [hx, Function.iterate_fixed (Option.bind_none _)] at hk
      cases hk
    | some x =>
      rw [hx] at hk
      exact ih hk (by omega)

/-- A turn that is not the last moves one new vertex into the tree. -/
theorem Choice.turn (hc : Choice db root s h) (ht : turn? db (s, h) = some (s', h')) :
    Choice db root s' h' ∧ h' ∉ s.tree.order ∧ s'.tree.order = s.tree.order.push h' := by
  obtain ⟨hstep, hrelaxed⟩ := hc.relax
  obtain ⟨⟨next, queue⟩, hpop, heq⟩ := Option.map_eq_some_iff.1 ht
  obtain ⟨rfl, rfl⟩ := Prod.mk.injEq .. ▸ heq
  obtain ⟨v, hv, hnew, hps⟩ := hstep.sound.popped hpop
  have horder := (enter_order (s := { s.relax db h with queue := queue }) hv.1 hps).2.1
  exact ⟨(hstep.sound.choose hpop hrelaxed).1, hstep.order ▸ hnew, hstep.order ▸ horder⟩

theorem choice_atTurn (ha : db.get? root = some a) (hi : atTurn db root a i = some (s, h)) :
    Choice db root s h ∧ s.tree.order.size = i + 1 := by
  induction i generalizing s h with
  | zero =>
    obtain ⟨rfl, rfl⟩ := Prod.mk.injEq .. ▸ Option.some.inj hi
    exact choice_root ha
  | succ i ih =>
    rw [atTurn_succ] at hi
    obtain ⟨⟨s₀, h₀⟩, hi, ht⟩ := Option.bind_eq_some_iff.1 hi
    obtain ⟨hc, hsize⟩ := ih hi
    obtain ⟨hc', -, horder⟩ := hc.turn ht
    rw [horder, Array.size_push, hsize]
    exact ⟨hc', rfl⟩

theorem exists_last_turn (ha : db.get? root = some a) :
    ∃ i x, atTurn db root a i = some x ∧ turn? db x = none := by
  by_contra hgo
  -- otherwise there would be more turns than vertices
  have always (i : Nat) : ∃ x, atTurn db root a i = some x := by
    induction i with
    | zero => exact ⟨_, rfl⟩
    | succ i ih =>
      obtain ⟨x, hx⟩ := ih
      rw [atTurn_succ, hx, Option.bind_some, ← Option.isSome_iff_exists,
        ← Option.ne_none_iff_isSome]
      exact fun hlast => hgo ⟨i, x, hx, hlast⟩
  obtain ⟨⟨s, h⟩, hx⟩ := always (vertexBound db)
  obtain ⟨hc, hsize⟩ := choice_atTurn ha hx
  have := hc.sound.size_order_le
  omega

/-- The tree within a turn, after some of the records of the turn's vertex. -/
def Within (db : Database Advertisement) (x : Search × Nat) (t : PathTree) : Prop :=
  ∃ v rs, x.1.tree.vertices[x.2]? = some v ∧
    rs <+: v.advertisement.elim [] Advertisement.records ∧
    t = (rs.foldl (relaxLink db x.2 v) x.1).tree

theorem Choice.size_le (hc : Choice db root s h) {t : PathTree} (ht : Within db (s, h) t) :
    t.size ≤ db.extent := by
  obtain ⟨v, rs, hv, hrs, rfl⟩ := ht
  obtain ⟨u, hu, hfar⟩ := hc.settled
  have hview := Tree.view_of_getElem? hv
  obtain rfl := Option.some.inj (hu.1.symm.trans hview)
  have hg := hc.sound.arena.genuine h _ hview
  cases htype : v.type with
  | network =>
    rw [show v.advertisement = none from (hg.network htype).1] at hrs
    rw [List.prefix_nil.1 hrs]
    exact hc.sound.size_le
  | router =>
    obtain ⟨-, hadv, hsome⟩ := hg.router htype
    obtain ⟨a, own⟩ : ∃ a, db.get? v.id = some a := Option.isSome_iff_exists.1 hsome
    rw [show v.advertisement = some a from hadv.trans own] at hrs
    exact (foldl_relaxLink_step own rs hrs.subset s hc.sound ⟨hu, htype, hfar⟩).1.sound.size_le

/-- How the search that computes a tree goes on: turn by turn, each for one vertex, and ending when
there is one for each vertex. -/
structure Course (db : Database Advertisement) (root : Address) (a : Advertisement) (t : PathTree) :
    Prop where
  begins : ∀ i < t.size, ∃ s h, atTurn db root a i = some (s, h) ∧ s.tree.order.size = i + 1
  enters : ∀ i s h s' h', atTurn db root a i = some (s, h) →
    atTurn db root a (i + 1) = some (s', h') →
    h' ∉ s.tree.order ∧ s'.tree.order = s.tree.order.push h'
  last : ∃ i s h, i + 1 = t.size ∧ atTurn db root a i = some (s, h) ∧ (s.relax db h).tree = t
  finished : ∀ i, t.size ≤ i → atTurn db root a i = none
  bounded : ∀ i x t', atTurn db root a i = some x → Within db x t' → t'.size ≤ db.extent
  fuel : ∀ fuel, t.size ≤ fuel → (loop db fuel ((start root a).enter 0) 0).tree = t

theorem course_run (ha : db.get? root = some a) : Course db root a (run db root).tree := by
  obtain ⟨m, ⟨s, h⟩, hm, hlast⟩ := exists_last_turn ha
  obtain ⟨hc, hsize⟩ := choice_atTurn ha hm
  have hloop {fuel : Nat} (hfuel : m < fuel) :
      loop db fuel ((start root a).enter 0) 0 = s.relax db h := loop_eq hm hlast hfuel
  have hbound := hc.sound.size_order_le
  have hrun : run db root =
      (s.relax db h).report (.finished root (s.relax db h).tree.order.size) := by
    rw [run_eq ha, hloop (by omega)]
  have htree : (run db root).tree = (s.relax db h).tree := by
    rw [hrun]
    rfl
  have hcount : (run db root).tree.size = m + 1 := by
    rw [← (run_finished (ha ▸ rfl)).size_order, htree, hc.relax.1.order, hsize]
  have hnone : atTurn db root a (m + 1) = none := by
    rw [atTurn_succ, hm, Option.bind_some, hlast]
  refine ⟨fun i hi => ?_, ?_, ⟨m, s, h, hcount.symm, hm, htree.symm⟩, ?_, ?_, ?_⟩
  · -- what is not over by the last turn was not over before
    cases hx : atTurn db root a i with
    | none =>
      rw [atTurn_eq_none hx (by omega)] at hm
      cases hm
    | some x => exact ⟨x.1, x.2, rfl, (choice_atTurn ha hx).2⟩
  · intro i s h s' h' hi hi'
    rw [atTurn_succ, hi, Option.bind_some] at hi'
    exact ((choice_atTurn ha hi).1.turn hi').2
  · intro i hi
    exact atTurn_eq_none hnone (hcount ▸ hi)
  · intro i x t' hi ht'
    exact (choice_atTurn ha hi).1.size_le ht'
  · intro fuel hfuel
    rw [hloop (by omega), htree]

/-! ### Tracing vertices back -/

/-- If each call gives the same from some fuel on, so do all of them in turn. -/
theorem foldlM_settles {β γ : Type} (f : Nat → β → γ → Except Fault β) (bound : Nat) (ps : List γ)
    (hf : ∀ p ∈ ps, ∀ b, ∃ c, ∀ fuel, bound ≤ fuel → f fuel b p = .ok c) (b : β) :
    ∃ c, ∀ fuel, bound ≤ fuel → ps.foldlM (f fuel) b = .ok c := by
  induction ps generalizing b with
  | nil => exact ⟨b, fun _ _ => rfl⟩
  | cons p ps ih =>
    rw [List.forall_mem_cons] at hf
    obtain ⟨b', hb'⟩ := hf.1 b
    obtain ⟨c, hc⟩ := ih hf.2 b'
    refine ⟨c, fun fuel hfuel => ?_⟩
    rw [List.foldlM_cons, hb' fuel hfuel]
    exact hc fuel hfuel

/-- Whatever is known already, a vertex is traced back with fuel for the vertices up to it, and no
more than that has an effect. -/
theorem Finished.firstHops_settles (hf : Finished db root s) {j : Nat}
    (hj : s.tree.order[j]? = some h) (cache : Tree.HopCache) :
    ∃ hops, ∀ fuel, j + 1 ≤ fuel → s.tree.firstHops fuel h cache = .ok hops := by
  induction j using Nat.strongRecOn generalizing h cache with
  | ind j ih =>
    cases hl : cache.lookup h with
    | some hops =>
      refine ⟨(hops, cache), fun fuel hfuel => ?_⟩
      obtain ⟨fuel, rfl⟩ := Nat.exists_eq_add_one.2 (Nat.zero_lt_of_lt hfuel)
      rw [Tree.firstHops, hl]
    | none =>
      obtain ⟨v, hv⟩ := (hf.sound.frontier.settled h).1 (Array.mem_of_getElem? hj)
      obtain ⟨cs, hw, -⟩ := Tree.view_eq_some_iff.1 hv.1
      have hfold := foldlM_settles
        (fun fuel (found : List Nat × Tree.HopCache) p => do
          let p ← Reference.handle p
          if p = 0 then pure (Tree.union found.1 [h], found.2)
          else do
            let more ← s.tree.firstHops fuel p found.2
            pure (Tree.union found.1 more.1, more.2)) j v.parents ?_ ([], cache)
      · obtain ⟨found, hfound⟩ := hfold
        refine ⟨(found.1, (h, found.1) :: found.2), fun fuel hfuel => ?_⟩
        obtain ⟨fuel, rfl⟩ := Nat.exists_eq_add_one.2 (Nat.zero_lt_of_lt hfuel)
        rw [Tree.firstHops, hl, Tree.get, hw]
        exact congrArg (· >>= fun x => pure (x.1, (h, x.1) :: x.2)) (hfound fuel (by omega))
      · intro p hp found
        by_cases hz : p = 0
        · refine ⟨(Tree.union found.1 [h], found.2), fun fuel _ => ?_⟩
          rw [hz]
          rfl
        · -- the parent entered the tree before, so it takes less fuel
          obtain ⟨i, k, hik, hi, hk⟩ := hf.sound.frontier.earlier h v hv p hp
          obtain rfl := hf.order_inj hj hk
          obtain ⟨more, hmore⟩ := ih i hik hi found.2
          refine ⟨(Tree.union found.1 more.1, more.2), fun fuel hfuel => ?_⟩
          show (if p = 0 then _ else _ : Except Fault (List Nat × Tree.HopCache)) = _
          rw [if_neg hz, hmore fuel (by omega)]
          rfl

end Search

open Search

/-- Every vertex of a tree of shortest paths is traced back with fuel for the number of vertices. -/
theorem firstHops_shortestPaths {db : Database Advertisement} {root : Address} {h : Nat}
    (hh : h < (shortestPaths db root).size) (cache : Tree.HopCache) :
    ∃ hops, ∀ fuel, (shortestPaths db root).size ≤ fuel →
      (shortestPaths db root).firstHops fuel h cache = .ok hops := by
  by_cases hroot : (db.get? root).isSome
  · have hf := run_finished hroot
    obtain ⟨j, hj⟩ := Array.mem_iff_getElem?.1 ((hf.mem_order_iff h).2 hh)
    obtain ⟨hops, hhops⟩ := hf.firstHops_settles hj cache
    have hlt : j < (run db root).tree.order.size := (Array.getElem?_eq_some_iff.1 hj).1
    exact ⟨hops, fun fuel hfuel => hhops fuel ((hf.size_order ▸ hlt).trans_le hfuel)⟩
  · rw [shortestPaths, run_noRoot (Option.not_isSome_iff_eq_none.1 hroot)] at hh
    exact absurd hh (Nat.not_lt_zero h)

namespace Network

/-- The search ends: each turn is for a new vertex, and there are never more vertices than
advertisements and different networks. So do the traces from all vertices of its tree, whatever is
known before, and the routes of the tree are found. -/
theorem calculate_terminates (n : Network) (s : SearcherId) (root : Address) :
    Completes (calculate s root) n fun t _ =>
      (((n.unexplored (n.searcher s).database).get? root).elim (t = .empty) fun a =>
        Course (n.unexplored (n.searcher s).database) root a t) ∧
      (n.unexplored (n.searcher s).database).extent =
        (n.snapshot (n.searcher s).database).extent ∧
      (∀ h < t.size, ∀ cache, ∃ hops, ∀ fuel, t.size ≤ fuel →
        t.firstHops fuel h cache = .ok hops) ∧
      ∀ names interfaces, ∃ rs, t.routes names interfaces = .ok rs := by
  refine (completes_calculate_exact s root).mono fun t n' hc => ?_
  obtain rfl := hc.tree
  refine ⟨?_, Database.extent_unmarked _, fun h hh => firstHops_shortestPaths hh,
    exists_routes _ root⟩
  cases ha : (n.unexplored (n.searcher s).database).get? root with
  | none => exact run_noRoot ha
  | some a => exact course_run ha

end Network

end LinkState
