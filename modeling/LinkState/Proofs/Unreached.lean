import LinkState.Proofs.Marking
import LinkState.Proofs.Routes
import LinkState.Proofs.Search.Tally

/-! Routers that a search does not reach have no part in its tree. Without them it finds the same
tree, to the last handle: a link to one of them was dropped as too long or as unresolved, and is
dropped as unresolved where the router has no advertisement. -/

namespace LinkState

structure Without (S : Set Address) (db db' : Database Advertisement) : Prop where
  gone : ∀ u ∈ S, db'.get? u = none
  kept : ∀ u ∉ S, db'.get? u = db.get? u

/-- Only the routers of the two databases need to be looked at. -/
theorem Without.iff_keys {S : Set Address} {db db' : Database Advertisement} :
    Without S db db' ↔ ∀ u ∈ db.keys ++ db'.keys,
      (u ∈ S → db'.get? u = none) ∧ (u ∉ S → db'.get? u = db.get? u) := by
  refine ⟨fun h u _ => ⟨h.gone u, h.kept u⟩, fun h => ?_⟩
  have all (u : Address) : (u ∈ S → db'.get? u = none) ∧ (u ∉ S → db'.get? u = db.get? u) := by
    by_cases hu : u ∈ db.keys ++ db'.keys
    · exact h u hu
    · rw [List.mem_append, not_or] at hu
      rw [Database.get?_eq_none hu.1, Database.get?_eq_none hu.2]
      exact ⟨fun _ => rfl, fun _ => rfl⟩
  exact ⟨fun u => (all u).1, fun u => (all u).2⟩

instance {S : Set Address} [DecidablePred (· ∈ S)] {db db' : Database Advertisement} :
    Decidable (Without S db db') := decidable_of_iff _ Without.iff_keys.symm

namespace Search

variable {db db' : Database Advertisement} {root : Address} {s s' : Search} {S : Set Address}
  {h : Nat} {v : PathVertex} {r : LinkRecord}

/-- Every walk to a router of the set is too long. -/
def OutOfReach (db : Database Advertisement) (root : Address) (S : Set Address) : Prop :=
  ∀ u ∈ S, ∀ d, Walk db root (.router u) d → maxMetric < d

theorem outOfReach (hout : ∀ u ∈ S, ∀ d, ¬ (shortestPaths db root).Holds (.router u) d) :
    OutOfReach db root S := by
  intro u hu d hw
  by_contra hmax
  obtain ⟨e, -, he⟩ := (run_finished hw.root_isSome).holds_of_walk hw (Nat.le_of_not_lt hmax)
  exact hout u hu e he

/-! ### In step -/

/-- The searches differ in their traces at most. -/
def InStep (s s' : Search) : Prop := s'.tree = s.tree ∧ s'.queue = s.queue

theorem InStep.discover (hm : InStep s s') (parent : Nat) (t : Target) (d : Nat) :
    InStep (s.discover parent t d) (s'.discover parent t d) := by
  obtain ⟨tree, queue, trace⟩ := s
  obtain ⟨tree', queue', trace'⟩ := s'
  obtain ⟨rfl, rfl⟩ := hm
  unfold Search.discover
  split <;> exact ⟨rfl, rfl⟩

theorem InStep.improve (hm : InStep s s') (parent i : Nat) (w : PathVertex) (d : Nat) :
    InStep (s.improve parent i w d) (s'.improve parent i w d) := by
  obtain ⟨tree, queue, trace⟩ := s
  obtain ⟨tree', queue', trace'⟩ := s'
  obtain ⟨rfl, rfl⟩ := hm
  unfold Search.improve
  split
  · exact ⟨rfl, rfl⟩
  · split <;> exact ⟨rfl, rfl⟩

theorem InStep.offer (hm : InStep s s') (parent : Nat) (v : PathVertex) (t : Target) (m : Metric) :
    InStep (s.offer parent v t m) (s'.offer parent v t m) := by
  unfold Search.offer
  rw [hm.1]
  dsimp only
  split
  · exact hm
  · cases m.extend? v.distance with
    | none => exact hm
    | some d =>
      cases locate? s.tree t.key with
      | none => exact hm.discover parent t d
      | some found => exact hm.improve parent found.1 found.2 d

theorem InStep.enter (hm : InStep s s') (h : Nat) : InStep (s.enter h) (s'.enter h) := by
  obtain ⟨tree, queue, trace⟩ := s
  obtain ⟨tree', queue', trace'⟩ := s'
  obtain ⟨rfl, rfl⟩ := hm
  unfold Search.enter
  dsimp only
  split
  · split <;> exact ⟨rfl, rfl⟩
  · exact ⟨rfl, rfl⟩

/-- A path that is too long is dropped, or not even looked at. -/
theorem offer_inStep {t : Target} {m : Metric} (hfar : maxMetric < v.distance + m.value) :
    InStep (s.offer h v t m) s := by
  have hnone : m.extend? v.distance = none := by
    rw [Metric.extend?, if_neg (by omega)]
  unfold offer
  dsimp only
  rw [hnone]
  split <;> exact ⟨rfl, rfl⟩

theorem InStep.trans {s'' : Search} (hm : InStep s s') (hm' : InStep s' s'') : InStep s s'' :=
  ⟨hm'.1.trans hm.1, hm'.2.trans hm.2⟩

section Lockstep

variable (hdb : Without S db db') (hfar : OutOfReach db root S)
include hdb hfar

/-- One record keeps the searches in step, also if it leads to a router of the set. -/
theorem relaxLink_inStep (hm : InStep s s') {a : Advertisement} (own : db.get? v.id = some a)
    (mem : r ∈ a.records) (hw : Walk db root (.router v.id) v.distance) :
    InStep (relaxLink db h v s r) (relaxLink db' h v s' r) := by
  unfold relaxLink
  cases htype : r.type with
  | pointToPoint =>
    by_cases hS : r.id ∈ S
    · rw [hdb.gone _ hS, Option.filter_none]
      dsimp only
      cases hback : (db.get? r.id).filter (linksBack · v.id) with
      | none => exact hm
      | some b =>
        obtain ⟨far, back⟩ := Option.filter_eq_some_iff.1 hback
        have hlead := leads_of_target? own mem ((target?_router htype).2 ⟨b, far, back, rfl⟩)
        exact (offer_inStep (hfar _ hS _ (hw.step hlead))).trans hm
    · rw [hdb.kept _ hS]
      cases (db.get? r.id).filter (linksBack · v.id) with
      | none => exact hm
      | some b => exact hm.offer h v _ _
  | stubNetwork =>
    cases Mask.ofAddress r.data with
    | ok m => exact hm.offer h v _ _
    | error f => exact hm
  | unknown | transitNetwork | virtualLink | other => exact hm

theorem foldl_relaxLink_inStep {a : Advertisement} (own : db.get? v.id = some a)
    (hw : Walk db root (.router v.id) v.distance) (rs : List LinkRecord) (hrs : rs ⊆ a.records)
    (hm : InStep s s') :
    InStep (rs.foldl (relaxLink db h v) s) (rs.foldl (relaxLink db' h v) s') := by
  induction rs generalizing s s' with
  | nil => exact hm
  | cons r rs ih =>
    rw [List.cons_subset] at hrs
    exact ih hrs.2 (relaxLink_inStep hdb hfar hm own hrs.1 hw)

theorem relax_inStep (hs : Sound db root s) (hh : ∃ v, Settled s.tree.view h v)
    (hm : InStep s s') : InStep (s.relax db h) (s'.relax db' h) := by
  obtain ⟨v, hv, -⟩ := hh
  obtain ⟨cs, hw, hbare⟩ := Tree.view_eq_some_iff.1 hv
  have hg := hs.arena.genuine h v hv
  have hwalk := hs.arena.walk h v hv
  rw [relax, relax, hm.1, hw]
  dsimp only
  cases htype : v.type with
  | network =>
    rw [(hg.network htype).1]
    exact hm
  | router =>
    obtain ⟨-, hadv, hsome⟩ := hg.router htype
    obtain ⟨a, own⟩ := Option.isSome_iff_exists.1 hsome
    rw [hadv, own, Option.elim_some]
    rw [key_of_router htype] at hwalk
    exact foldl_relaxLink_inStep (v := { v with children := cs }) hdb hfar own hwalk _
      (List.Subset.refl _) hm

theorem loop_inStep (fuel : Nat) (hc : Choice db root s h) (hm : InStep s s') :
    InStep (loop db fuel s h) (loop db' fuel s' h) := by
  induction fuel generalizing s s' h with
  | zero => exact hm
  | succ fuel ih =>
    obtain ⟨v, hv, -⟩ := hc.settled
    obtain ⟨hstep, hrelaxed⟩ := hc.relax
    have hr := relax_inStep hdb hfar hc.sound ⟨v, hv⟩ hm
    rw [loop, loop, hr.1, hr.2]
    cases hpop : (s.relax db h).queue.pop? (order (s.relax db h).tree) with
    | none => exact hr
    | some popped =>
      obtain ⟨next, queue⟩ := popped
      refine ih (hstep.sound.choose hpop hrelaxed).1 (InStep.enter ?_ next)
      exact ⟨rfl, rfl⟩

end Lockstep

/-- More fuel than a search needs changes nothing. -/
theorem loop_add (fuel extra : Nat) (hc : Choice db root s h)
    (hfuel : vertexBound db < s.tree.order.size + fuel) :
    loop db (fuel + extra) s h = loop db fuel s h := by
  induction fuel generalizing s h with
  | zero =>
    have := hc.sound.size_order_le
    omega
  | succ fuel ih =>
    obtain ⟨hstep, hrelaxed⟩ := hc.relax
    rw [Nat.add_right_comm, loop, loop]
    cases hpop : (s.relax db h).queue.pop? (order (s.relax db h).tree) with
    | none => rfl
    | some popped =>
      obtain ⟨next, queue⟩ := popped
      obtain ⟨hchoice, hsize⟩ := hstep.sound.choose hpop hrelaxed
      refine ih hchoice ?_
      rw [hsize, hstep.order]
      omega

theorem run_inStep (hdb : Without S db db') (hfar : OutOfReach db root S) :
    InStep (run db root) (run db' root) := by
  cases hroot : db.get? root with
  | none =>
    have hroot' : db'.get? root = none := by
      by_cases hS : root ∈ S
      · exact hdb.gone root hS
      · rw [hdb.kept root hS, hroot]
    rw [run, run, hroot, hroot']
    exact ⟨rfl, rfl⟩
  | some a =>
    have hS : root ∉ S := fun hS => by
      have := hfar root hS 0 (.start (hroot ▸ rfl))
      omega
    have hroot' : db'.get? root = some a := (hdb.kept root hS).trans hroot
    obtain ⟨hc, hsize⟩ := choice_root hroot
    obtain ⟨hc', -⟩ := choice_root hroot'
    have hstart : InStep ((start root a).enter 0) ((start root a).enter 0) := ⟨rfl, rfl⟩
    have hloop := loop_inStep hdb hfar (vertexBound db + vertexBound db') hc hstart
    rw [loop_add _ _ hc (by omega), Nat.add_comm, loop_add _ _ hc' (by omega)] at hloop
    rw [run_eq hroot, run_eq hroot']
    exact hloop

/-! ### What is dropped -/

def total (p : Nat × Nat) : Nat := p.1 + p.2

theorem total_add (p q : Nat × Nat) : total (p + q) = total p + total q := by
  simp only [total, Prod.fst_add, Prod.snd_add]
  omega

theorem total_sum {α : Type} (f : α → Nat × Nat) (l : List α) :
    total (l.map f).sum = (l.map fun a => total (f a)).sum := by
  induction l with
  | nil => rfl
  | cons a l ih => rw [List.map_cons, List.map_cons, List.sum_cons, List.sum_cons, total_add, ih]

section Dropped

variable (hdb : Without S db db') (hfar : OutOfReach db root S)
include hdb hfar

/-- A link to a router of the set is dropped either way. -/
theorem total_dropped {seen : List VertexKey} (hseen : ∀ x ∈ S, VertexKey.router x ∉ seen)
    {u : Address} {d : Nat} (hw : Walk db root (.router u) d) {a : Advertisement}
    (own : db.get? u = some a) (mem : r ∈ a.records) :
    total (dropped db' seen u d r) = total (dropped db seen u d r) := by
  by_cases htype : r.type = .pointToPoint
  · by_cases hS : r.id ∈ S
    · have hnone : target? db' u r = none := by
        rw [target?, htype, hdb.gone _ hS]
        rfl
      rw [dropped, hnone, dropped]
      cases ht : target? db u r with
      | none => rfl
      | some t =>
        obtain ⟨b, -, -, rfl⟩ := (target?_router htype).1 ht
        have hlong := hfar _ hS _ (hw.step (leads_of_target? own mem ht))
        have hcond : VertexKey.router r.id ∉ seen ∧ maxMetric < d + r.metric.value :=
          ⟨hseen _ hS, hlong⟩
        have hkey : (some (Target.router r.id b)).map Target.key = some (.router r.id) := rfl
        rw [hkey, Option.map_none]
        dsimp only
        rw [if_pos hcond, if_pos htype]
        rfl
    · have hsame : target? db' u r = target? db u r := by
        rw [target?, target?, htype, hdb.kept _ hS]
      rw [dropped, hsame, dropped]
  · have hsame : target? db' u r = target? db u r := by
      rw [target?, target?]
      split
      · next hp => exact absurd hp htype
      · rfl
      · rfl
    rw [dropped, hsame, dropped]

theorem total_droppedOver {seen : List VertexKey} (hseen : ∀ x ∈ S, VertexKey.router x ∉ seen)
    {e : VertexKey × Nat} (hw : Walk db root e.1 e.2) (hne : ∀ x ∈ S, e.1 ≠ .router x) :
    total (droppedOver db' seen e) = total (droppedOver db seen e) := by
  obtain ⟨k, d⟩ := e
  cases k with
  | network => rfl
  | router u =>
    have hS : u ∉ S := fun hS => hne u hS rfl
    rw [droppedOver, droppedOver, hdb.kept u hS, total_sum, total_sum]
    cases own : db.get? u with
    | none => rfl
    | some a =>
      congr 1
      exact List.map_congr_left fun r mem => total_dropped hdb hfar hseen hw own mem

theorem total_allDropped {seen : List VertexKey} (hseen : ∀ x ∈ S, VertexKey.router x ∉ seen)
    (es : List (VertexKey × Nat))
    (hes : ∀ e ∈ es, Walk db root e.1 e.2 ∧ ∀ x ∈ S, e.1 ≠ .router x) :
    total (allDropped db' seen es) = total (allDropped db seen es) := by
  induction es generalizing seen with
  | nil => rfl
  | cons e es ih =>
    rw [List.forall_mem_cons] at hes
    have hseen' : ∀ x ∈ S, VertexKey.router x ∉ seen ++ [e.1] := by
      intro x hx hmem
      rcases List.mem_append.1 hmem with hmem | hmem
      · exact hseen x hx hmem
      · exact hes.1.2 x hx (List.mem_singleton.1 hmem).symm
    rw [allDropped, allDropped, total_add, total_add, ih hseen' hes.2,
      total_droppedOver hdb hfar hseen' hes.1.1 hes.1.2]

end Dropped

theorem walk_of_mem_log {e : VertexKey × Nat} (he : e ∈ log (run db root).tree) :
    Walk db root e.1 e.2 ∧ e.2 ≤ maxMetric := by
  by_cases hroot : (db.get? root).isSome
  · have ha := (run_finished hroot).sound.arena
    obtain ⟨i, -, hi⟩ := List.mem_filterMap.1 he
    obtain ⟨v, hv, rfl⟩ := Option.map_eq_some_iff.1 hi
    exact ⟨ha.walk i v hv, ha.le_max i v hv⟩
  · rw [run_noRoot (Option.not_isSome_iff_eq_none.1 hroot)] at he
    cases he

theorem total_counts_run (hdb : Without S db db') (hfar : OutOfReach db root S) :
    total (counts (run db' root)) = total (counts (run db root)) := by
  rw [counts_run, counts_run, (run_inStep hdb hfar).1]
  refine total_allDropped hdb hfar (fun _ _ => List.not_mem_nil) _ fun e he => ?_
  obtain ⟨hw, hmax⟩ := walk_of_mem_log he
  refine ⟨hw, fun x hx hkey => ?_⟩
  rw [hkey] at hw
  have := hfar x hx _ hw
  omega

end Search

/-- Without routers that it does not reach a search finds the same tree and drops as much. -/
theorem shortestPaths_without {S : Set Address} {db db' : Database Advertisement} {root : Address}
    (hdb : Without S db db')
    (hout : ∀ u ∈ S, ∀ d, ¬ (shortestPaths db root).Holds (.router u) d) :
    shortestPaths db' root = shortestPaths db root ∧
      (Search.run db' root).stats.rejectedPaths + (Search.run db' root).stats.unresolvedLinks =
        (Search.run db root).stats.rejectedPaths + (Search.run db root).stats.unresolvedLinks :=
  ⟨(Search.run_inStep hdb (Search.outOfReach hout)).1,
    Search.total_counts_run hdb (Search.outOfReach hout)⟩

namespace Network

/-- Routers that a search did not reach could as well have no advertisement. -/
theorem calculate_without (n n' : Network) (s s' : SearcherId) (root : Address) (S : Set Address)
    (hs : s < n.searchers.size) (hs' : s' < n'.searchers.size)
    (h : Without S (n.unexplored (n.searcher s).database)
      (n'.unexplored (n'.searcher s').database)) :
    Completes (calculate s root) n fun t n₁ => (∀ u ∈ S, ∀ d, ¬ t.Holds (.router u) d) →
      Completes (calculate s' root) n' fun t' n₁' => t' = t ∧
        (∀ names interfaces, ∃ rs,
          t.routes names interfaces = .ok rs ∧ t'.routes names interfaces = .ok rs) ∧
        (n₁'.searcher s').stats.rejectedPaths + (n₁'.searcher s').stats.unresolvedLinks =
          (n₁.searcher s).stats.rejectedPaths + (n₁.searcher s).stats.unresolvedLinks := by
  refine (completes_calculate_exact s root).mono fun t n₁ ht hout => ?_
  refine (completes_calculate_exact s' root).mono fun t' n₁' ht' => ?_
  rw [ht.tree] at hout
  obtain ⟨htree, hsum⟩ := shortestPaths_without h hout
  rw [ht.stats_eq hs, ht'.stats_eq hs', ht.tree, ht'.tree, htree]
  refine ⟨rfl, fun names interfaces => ?_, hsum⟩
  obtain ⟨rs, hrs⟩ :=
    exists_routes (n.unexplored (n.searcher s).database) root names interfaces
  exact ⟨rs, hrs, hrs⟩

/-- Two routers with a link, one behind a link that is too long, and one that nobody links to. -/
def farRouters : List Advertisement :=
  [⟨⟨1, 1, 1, 1⟩, ⟨1, 1, 1, 1⟩, .notExplored,
    [⟨.pointToPoint, ⟨2, 2, 2, 2⟩, ⟨10, 1, 0, 1⟩, defaultInterfaceCost⟩]⟩,
   ⟨⟨2, 2, 2, 2⟩, ⟨2, 2, 2, 2⟩, .notExplored,
    [⟨.pointToPoint, ⟨1, 1, 1, 1⟩, ⟨10, 1, 0, 2⟩, defaultInterfaceCost⟩,
     ⟨.pointToPoint, ⟨3, 3, 3, 3⟩, ⟨10, 2, 0, 1⟩, ⟨maxMetric, by decide⟩⟩]⟩,
   ⟨⟨3, 3, 3, 3⟩, ⟨3, 3, 3, 3⟩, .notExplored,
    [⟨.pointToPoint, ⟨2, 2, 2, 2⟩, ⟨10, 2, 0, 2⟩, .zero⟩]⟩,
   ⟨⟨4, 4, 4, 4⟩, ⟨4, 4, 4, 4⟩, .notExplored,
    [⟨.pointToPoint, ⟨1, 1, 1, 1⟩, ⟨10, 3, 0, 1⟩, .zero⟩]⟩]

def nearAndFar : Network :=
  (exec (do discard (searcherOver farRouters); searcherOver (farRouters.take 2)) .empty).2

def tooFar : Set Address := {u | u ∈ ([⟨3, 3, 3, 3⟩, ⟨4, 4, 4, 4⟩] : List Address)}

instance : DecidablePred (· ∈ tooFar) := fun u =>
  inferInstanceAs (Decidable (u ∈ ([⟨3, 3, 3, 3⟩, ⟨4, 4, 4, 4⟩] : List Address)))

set_option maxRecDepth 10000 in
theorem nearAndFar_tree : (exec (calculate 0 ⟨1, 1, 1, 1⟩) nearAndFar).1.toOption.map
    (fun t => t.inOrder.map (·.2.key)) =
      some [.router ⟨1, 1, 1, 1⟩, .router ⟨2, 2, 2, 2⟩] := by
  cbv

theorem not_holds_tooFar {t : PathTree}
    (ht : (exec (calculate 0 ⟨1, 1, 1, 1⟩) nearAndFar).1 = .ok t) :
    ∀ u ∈ tooFar, ∀ d, ¬ t.Holds (.router u) d := by
  have htree := nearAndFar_tree
  rw [ht] at htree
  have hkeys : t.inOrder.map (·.2.key) = [.router ⟨1, 1, 1, 1⟩, .router ⟨2, 2, 2, 2⟩] :=
    Option.some.inj htree
  rintro u hu d ⟨e, he, hk, -⟩
  have hmem : VertexKey.router u ∈ t.inOrder.map (·.2.key) := List.mem_map.2 ⟨e, he, hk⟩
  rw [hkeys] at hmem
  have hnone : ∀ u ∈ ([⟨3, 3, 3, 3⟩, ⟨4, 4, 4, 4⟩] : List Address),
      VertexKey.router u ∉ [VertexKey.router ⟨1, 1, 1, 1⟩, .router ⟨2, 2, 2, 2⟩] := by decide
  exact hnone u hu hmem

theorem calculate_without_nearAndFar :
    0 < nearAndFar.searchers.size ∧ 1 < nearAndFar.searchers.size ∧
      Without tooFar (nearAndFar.unexplored (nearAndFar.searcher 0).database)
        (nearAndFar.unexplored (nearAndFar.searcher 1).database) ∧
      ∃ t, (exec (calculate 0 ⟨1, 1, 1, 1⟩) nearAndFar).1 = .ok t ∧
        (∀ u ∈ tooFar, ∀ d, ¬ t.Holds (.router u) d) ∧
        (exec (calculate 1 ⟨1, 1, 1, 1⟩) nearAndFar).1 = .ok t ∧
        ∀ names interfaces, ∃ rs, t.routes names interfaces = .ok rs := by
  have hs : 0 < nearAndFar.searchers.size := by decide +kernel
  have hs' : 1 < nearAndFar.searchers.size := by decide +kernel
  have h : Without tooFar (nearAndFar.unexplored (nearAndFar.searcher 0).database)
      (nearAndFar.unexplored (nearAndFar.searcher 1).database) := by decide +kernel
  have hq : nearAndFar.Quiet := quiet_of_nil (by decide +kernel)
  obtain ⟨t, ht, hrest⟩ :=
    (calculate_without nearAndFar nearAndFar 0 1 ⟨1, 1, 1, 1⟩ tooFar hs hs' h).of_quiet hq
  have hout := not_holds_tooFar ht
  obtain ⟨t', ht', rfl, hroutes, -⟩ := (hrest hout).of_quiet hq
  refine ⟨hs, hs', h, t', ht, hout, ht', fun names interfaces => ?_⟩
  obtain ⟨rs, hrs, -⟩ := hroutes names interfaces
  exact ⟨rs, hrs⟩

set_option maxRecDepth 10000 in
/-- The long path is rejected; where the router behind it is gone, the link is unresolved. -/
example : ([0, 1].map fun s =>
    ((exec (calculate s ⟨1, 1, 1, 1⟩) nearAndFar).2.searcher s).stats.pair) =
      [(1, 0), (0, 1)] := by
  cbv

end Network

end LinkState
