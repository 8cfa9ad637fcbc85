import LinkState.Proofs.Search.Invariant

/-! One link, one vertex and one choice of a search: each keeps it in good order, and once a vertex
is relaxed everything that its links lead to is reached at no more than the length over it. -/

namespace LinkState

namespace Search

def target? (db : Database Advertisement) (u : Address) (r : LinkRecord) : Option Target :=
  match r.type with
  | .pointToPoint => ((db.get? r.id).filter (linksBack · u)).map (.router r.id)
  | .stubNetwork => (Mask.ofAddress r.data).toOption.map (.network r.id)
  | _ => none

theorem linksBack_iff {a : Advertisement} {u : Address} :
    linksBack a u = true ↔ ∃ l ∈ a.records, l.type = .pointToPoint ∧ l.id = u := by
  simp only [linksBack, List.any_eq_true, LinkRecord.leadsTo, Bool.and_eq_true, decide_eq_true_eq]

theorem toOption_eq_some_iff {ε α : Type} {x : Except ε α} {a : α} :
    x.toOption = some a ↔ x = .ok a := by
  cases x with
  | error e => exact ⟨nofun, nofun⟩
  | ok b => exact ⟨fun h => congrArg _ (Option.some.inj h), fun h => congrArg _ (Except.ok.inj h)⟩

section Target

variable {db : Database Advertisement} {u : Address} {r : LinkRecord} {t : Target}

theorem target?_router (htype : r.type = .pointToPoint) :
    target? db u r = some t ↔ ∃ b, db.get? r.id = some b ∧ linksBack b u ∧ t = .router r.id b := by
  rw [target?, htype]
  simp only [Option.map_eq_some_iff, Option.filter_eq_some_iff, and_assoc]
  exact exists_congr fun b => and_congr_right fun _ => and_congr_right fun _ => eq_comm

theorem target?_network (htype : r.type = .stubNetwork) :
    target? db u r = some t ↔ ∃ m, Mask.ofAddress r.data = .ok m ∧ t = .network r.id m := by
  rw [target?, htype]
  simp only [Option.map_eq_some_iff, toOption_eq_some_iff]
  exact exists_congr fun m => and_congr_right fun _ => eq_comm

theorem leads_of_target? {a : Advertisement} (own : db.get? u = some a) (mem : r ∈ a.records)
    (h : target? db u r = some t) : Leads db u t.key r.metric.value := by
  by_cases hp : r.type = .pointToPoint
  · obtain ⟨b, far, back, rfl⟩ := (target?_router hp).1 h
    exact .router own mem hp far (linksBack_iff.1 back)
  · by_cases hs : r.type = .stubNetwork
    · obtain ⟨m, mask, rfl⟩ := (target?_network hs).1 h
      exact .network own mem hs mask
    · rw [target?] at h
      split at h
      · next hp' => exact absurd hp' hp
      · next hs' => exact absurd hs' hs
      · cases h

theorem target?_of_leads {k : VertexKey} {w : Nat} (h : Leads db u k w) :
    ∃ a r t, db.get? u = some a ∧ r ∈ a.records ∧ target? db u r = some t ∧ t.key = k ∧
      r.metric.value = w := by
  cases h with
  | @router a b r own mem type far back =>
    exact ⟨a, r, _, own, mem, (target?_router type).2 ⟨b, far, linksBack_iff.2 back, rfl⟩, rfl, rfl⟩
  | @network a r m own mem type mask =>
    exact ⟨a, r, _, own, mem, (target?_network type).2 ⟨m, mask, rfl⟩, rfl, rfl⟩

end Target

def Target.vertex (t : Target) (distance : Nat) (parents : List Nat) : PathVertex :=
  ⟨t.type, t.id, t.mask, distance, .candidate, parents, [], t.advertisement⟩

theorem Target.genuine {db : Database Advertisement} {u : Address} {r : LinkRecord} {t : Target}
    (h : target? db u r = some t) (distance : Nat) (parents : List Nat) :
    (t.vertex distance parents).Genuine db := by
  rw [target?] at h
  split at h
  · obtain ⟨b, hb, rfl⟩ := Option.map_eq_some_iff.1 h
    have far := (Option.filter_eq_some_iff.1 hb).1
    exact ⟨rfl, far.symm, far ▸ rfl⟩
  · obtain ⟨m, hm, rfl⟩ := Option.map_eq_some_iff.1 h
    exact ⟨rfl, m, r.data, rfl, toOption_eq_some_iff.1 hm⟩
  · cases h

/-- A link is offered to its target, or nothing but the trace changes. -/
theorem relaxLink_cases (db : Database Advertisement) (h : Nat) (v : PathVertex) (s : Search)
    (r : LinkRecord) :
    (∃ t, target? db v.id r = some t ∧ relaxLink db h v s r = s.offer h v t r.metric) ∨
    target? db v.id r = none ∧ (relaxLink db h v s r).tree = s.tree ∧
      (relaxLink db h v s r).queue = s.queue := by
  rw [relaxLink, target?]
  generalize r.type = type
  cases type with
  | pointToPoint =>
    cases (db.get? r.id).filter (linksBack · v.id) with
    | some a => exact .inl ⟨_, rfl, rfl⟩
    | none => exact .inr ⟨rfl, rfl, rfl⟩
  | stubNetwork =>
    cases Mask.ofAddress r.data with
    | ok m => exact .inl ⟨_, rfl, rfl⟩
    | error f => exact .inr ⟨rfl, rfl, rfl⟩
  | unknown | transitNetwork | virtualLink | other => exact .inr ⟨rfl, rfl, rfl⟩

/-! ### What a step leaves in place -/

structure Grows (look look' : View) : Prop where
  kept : ∀ i u, look i = some u →
    ∃ u', look' i = some u' ∧ u'.key = u.key ∧ u'.distance ≤ u.distance
  settled : ∀ i u, Settled look' i u ↔ Settled look i u

theorem Grows.refl (look : View) : Grows look look :=
  ⟨fun _ u hu => ⟨u, hu, rfl, le_refl _⟩, fun _ _ => Iff.rfl⟩

theorem Grows.trans {a b c : View} (h : Grows a b) (h' : Grows b c) : Grows a c := by
  refine ⟨fun i u hu => ?_, fun i u => (h'.settled i u).trans (h.settled i u)⟩
  obtain ⟨v, hv, hk, hd⟩ := h.kept i u hu
  obtain ⟨w, hw, hk', hd'⟩ := h'.kept i v hv
  exact ⟨w, hw, hk'.trans hk, hd'.trans hd⟩

theorem Placement.grows {db : Database Advertisement} {look : View} {h : Nat} {v : PathVertex}
    (hp : Placement db look h v) : Grows look (Function.update look h (some v)) := by
  refine ⟨fun i u hu => ?_, fun i u => hp.settled_iff⟩
  by_cases hi : i = h
  · subst hi
    exact ⟨v, Function.update_self .., (hp.old u hu).2.1.symm, (hp.old u hu).2.2⟩
  · exact ⟨u, (Function.update_of_ne hi ..).trans hu, rfl, le_refl _⟩

def Reached (look : View) (k : VertexKey) (d : Nat) : Prop :=
  ∃ i u, look i = some u ∧ u.key = k ∧ u.distance ≤ d

theorem Grows.reached {look look' : View} (h : Grows look look') {k : VertexKey} {d : Nat}
    (hr : Reached look k d) : Reached look' k d := by
  obtain ⟨i, u, hu, hk, hd⟩ := hr
  obtain ⟨v, hv, hk', hd'⟩ := h.kept i u hu
  exact ⟨i, v, hv, hk'.trans hk, hd'.trans hd⟩

/-! ### Offering a path -/

theorem locate?_eq_some {t : PathTree} {key : VertexKey} {h : Nat} {v : PathVertex}
    (hl : locate? t key = some (h, v)) : t.vertices[h]? = some v ∧ v.key = key := by
  obtain ⟨i, hi, hv⟩ := Option.bind_eq_some_iff.1 hl
  obtain ⟨w, hw, he⟩ := Option.map_eq_some_iff.1 hv
  obtain ⟨rfl, rfl⟩ := Prod.mk.injEq .. ▸ he
  obtain ⟨x, hx, hk⟩ := Tree.exists_of_find? hi
  obtain rfl := Option.some.inj (hw.symm.trans hx)
  exact ⟨hw, hk⟩

theorem key_ne_of_locate?_eq_none {t : PathTree} {key : VertexKey} (hl : locate? t key = none)
    {i : Nat} {u : PathVertex} (hu : t.view i = some u) : u.key ≠ key := by
  obtain ⟨cs, hu', _⟩ := Tree.view_eq_some_iff.1 hu
  cases hf : t.find? key with
  | none => exact (Tree.find?_eq_none_iff.1 hf i _ hu' :)
  | some h =>
    obtain ⟨x, hx, -⟩ := Tree.exists_of_find? hf
    rw [locate?, hf, Option.bind_some, hx] at hl
    cases hl

theorem ranked_of_isSome {t : PathTree} {heap : Array Nat} (h : ∀ i ∈ heap, (t.view i).isSome) :
    Queue.Ranked (Search.order t) (Tree.rankAt t.view) heap :=
  fun i hi j hj => Tree.compare?_eq (h i hi) (h j hj)

theorem Frontier.isSome {look : View} {q : Queue Nat} {order : Array Nat}
    (hf : Frontier look order q) {i : Nat} (hi : i ∈ q.heap) : (look i).isSome := by
  obtain ⟨u, hu⟩ := (hf.queued i).1 hi
  exact hu.1 ▸ rfl

/-- The queue compares its members by the ranks of their vertices. -/
theorem Frontier.ranked {t : PathTree} {q : Queue Nat} {order : Array Nat}
    (hf : Frontier t.view order q) : Queue.Ranked (Search.order t) (Tree.rankAt t.view) q.heap :=
  ranked_of_isSome fun _ hi => hf.isSome hi

section Offer

variable {db : Database Advertisement} {root : Address} {s : Search} {h : Nat} {v : PathVertex}
  {r : LinkRecord} {t : Target}

/-- The vertex at `h` is settled and no settled one is farther away: it is the one to relax. -/
structure Current (look : View) (h : Nat) (v : PathVertex) : Prop where
  settled : Settled look h v.bare
  router : v.type = .router
  farthest : ∀ i u, Settled look i u → u.distance ≤ v.distance

theorem Current.grows {look look' : View} (hc : Current look h v) (hg : Grows look look') :
    Current look' h v :=
  ⟨(hg.settled h _).2 hc.settled, hc.router, fun i u hu => hc.farthest i u ((hg.settled i u).1 hu)⟩

theorem Current.tight {look : View} (hc : Current look h v) {w : PathVertex} {d : Nat}
    (hl : Leads db v.id w.key d) (hd : v.distance + d = w.distance) : Tight db look h w :=
  ⟨v.bare, d, hc.settled, hc.router, hl, hd⟩

structure Step (db : Database Advertisement) (root : Address) (s s' : Search) : Prop where
  sound : Sound db root s'
  grows : Grows s.tree.view s'.tree.view
  order : s'.tree.order = s.tree.order

theorem Step.refl (hs : Sound db root s) : Step db root s s := ⟨hs, .refl _, rfl⟩

theorem Step.trans {s' s'' : Search} (h : Step db root s s') (h' : Step db root s' s'') :
    Step db root s s'' := ⟨h'.sound, h.grows.trans h'.grows, h'.order.trans h.order⟩

/-- A vertex put in under the conditions of `Placement`, with the queue brought up to date. -/
theorem Placement.step {i : Nat} {w : PathVertex} {s' : Search} (hs : Sound db root s)
    (hp : Placement db s.tree.view i w)
    (view : s'.tree.view = Function.update s.tree.view i (some w))
    (order : s'.tree.order = s.tree.order) (indexed : s'.queue.Indexed)
    (mem : ∀ j, j ∈ s'.queue.heap ↔ j = i ∨ j ∈ s.queue.heap)
    (sorted : Queue.Sorted (Tree.rankAt s'.tree.view) s'.queue.heap) : Step db root s s' := by
  rw [view] at sorted
  refine ⟨⟨?_, ?_⟩, ?_, order⟩
  · rw [view]
    exact hs.arena.place hp
  · rw [view, order]
    exact hs.frontier.place hp indexed mem sorted
  · rw [view]
    exact hp.grows

theorem discover_step {d : Nat} (hs : Sound db root s) (hc : Current s.tree.view h v)
    (ht : target? db v.id r = some t) (hl : Leads db v.id t.key r.metric.value)
    (hd : v.distance + r.metric.value = d) (hmax : d ≤ maxMetric)
    (hnone : locate? s.tree t.key = none) :
    Step db root s (s.discover h t d) ∧ Reached (s.discover h t d).tree.view t.key d := by
  have fresh : s.tree.view s.tree.size = none := Tree.view_size_le (le_refl _)
  have hp : Placement db s.tree.view s.tree.size (t.vertex d [h]) := by
    refine ⟨?_, ?_, rfl, Target.genuine ht d [h], hmax, List.cons_ne_nil _ _, ?_, ?_⟩
    · intro u hu
      rw [fresh] at hu
      cases hu
    · intro _ i u hu
      exact key_ne_of_locate?_eq_none hnone hu
    · intro p hp
      rw [List.mem_singleton.1 hp]
      exact hc.tight hl hd
    · intro i u hu
      exact (hc.farthest i u hu).trans (hd ▸ Nat.le_add_right ..)
  have tree : (s.discover h t d).tree = s.tree.append (t.vertex d [h]) := rfl
  have queue : (s.discover h t d).queue =
      s.queue.push (Search.order (s.tree.append (t.vertex d [h]))) s.tree.size := by
    unfold discover
    split <;> rfl
  have view : (s.discover h t d).tree.view =
      Function.update s.tree.view s.tree.size (some (t.vertex d [h])) := by
    rw [tree, Tree.view_append]
    rfl
  have absent : s.tree.size ∉ s.queue.heap := by
    intro hm
    obtain ⟨u, hu, _⟩ := (hs.frontier.queued _).1 hm
    rw [fresh] at hu
    cases hu
  have old {i : Nat} (hi : i ∈ s.queue.heap) :
      (s.discover h t d).tree.view i = s.tree.view i := by
    rw [view, Function.update_of_ne]
    rintro rfl
    exact absent hi
  have ranked : Queue.Ranked (Search.order (s.discover h t d).tree)
      (Tree.rankAt (s.discover h t d).tree.view) (s.queue.heap.push s.tree.size) := by
    refine ranked_of_isSome fun i hi => ?_
    rcases Array.mem_push.1 hi with hi | rfl
    · rw [old hi]
      exact hs.frontier.isSome hi
    · rw [view, Function.update_self]
      rfl
  refine ⟨hp.step hs view rfl ?_ ?_ ?_, s.tree.size, t.vertex d [h], ?_, rfl, le_refl _⟩
  · rw [queue]
    exact hs.frontier.indexed.push _ absent
  · intro j
    rw [queue, (Queue.perm_push hs.frontier.indexed absent).mem_iff, Array.mem_push, or_comm]
  · rw [queue]
    refine Queue.Sorted.push ?_ hs.frontier.indexed absent ranked
    refine hs.frontier.sorted.congr fun i hi => ?_
    rw [Tree.rankAt, Tree.rankAt, old hi]
  · rw [view, Function.update_self]

/-- A waiting vertex may get nearer, and parents along paths of its new length. -/
theorem Arena.placement {look : View} {i d : Nat} {w : PathVertex} {l : List Nat}
    (ha : Arena db root look) (hw : Waiting look i w) (hle : d ≤ w.distance) (hl : l ≠ [])
    (tight : ∀ p ∈ l, Tight db look p { w with distance := d, parents := l })
    (ahead : ∀ j u, Settled look j u → u.distance ≤ d) :
    Placement db look i { w with distance := d, parents := l } := by
  have genuine := ha.genuine i w hw.1
  refine ⟨?_, ?_, hw.2, genuine, hle.trans (ha.le_max i w hw.1), hl, tight, ahead⟩
  · intro u hu
    obtain rfl := Option.some.inj (hu.symm.trans hw.1)
    exact ⟨hw.2, rfl, hle⟩
  · intro hn
    rw [hw.1] at hn
    cases hn

theorem improve_step {d i : Nat} {w : PathVertex} (hs : Sound db root s)
    (hc : Current s.tree.view h v) (hl : Leads db v.id w.key r.metric.value)
    (hd : v.distance + r.metric.value = d) (hw : s.tree.vertices[i]? = some w)
    (hstatus : w.status ≠ .inTree) :
    Step db root s (s.improve h i w d) ∧ Reached (s.improve h i w d).tree.view w.key d := by
  have hview := Tree.view_of_getElem? hw
  have waits : Waiting s.tree.view i w.bare :=
    ⟨hview, (hs.arena.status i _ hview).resolve_left hstatus⟩
  have queued : i ∈ s.queue.heap := (hs.frontier.queued i).2 ⟨_, waits⟩
  have ahead : ∀ j u, Settled s.tree.view j u → u.distance ≤ d :=
    fun j u hu => (hc.farthest j u hu).trans (hd ▸ Nat.le_add_right ..)
  have same (j : Nat) : j = i ∨ j ∈ s.queue.heap ↔ j ∈ s.queue.heap :=
    or_iff_right_of_imp fun hj => hj ▸ queued
  unfold improve
  split
  · next hlt =>
    -- a shorter path takes the place of all that was known
    have hp := hs.arena.placement (l := [h]) waits hlt.le (List.cons_ne_nil _ _)
      (fun p hp => by rw [List.mem_singleton.1 hp]; exact hc.tight hl hd) ahead
    have view := Tree.view_modify (f := fun v => { v with distance := d, parents := [h] }) hw
    refine ⟨hp.step hs view rfl (hs.frontier.indexed.update _ i) ?_ ?_,
      i, { w.bare with distance := d, parents := [h] }, ?_, rfl, le_refl d⟩
    · intro j
      rw [(Queue.perm_update ..).mem_iff, same]
    · refine hs.frontier.sorted.update hs.frontier.indexed (ranked_of_isSome fun j hj => ?_) ?_ ?_
      · obtain ⟨u, hu⟩ := Option.isSome_iff_exists.1 (hs.frontier.isSome hj)
        obtain ⟨u', hu', _⟩ := hp.grows.kept j u hu
        rw [view]
        exact Option.isSome_iff_exists.2 ⟨u', hu'⟩
      · intro j _ hj
        rw [view, Tree.rankAt, Tree.rankAt, Function.update_of_ne hj]
      · rw [view, Tree.rankAt_eq (Function.update_self ..), Tree.rankAt_eq hview]
        exact Vertex.rank_le_of_distance_lt hlt
    · rw [view, Function.update_self]
      rfl
  · next hge =>
    split
    · next htie =>
      -- a path of equal length adds a parent
      have hp := hs.arena.placement (d := w.distance) (l := w.parents ++ [h]) waits (le_refl _)
        (List.append_ne_nil_of_right_ne_nil _ (List.cons_ne_nil _ _))
        (fun p hp => by
          rcases List.mem_append.1 hp with hp | hp
          · exact hs.arena.tight i _ hview p hp
          · rw [List.mem_singleton.1 hp]
            exact hc.tight hl (hd.trans htie.1))
        (htie.1 ▸ ahead)
      have view := Tree.view_modify (f := fun v => { v with parents := v.parents ++ [h] }) hw
      refine ⟨hp.step hs view rfl hs.frontier.indexed (fun j => (same j).symm) ?_,
        i, { w.bare with parents := w.parents ++ [h] }, ?_, rfl, htie.1.ge⟩
      · refine hs.frontier.sorted.congr fun j _ => ?_
        rw [view]
        by_cases hj : j = i
        · subst hj
          rw [Tree.rankAt_eq (Function.update_self ..), Tree.rankAt_eq hview]
          rfl
        · rw [Tree.rankAt, Tree.rankAt, Function.update_of_ne hj]
      · rw [view, Function.update_self]
        rfl
    · exact ⟨.refl hs, i, _, hview, rfl, not_lt.1 hge⟩

theorem Step.report (hs : Sound db root s) (f : Finding) : Step db root s (s.report f) :=
  ⟨⟨hs.arena, hs.frontier⟩, .refl _, rfl⟩

theorem offer_step (hs : Sound db root s) (hc : Current s.tree.view h v)
    (ht : target? db v.id r = some t) (hl : Leads db v.id t.key r.metric.value) :
    Step db root s (s.offer h v t r.metric) ∧ (v.distance + r.metric.value ≤ maxMetric →
      Reached (s.offer h v t r.metric).tree.view t.key (v.distance + r.metric.value)) := by
  rw [offer]
  cases hf : locate? s.tree t.key with
  | none =>
    cases hd : r.metric.extend? v.distance with
    | none =>
      refine ⟨.report hs _, fun hmax => ?_⟩
      have := (Metric.extend?_eq_some_iff (m := r.metric)).2 ⟨rfl, hmax⟩
      rw [hd] at this
      cases this
    | some d =>
      obtain ⟨hsum, hmax⟩ := Metric.extend?_eq_some_iff.1 hd
      have := discover_step hs hc ht hl hsum hmax hf
      exact ⟨this.1, fun _ => hsum ▸ this.2⟩
  | some found =>
    obtain ⟨i, w⟩ := found
    obtain ⟨hw, hk⟩ := locate?_eq_some hf
    simp only [Option.any_some, decide_eq_true_eq]
    split
    · next hin =>
      have hle := hc.farthest i w.bare ⟨Tree.view_of_getElem? hw, hin⟩
      exact ⟨.refl hs, fun _ => ⟨i, w.bare, Tree.view_of_getElem? hw, hk,
        hle.trans (Nat.le_add_right ..)⟩⟩
    · next hin =>
      cases hd : r.metric.extend? v.distance with
      | none =>
        refine ⟨.report hs _, fun hmax => ?_⟩
        have := (Metric.extend?_eq_some_iff (m := r.metric)).2 ⟨rfl, hmax⟩
        rw [hd] at this
        cases this
      | some d =>
        obtain ⟨hsum, -⟩ := Metric.extend?_eq_some_iff.1 hd
        have := improve_step hs hc (hk ▸ hl) hsum hw hin
        rw [hsum, ← hk]
        exact ⟨this.1, fun _ => this.2⟩

/-! ### Relaxing a vertex -/

def Relaxed (db : Database Advertisement) (look : View) (u : PathVertex) : Prop :=
  ∀ k w, Leads db u.id k w → u.distance + w ≤ maxMetric → Reached look k (u.distance + w)

theorem Relaxed.grows {look look' : View} {u : PathVertex} (h : Relaxed db look u)
    (hg : Grows look look') : Relaxed db look' u :=
  fun k w hl hmax => hg.reached (h k w hl hmax)

theorem relaxLink_step {a : Advertisement} (hs : Sound db root s) (hc : Current s.tree.view h v)
    (own : db.get? v.id = some a) (mem : r ∈ a.records) :
    Step db root s (relaxLink db h v s r) ∧ ∀ t, target? db v.id r = some t →
      v.distance + r.metric.value ≤ maxMetric →
      Reached (relaxLink db h v s r).tree.view t.key (v.distance + r.metric.value) := by
  rcases relaxLink_cases db h v s r with ⟨t, ht, he⟩ | ⟨hn, htree, hqueue⟩
  · have := offer_step hs hc ht (leads_of_target? own mem ht)
    rw [he]
    refine ⟨this.1, fun t' ht' => ?_⟩
    obtain rfl := Option.some.inj (ht.symm.trans ht')
    exact this.2
  · refine ⟨⟨⟨?_, ?_⟩, ?_, htree ▸ rfl⟩, fun t ht => ?_⟩
    · rw [htree]
      exact hs.arena
    · rw [htree, hqueue]
      exact hs.frontier
    · rw [htree]
      exact .refl _
    · rw [hn] at ht
      cases ht

theorem foldl_relaxLink_step {a : Advertisement} (own : db.get? v.id = some a)
    (rs : List LinkRecord) (hrs : ∀ r ∈ rs, r ∈ a.records) (s : Search) (hs : Sound db root s)
    (hc : Current s.tree.view h v) :
    Step db root s (rs.foldl (relaxLink db h v) s) ∧ ∀ r ∈ rs, ∀ t, target? db v.id r = some t →
      v.distance + r.metric.value ≤ maxMetric →
      Reached (rs.foldl (relaxLink db h v) s).tree.view t.key (v.distance + r.metric.value) := by
  induction rs generalizing s with
  | nil => exact ⟨.refl hs, nofun⟩
  | cons r rs ih =>
    rw [List.forall_mem_cons] at hrs
    obtain ⟨hstep, hreach⟩ := relaxLink_step hs hc own hrs.1
    obtain ⟨hstep', hreach'⟩ := ih hrs.2 _ hstep.sound (hc.grows hstep.grows)
    refine ⟨hstep.trans hstep', ?_⟩
    intro r' hr' t ht hmax
    rcases List.mem_cons.1 hr' with rfl | hr'
    · exact hstep'.grows.reached (hreach t ht hmax)
    · exact hreach' r' hr' t ht hmax

theorem relax_router (hs : Sound db root s) (hv : s.tree.vertices[h]? = some v)
    (hc : Current s.tree.view h v) :
    Step db root s (s.relax db h) ∧ Relaxed db (s.relax db h).tree.view v.bare := by
  obtain ⟨-, hadv, hsome⟩ := (hs.arena.genuine h _ (Tree.view_of_getElem? hv)).router hc.router
  obtain ⟨a, own⟩ : ∃ a, db.get? v.id = some a := Option.isSome_iff_exists.1 hsome
  rw [relax, hv]
  dsimp only
  rw [show v.advertisement = some a from hadv.trans own, Option.elim_some]
  obtain ⟨hstep, hreach⟩ := foldl_relaxLink_step own a.records (fun _ hr => hr) s hs hc
  refine ⟨hstep, fun k w hl hmax => ?_⟩
  obtain ⟨b, r, t, own', mem, ht, rfl, rfl⟩ := target?_of_leads hl
  obtain rfl := Option.some.inj (own.symm.trans own')
  exact hreach r mem t ht hmax

theorem relax_network (hs : Sound db root s) (hv : s.tree.vertices[h]? = some v)
    (htype : v.type = .network) : s.relax db h = s := by
  have hg := (hs.arena.genuine h _ (Tree.view_of_getElem? hv)).network htype
  rw [relax, hv]
  dsimp only
  rw [show v.advertisement = none from hg.1]
  rfl

end Offer

end Search

end LinkState
