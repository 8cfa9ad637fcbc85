import LinkState.Proofs.Search.Steps

/-! A whole search. It chooses the waiting vertex of least rank until none waits, and there is a
vertex to choose no more often than `vertexBound` says. In the end every vertex is settled and every
router relaxed, so every walk of admitted length leads to a vertex that is no farther away. -/

namespace LinkState

namespace Search

variable {db : Database Advertisement} {root : Address} {s : Search} {h : Nat}

/-! ### Choosing a vertex -/

/-- The vertex at `h` was settled last, and all other settled routers are relaxed. -/
structure Choice (db : Database Advertisement) (root : Address) (s : Search) (h : Nat) : Prop where
  sound : Sound db root s
  settled : ∃ v, Settled s.tree.view h v ∧ ∀ i u, Settled s.tree.view i u → u.distance ≤ v.distance
  relaxed : ∀ i u, i ≠ h → Settled s.tree.view i u → u.type = .router → Relaxed db s.tree.view u

theorem enter_order {v : PathVertex} (hv : s.tree.view h = some v)
    (hps : ∀ p ∈ v.parents, (s.tree.view p).isSome) :
    (s.enter h).queue = s.queue ∧ (s.enter h).tree.order = s.tree.order.push h ∧
      (s.enter h).tree.view = Function.update s.tree.view h (some (settle v)) := by
  obtain ⟨cs, hw, _⟩ := Tree.view_eq_some_iff.1 hv
  have hspec := Tree.settle_spec hv hps
  rw [enter, hw]
  dsimp only
  split
  · exact ⟨rfl, hspec⟩
  · exact ⟨rfl, hspec⟩

theorem Reached.settle {look : View} {v : PathVertex} {k : VertexKey} {d : Nat}
    (hr : Reached look k d) (hv : look h = some v) :
    Reached (Function.update look h (some (settle v))) k d := by
  obtain ⟨i, u, hu, hk, hd⟩ := hr
  by_cases hi : i = h
  · subst hi
    obtain rfl := Option.some.inj (hu.symm.trans hv)
    exact ⟨i, Search.settle u, Function.update_self .., hk, hd⟩
  · exact ⟨i, u, (Function.update_of_ne hi ..).trans hu, hk, hd⟩

/-- Relaxing the vertex that was settled last leaves every settled router relaxed. -/
theorem Choice.relax (hc : Choice db root s h) :
    Step db root s (s.relax db h) ∧ ∀ i u, Settled (s.relax db h).tree.view i u →
      u.type = .router → Relaxed db (s.relax db h).tree.view u := by
  obtain ⟨v, hv, hfar⟩ := hc.settled
  obtain ⟨cs, hw, hbare⟩ := Tree.view_eq_some_iff.1 hv.1
  have same : Vertex.bare { v with children := cs } = v := by rw [Vertex.bare, ← hbare]
  cases htype : v.type with
  | network =>
    rw [relax_network hc.sound hw htype]
    refine ⟨.refl hc.sound, fun i u hu hr => hc.relaxed i u ?_ hu hr⟩
    rintro rfl
    obtain rfl := Option.some.inj (hu.1.symm.trans hv.1)
    rw [htype] at hr
    cases hr
  | router =>
    obtain ⟨hstep, hrelaxed⟩ := relax_router hc.sound hw ⟨same ▸ hv, htype, hfar⟩
    refine ⟨hstep, fun i u hu hr => ?_⟩
    rw [hstep.grows.settled] at hu
    by_cases hi : i = h
    · subst hi
      obtain rfl := Option.some.inj (hu.1.symm.trans hv.1)
      exact same ▸ hrelaxed
    · exact (hc.relaxed i u hi hu hr).grows hstep.grows

/-- What the queue gives next waits, and its parents are there. -/
theorem Sound.popped {next : Nat} {queue : Queue Nat} (hs : Sound db root s)
    (hpop : s.queue.pop? (order s.tree) = some (next, queue)) :
    ∃ v, Waiting s.tree.view next v ∧ next ∉ s.tree.order ∧
      ∀ p ∈ v.parents, (s.tree.view p).isSome := by
  obtain ⟨v, hv⟩ := (hs.frontier.queued next).1
    ((Queue.perm_pop hpop).mem_iff.1 Array.mem_push_self)
  refine ⟨v, hv, ?_, ?_⟩
  · intro hm
    obtain ⟨u, hu⟩ := (hs.frontier.settled next).1 hm
    exact not_settled_of_waiting hv hu
  · intro p hp
    obtain ⟨u, _, hu, _⟩ := hs.arena.tight next v hv.1 p hp
    exact Option.isSome_iff_exists.2 ⟨u, hu.1⟩

/-- The next choice, after all settled routers are relaxed. -/
theorem Sound.choose {next : Nat} {queue : Queue Nat} (hs : Sound db root s)
    (hpop : s.queue.pop? (order s.tree) = some (next, queue))
    (hr : ∀ i u, Settled s.tree.view i u → u.type = .router → Relaxed db s.tree.view u) :
    Choice db root ({ s with queue := queue }.enter next) next ∧
      ({ s with queue := queue }.enter next).tree.order.size = s.tree.order.size + 1 := by
  obtain ⟨v, hv, -, hps⟩ := hs.popped hpop
  obtain ⟨hqueue, horder, hview⟩ := enter_order (s := { s with queue := queue }) hv.1 hps
  refine ⟨⟨⟨?_, ?_⟩, ⟨settle v, ?_, ?_⟩, ?_⟩, ?_⟩
  · rw [hview]
    exact hs.arena.settle hv
  · rw [hview, hqueue, horder]
    exact hs.frontier.settle hs.arena hv hs.frontier.ranked hpop
  · rw [hview]
    exact settled_update_self
  · intro i u hu
    rw [hview] at hu
    by_cases hi : i = next
    · subst hi
      obtain rfl := Option.some.inj (hu.1.symm.trans (Function.update_self ..))
      exact le_refl _
    · exact hs.frontier.behind i next u v ((settled_update_of_ne hi).1 hu) hv
  · intro i u hi hu hrouter
    rw [hview] at hu ⊢
    intro k w hl hmax
    exact (hr i u ((settled_update_of_ne hi).1 hu) hrouter k w hl hmax).settle hv.1
  · rw [horder, Array.size_push]

/-! ### The number of choices -/

/-- A key for each advertisement and one for each of its stub records. -/
def keysOf (e : Address × Advertisement) : List VertexKey :=
  .router e.1 :: e.2.stubs.map fun r =>
    .network r.id (prefixLength (Mask.ofAddress r.data).toOption)

theorem length_keysOf (db : Database Advertisement) :
    (db.entries.flatMap keysOf).length = vertexBound db := by
  have length (e : Address × Advertisement) : (keysOf e).length = 1 + e.2.stubs.length := by
    rw [keysOf, List.length_cons, List.length_map, Nat.add_comm]
  simp only [List.length_flatMap, vertexBound, length, List.sum_eq_foldl, List.foldl_map]

theorem mem_entries_of_get? {α : Type} {db : Database α} {id : Address} {a : α}
    (h : db.get? id = some a) : (id, a) ∈ db.entries := by
  rw [Database.get?] at h
  generalize db.entries = es at h
  induction es with
  | nil => cases h
  | cons e es ih =>
    obtain ⟨k, b⟩ := e
    rw [Database.find?] at h
    split at h
    · next hk =>
      subst hk
      obtain rfl := Option.some.inj h
      exact List.mem_cons_self ..
    · exact List.mem_cons_of_mem _ (ih h)

theorem mem_keysOf_of_walk {k : VertexKey} {d : Nat} (hw : Walk db root k d) :
    k ∈ db.entries.flatMap keysOf := by
  have router {id : Address} (h : (db.get? id).isSome) :
      VertexKey.router id ∈ db.entries.flatMap keysOf := by
    obtain ⟨a, ha⟩ := Option.isSome_iff_exists.1 h
    exact List.mem_flatMap.2 ⟨_, mem_entries_of_get? ha, List.mem_cons_self ..⟩
  cases hw with
  | start h => exact router h
  | step _ l =>
    cases l with
    | router _ _ _ far => exact router (far ▸ rfl)
    | network own mem type mask =>
      refine List.mem_flatMap.2 ⟨_, mem_entries_of_get? own, List.mem_cons_of_mem _ ?_⟩
      refine List.mem_map.2 ⟨_, List.mem_filter.2 ⟨mem, decide_eq_true type⟩, ?_⟩
      rw [mask]
      rfl

/-- There are no more vertices than keys that walks lead to. -/
theorem Sound.length_le (hs : Sound db root s) {is : List Nat} (hn : is.Nodup)
    (hview : ∀ i ∈ is, ∃ v, s.tree.view i = some v) {ks : List VertexKey}
    (hks : ∀ k d, Walk db root k d → k ∈ ks) : is.length ≤ ks.length := by
  let keyAt (h : Nat) : VertexKey := (s.tree.view h).elim (.router root) Vertex.key
  have look {h : Nat} (hm : h ∈ is) : ∃ v, s.tree.view h = some v ∧ keyAt h = v.key := by
    obtain ⟨v, hv⟩ := hview h hm
    exact ⟨v, hv, by simp only [keyAt, hv, Option.elim_some]⟩
  have hnodup : (is.map keyAt).Nodup := by
    refine hn.map_on fun i hi j hj heq => ?_
    obtain ⟨v, hv, hkv⟩ := look hi
    obtain ⟨w, hw, hkw⟩ := look hj
    exact hs.arena.keys i j v w hv hw (hkv.symm.trans (heq.trans hkw))
  have hsub : is.map keyAt ⊆ ks := by
    intro k hk
    obtain ⟨i, hi, rfl⟩ := List.mem_map.1 hk
    obtain ⟨v, hv, hkv⟩ := look hi
    rw [hkv]
    exact hks v.key v.distance (hs.arena.walk i v hv)
  have hle := (List.Nodup.subperm hnodup hsub).length_le
  rwa [List.length_map] at hle

theorem Sound.size_order_le (hs : Sound db root s) : s.tree.order.size ≤ vertexBound db := by
  have hle := hs.length_le hs.frontier.nodup (fun i hi => ?_) fun k d => mem_keysOf_of_walk
  · rwa [Array.length_toList, length_keysOf] at hle
  · obtain ⟨v, hv, -⟩ := (hs.frontier.settled i).1 (Array.mem_toList_iff.1 hi)
    exact ⟨v, hv⟩

/-! ### The beginning and the end -/

def rootVertex (root : Address) (a : Advertisement) : PathVertex :=
  settle (.fresh .router root none (some a) 0)

theorem lone_root {a : Advertisement} {look : View} (hroot : db.get? root = some a)
    (hlook : look = Function.update (fun _ => none) 0 (some (rootVertex root a))) :
    Arena db root look ∧ Frontier look #[0] .empty := by
  have only {i : Nat} {u : PathVertex} (hu : look i = some u) : i = 0 ∧ u = rootVertex root a := by
    rw [hlook] at hu
    rcases update_eq_some hu with h | ⟨_, h⟩
    · exact h
    · cases h
  have settled : Settled look 0 (rootVertex root a) :=
    ⟨by rw [hlook, Function.update_self], rfl⟩
  have idle {i : Nat} {u : PathVertex} (hu : Waiting look i u) : False := by
    obtain ⟨rfl, rfl⟩ := only hu.1
    exact not_settled_of_waiting hu settled
  constructor
  · refine ⟨⟨_, settled, rfl, rfl, rfl⟩, ?_, ?_, ?_, ?_, ?_, ?_, ?_⟩
    · intro i j v w hv hw _
      rw [(only hv).1, (only hw).1]
    · intro i v hv
      rw [(only hv).2]
      exact ⟨rfl, hroot.symm, hroot ▸ rfl⟩
    · intro i v hv
      rw [(only hv).2]
      exact .start (hroot ▸ rfl)
    · intro i v hv
      rw [(only hv).2]
      exact Nat.zero_le _
    · intro i v hv
      rw [(only hv).2]
      exact .inl rfl
    · intro i v hv hi
      exact absurd (only hv).1 hi
    · intro i v hv p hp
      rw [(only hv).2] at hp
      cases hp
  · refine ⟨?_, List.nodup_singleton 0, ?_, ?_, Queue.indexed_empty, ?_, ?_⟩
    · intro i
      refine ⟨fun hi => ?_, fun ⟨v, hv⟩ => ?_⟩
      · rw [Array.mem_singleton.1 hi]
        exact ⟨_, settled⟩
      · rw [(only hv.1).1]
        exact Array.mem_singleton.2 rfl
    · intro i v hv p hp
      rw [(only hv.1).2] at hp
      cases hp
    · intro i
      exact ⟨fun hi => absurd hi (Array.not_mem_empty i), fun ⟨v, hv⟩ => (idle hv).elim⟩
    · intro i y z _ hy
      cases hy
    · intro i j u v _ hv
      exact (idle hv).elim

/-- A search with nothing but its root, which is not settled yet. -/
def start (root : Address) (a : Advertisement) : Search :=
  { empty with tree := Tree.empty.append (.fresh .router root none (some a) 0) }

theorem view_start (root : Address) (a : Advertisement) : (start root a).tree.view =
    Function.update (fun _ => none) 0 (some (.fresh .router root none (some a) 0)) :=
  Tree.view_append ..

theorem view_start_zero (root : Address) (a : Advertisement) :
    (start root a).tree.view 0 = some (.fresh .router root none (some a) 0) := by
  rw [view_start, Function.update_self]

theorem run_eq {a : Advertisement} (ha : db.get? root = some a) : run db root =
    let s := loop db (vertexBound db) ((start root a).enter 0) 0
    s.report (.finished root s.tree.order.size) := by
  rw [run, ha]
  rfl

theorem choice_root {a : Advertisement} (hroot : db.get? root = some a) :
    Choice db root ((start root a).enter 0) 0 ∧ ((start root a).enter 0).tree.order.size = 1 := by
  obtain ⟨hqueue, horder, henter⟩ := enter_order (view_start_zero root a) nofun
  rw [view_start, Function.update_idem] at henter
  obtain ⟨harena, hfrontier⟩ := lone_root hroot henter
  refine ⟨⟨⟨harena, ?_⟩, ?_, ?_⟩, ?_⟩
  · rw [horder, hqueue]
    exact hfrontier
  · refine ⟨rootVertex root a, ?_, ?_⟩
    · rw [henter]
      exact settled_update_self
    · intro i u hu
      rw [henter] at hu
      rcases update_eq_some hu.1 with ⟨_, rfl⟩ | ⟨_, h⟩
      · exact le_refl _
      · cases h
  · intro i u hi hu
    rw [henter] at hu
    rcases update_eq_some hu.1 with ⟨h, _⟩ | ⟨_, h⟩
    · exact absurd h hi
    · cases h
  · rw [horder]
    rfl


structure Finished (db : Database Advertisement) (root : Address) (s : Search) : Prop where
  sound : Sound db root s
  settled : ∀ i u, s.tree.view i = some u → Settled s.tree.view i u
  relaxed : ∀ i u, s.tree.view i = some u → u.type = .router → Relaxed db s.tree.view u

theorem Finished.order_inj (hf : Finished db root s) {i j h : Nat}
    (hi : s.tree.order[i]? = some h) (hj : s.tree.order[j]? = some h) : i = j := by
  rw [← Array.getElem?_toList] at hi hj
  exact (List.getElem?_inj (List.getElem?_eq_some_iff.1 hi).1 hf.sound.frontier.nodup).1
    (hi.trans hj.symm)

/-- With fuel for more choices than there can be, a search ends because nothing waits, in a state
that has what every choice passes on to the next. -/
theorem loop_induction {P : Search → Nat → Prop}
    (hnext : ∀ s h next queue, Choice db root s h → P s h →
      (s.relax db h).queue.pop? (order (s.relax db h).tree) = some (next, queue) →
      P ({ s.relax db h with queue := queue }.enter next) next)
    (fuel : Nat) (s : Search) (h : Nat) (hc : Choice db root s h) (hp : P s h)
    (hfuel : vertexBound db < s.tree.order.size + fuel) :
    ∃ s' h', loop db fuel s h = s'.relax db h' ∧ Choice db root s' h' ∧ P s' h' ∧
      (s'.relax db h').queue.pop? (order (s'.relax db h').tree) = none := by
  induction fuel generalizing s h with
  | zero =>
    have := hc.sound.size_order_le
    omega
  | succ fuel ih =>
    obtain ⟨hstep, hrelaxed⟩ := hc.relax
    rw [loop]
    cases hpop : (s.relax db h).queue.pop? (order (s.relax db h).tree) with
    | none => exact ⟨s, h, rfl, hc, hp, hpop⟩
    | some popped =>
      obtain ⟨next, queue⟩ := popped
      obtain ⟨hchoice, hsize⟩ := hstep.sound.choose hpop hrelaxed
      refine ih _ _ hchoice (hnext s h next queue hc hp hpop) ?_
      rw [hsize, hstep.order]
      omega

theorem loop_finished (fuel : Nat) (s : Search) (h : Nat) (hc : Choice db root s h)
    (hfuel : vertexBound db < s.tree.order.size + fuel) : Finished db root (loop db fuel s h) := by
  obtain ⟨s', h', hloop, hc', -, hpop⟩ := loop_induction (P := fun _ _ => True)
    (fun _ _ _ _ _ _ _ => trivial) fuel s h hc trivial hfuel
  obtain ⟨hstep, hrelaxed⟩ := hc'.relax
  have hall : ∀ i u, (s'.relax db h').tree.view i = some u →
      Settled (s'.relax db h').tree.view i u := by
    intro i u hu
    refine ⟨hu, (hstep.sound.arena.status i u hu).resolve_right fun hwaits => ?_⟩
    have hm := (hstep.sound.frontier.queued i).2 ⟨u, hu, hwaits⟩
    rw [Queue.pop?_eq_none_iff.1 hpop] at hm
    exact absurd hm (Array.not_mem_empty i)
  rw [hloop]
  exact ⟨hstep.sound, hall, fun i u hu => hrelaxed i u (hall i u hu)⟩

theorem run_finished (hroot : (db.get? root).isSome) : Finished db root (run db root) := by
  obtain ⟨a, ha⟩ := Option.isSome_iff_exists.1 hroot
  obtain ⟨hchoice, hsize⟩ := choice_root ha
  rw [run_eq ha]
  have hf := loop_finished (vertexBound db) _ 0 hchoice (by omega)
  exact ⟨⟨hf.sound.arena, hf.sound.frontier⟩, hf.settled, hf.relaxed⟩

theorem run_noRoot (hroot : db.get? root = none) : (run db root).tree = .empty := by
  rw [run, hroot]
  rfl

theorem Finished.reached (hf : Finished db root s) {k : VertexKey} {d : Nat}
    (hw : Walk db root k d) (hmax : d ≤ maxMetric) : Reached s.tree.view k d := by
  induction hw with
  | start _ =>
    obtain ⟨v, hv, hk, hd, _⟩ := hf.sound.arena.origin
    exact ⟨0, v, hv.1, hk, hd.le⟩
  | @step id k d w _ hl ih =>
    obtain ⟨i, u, hu, hk, hd⟩ := ih (by omega)
    obtain ⟨htype, rfl⟩ := key_eq_router_iff.1 hk
    obtain ⟨j, x, hx, hkx, hdx⟩ := hf.relaxed i u hu htype k w hl (by omega)
    exact ⟨j, x, hx, hkx, by omega⟩

end Search

end LinkState
