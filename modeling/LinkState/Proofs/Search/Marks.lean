import LinkState.Proofs.ShortestPaths

/-! The marks that a search leaves. What it reports of a router, in order, makes the status of the
router's vertex, and a router without a vertex is not reported. So in the end the routers of the
tree are marked as in the tree, and the others are not marked. -/

namespace LinkState

/-- The status of a router after a finding, and `st` before it. -/
def Finding.remark (id : Address) (st : Status) : Finding → Status
  | .marked r new => if r = id then new else st
  | _ => st

theorem Vertex.Genuine.isSome_advertisement {db : Database Advertisement} {v : PathVertex}
    (hg : v.Genuine db) : v.advertisement.isSome = true ↔ v.type = .router := by
  cases htype : v.type with
  | router =>
    obtain ⟨-, hadv, hsome⟩ := hg.router htype
    rw [hadv]
    exact iff_of_true hsome rfl
  | network =>
    rw [(hg.network htype).1]
    exact iff_of_false nofun nofun

namespace Search

variable {db : Database Advertisement} {root : Address} {s s' : Search} {h : Nat} {v : PathVertex}
  {t : Target}

/-- The status that the findings so far leave a router with. -/
def mark (s : Search) (id : Address) : Status := s.trace.foldl (Finding.remark id) .notExplored

theorem mark_report (s : Search) (f : Finding) (id : Address) :
    (s.report f).mark id = f.remark id (s.mark id) := by
  simp [mark, report]

structure Marked (s : Search) : Prop where
  present : ∀ i v, s.tree.view i = some v → ∀ id, v.key = .router id → s.mark id = v.status
  absent : ∀ id, (∀ i v, s.tree.view i = some v → v.key ≠ .router id) → s.mark id = .notExplored

/-- A vertex is put in, in place of one of the same key or as the first of its key, and marked. -/
theorem Marked.put {i : Nat} {w : PathVertex} (hm : Marked s)
    (hview : s'.tree.view = Function.update s.tree.view i (some w))
    (hold : ∀ u, s.tree.view i = some u → u.key = w.key)
    (hother : ∀ j u, j ≠ i → s.tree.view j = some u → u.key ≠ w.key)
    (hmark : ∀ id, s'.mark id = if w.key = .router id then w.status else s.mark id) :
    Marked s' := by
  constructor
  · intro j u hu id hk
    rw [hview] at hu
    rw [hmark]
    rcases update_eq_some hu with ⟨-, rfl⟩ | ⟨hj, hu⟩
    · rw [if_pos hk]
    · rw [if_neg fun hw => hother j u hj hu (hk.trans hw.symm)]
      exact hm.present j u hu id hk
  · intro id hno
    have hw : w.key ≠ .router id := hno i w (by rw [hview, Function.update_self])
    rw [hmark, if_neg hw]
    refine hm.absent id fun j u hu => ?_
    by_cases hj : j = i
    · rw [hold u (hj ▸ hu)]
      exact hw
    · exact hno j u (by rw [hview, Function.update_of_ne hj, hu])

theorem Marked.congr (hm : Marked s) (hview : s'.tree.view = s.tree.view)
    (hmark : ∀ id, s'.mark id = s.mark id) : Marked s' := by
  constructor
  · intro i v hv id hk
    rw [hmark]
    exact hm.present i v (hview ▸ hv) id hk
  · intro id hno
    rw [hmark]
    exact hm.absent id (hview ▸ hno)

/-- A vertex is reported if it is a router. -/
theorem mark_announced (hg : v.Genuine db) (s : Search) (st : Status) (id : Address) :
    (if v.advertisement.isSome then s.report (.marked v.id st) else s).mark id =
      if v.key = .router id then st else s.mark id := by
  simp only [hg.isSome_advertisement, key_eq_router_iff]
  by_cases hr : v.type = .router
  · simp only [hr, if_true, true_and, mark_report, Finding.remark]
  · simp only [hr, if_false, false_and]

theorem marked_discover {d : Nat} (hm : Marked s) (hg : (t.vertex d [h]).Genuine db)
    (hnone : locate? s.tree t.key = none) : Marked (s.discover h t d) := by
  refine hm.put (i := s.tree.size) (w := t.vertex d [h]) ?_ ?_ ?_ ?_
  · have htree : (s.discover h t d).tree = s.tree.append (t.vertex d [h]) := rfl
    rw [htree, Tree.view_append]
    rfl
  · intro u hu
    rw [Tree.view_size_le (le_refl _)] at hu
    cases hu
  · intro j u _ hu
    exact key_ne_of_locate?_eq_none hnone hu
  · exact fun id => mark_announced hg s .candidate id

theorem marked_improve {i d : Nat} {w : PathVertex} (hs : Sound db root s) (hm : Marked s)
    (hw : s.tree.vertices[i]? = some w) : Marked (s.improve h i w d) := by
  have hview := Tree.view_of_getElem? hw
  -- the vertex keeps its key and its status
  have keep {f : PathVertex → PathVertex} (hkey : (f w).bare.key = w.bare.key)
      (hstatus : (f w).bare.status = w.bare.status) (queue : Queue Nat) :
      Marked { s with tree := s.tree.modify i f, queue := queue } := by
    refine hm.put (Tree.view_modify hw) ?_ ?_ ?_
    · intro u hu
      obtain rfl := Option.some.inj (hview.symm.trans hu)
      exact hkey.symm
    · intro j u hj hu hk
      exact hj (hs.arena.keys j i u w.bare hu hview (hk.trans hkey))
    · intro id
      split
      · next hk =>
        rw [hstatus]
        exact hm.present i _ hview id (hkey ▸ hk)
      · rfl
  unfold improve
  split
  · exact keep rfl rfl _
  · split
    · exact keep rfl rfl _
    · exact hm

theorem marked_offer {r : LinkRecord} (hs : Sound db root s) (hm : Marked s)
    (ht : target? db v.id r = some t) : Marked (s.offer h v t r.metric) := by
  rw [offer]
  cases hf : locate? s.tree t.key with
  | none =>
    cases r.metric.extend? v.distance with
    | none => exact hm.congr rfl (mark_report s _)
    | some d => exact marked_discover hm (Target.genuine ht d [h]) hf
  | some found =>
    dsimp only
    split
    · exact hm
    · cases r.metric.extend? v.distance with
      | none => exact hm.congr rfl (mark_report s _)
      | some d => exact marked_improve hs hm (locate?_eq_some hf).1

theorem marked_relaxLink (hs : Sound db root s) (hm : Marked s) (r : LinkRecord) :
    Marked (relaxLink db h v s r) := by
  unfold relaxLink
  generalize htype : r.type = type
  cases type with
  | pointToPoint =>
    cases hfar : (db.get? r.id).filter (linksBack · v.id) with
    | some a => exact marked_offer hs hm (r := r) (by simp [target?, htype, hfar])
    | none => exact hm.congr rfl (mark_report s _)
  | stubNetwork =>
    cases hmask : Mask.ofAddress r.data with
    | ok m => exact marked_offer hs hm (r := r) (by simp [target?, htype, hmask, Except.toOption])
    | error f => exact hm.congr rfl (mark_report s _)
  | unknown | transitNetwork | virtualLink | other => exact hm

theorem marked_foldl_relaxLink {a : Advertisement} (own : db.get? v.id = some a)
    (rs : List LinkRecord) (hrs : ∀ r ∈ rs, r ∈ a.records) (s : Search) (hs : Sound db root s)
    (hc : Current s.tree.view h v) (hm : Marked s) : Marked (rs.foldl (relaxLink db h v) s) := by
  induction rs generalizing s with
  | nil => exact hm
  | cons r rs ih =>
    rw [List.forall_mem_cons] at hrs
    obtain ⟨hstep, -⟩ := relaxLink_step hs hc own hrs.1
    exact ih hrs.2 _ hstep.sound (hc.grows hstep.grows) (marked_relaxLink hs hm r)

theorem Choice.marked_relax (hc : Choice db root s h) (hm : Marked s) : Marked (s.relax db h) := by
  obtain ⟨v, hv, hfar⟩ := hc.settled
  obtain ⟨cs, hw, hbare⟩ := Tree.view_eq_some_iff.1 hv.1
  have same : Vertex.bare { v with children := cs } = v := by rw [Vertex.bare, ← hbare]
  have hg := hc.sound.arena.genuine h v hv.1
  cases htype : v.type with
  | network =>
    rw [relax_network hc.sound hw htype]
    exact hm
  | router =>
    obtain ⟨-, hadv, hsome⟩ := hg.router htype
    obtain ⟨a, own⟩ := Option.isSome_iff_exists.1 hsome
    rw [Search.relax, hw]
    dsimp only
    rw [hadv.trans own, Option.elim_some]
    exact marked_foldl_relaxLink (v := { v with children := cs }) own a.records (fun _ hr => hr) s
      hc.sound ⟨same ▸ hv, htype, hfar⟩ hm

theorem mark_enter (hg : v.Genuine db) (hv : s.tree.view h = some v) (id : Address) :
    (s.enter h).mark id = if v.key = .router id then .inTree else s.mark id := by
  obtain ⟨cs, hw, -⟩ := Tree.view_eq_some_iff.1 hv
  rw [enter, hw]
  exact mark_announced hg s .inTree id

theorem marked_enter (hg : v.Genuine db) (hv : s.tree.view h = some v)
    (hps : ∀ p ∈ v.parents, (s.tree.view p).isSome)
    (hkeys : ∀ j u, j ≠ h → s.tree.view j = some u → u.key ≠ v.key) (hm : Marked s) :
    Marked (s.enter h) := by
  obtain ⟨-, -, hview⟩ := enter_order hv hps
  refine hm.put hview ?_ hkeys fun id => mark_enter hg hv id
  intro u hu
  obtain rfl := Option.some.inj (hu.symm.trans hv)
  rfl

/-! ### A whole search -/

theorem Marked.choose {next : Nat} {queue : Queue Nat} (hs : Sound db root s) (hm : Marked s)
    (hpop : s.queue.pop? (order s.tree) = some (next, queue)) :
    Marked ({ s with queue := queue }.enter next) := by
  obtain ⟨v, hv, -, hps⟩ := hs.popped hpop
  refine marked_enter (s := { s with queue := queue }) (hs.arena.genuine next v hv.1) hv.1 hps ?_
    (hm.congr rfl fun _ => rfl)
  intro j u hj hu hk
  exact hj (hs.arena.keys j next u v hu hv.1 hk)

theorem marked_root {a : Advertisement} (hroot : db.get? root = some a) :
    Marked ((start root a).enter 0) := by
  have only {i : Nat} {u : PathVertex} (hu : (start root a).tree.view i = some u) : i = 0 := by
    rw [view_start] at hu
    rcases update_eq_some hu with ⟨hi, -⟩ | ⟨-, hu⟩
    · exact hi
    · cases hu
  have hsome : (db.get? root).isSome := by rw [hroot, Option.isSome_some]
  have hg : Vertex.Genuine db (.fresh .router root none (some a) 0) := ⟨rfl, hroot.symm, hsome⟩
  refine marked_enter hg (view_start_zero root a) nofun
    (fun j u hj hu => absurd (only hu) hj) ⟨fun i v hv id _ => ?_, fun id _ => rfl⟩
  -- a vertex that was not reported yet is not explored
  obtain rfl := only hv
  obtain rfl := Option.some.inj ((view_start_zero root a).symm.trans hv)
  rfl

theorem run_marked (db : Database Advertisement) (root : Address) : Marked (run db root) := by
  cases hroot : db.get? root with
  | none =>
    refine ⟨fun i v hv => ?_, fun _ _ => ?_⟩
    · rw [run_noRoot hroot] at hv
      cases hv
    · rw [run, hroot]
      rfl
  | some a =>
    obtain ⟨hchoice, hsize⟩ := choice_root hroot
    obtain ⟨s', h', hloop, hc, hm, -⟩ := loop_induction (P := fun s _ => Marked s)
      (fun s h next queue hc hm hpop => (hc.marked_relax hm).choose hc.relax.1.sound hpop)
      (vertexBound db) _ 0 hchoice (marked_root hroot) (by omega)
    rw [run_eq hroot, hloop]
    exact (hc.marked_relax hm).congr rfl (mark_report _ _)

/-- The routers of the tree are marked as in the tree. -/
theorem mark_run_of_holds {id : Address} {d : Nat}
    (hd : (shortestPaths db root).Holds (.router id) d) : (run db root).mark id = .inTree := by
  by_cases hroot : (db.get? root).isSome
  · obtain ⟨i, v, hv, hk, -⟩ := Tree.view_of_holds hd
    rw [(run_marked db root).present i v hv id hk]
    exact ((run_finished hroot).settled i v hv).2
  · rw [shortestPaths, run_noRoot (Option.not_isSome_iff_eq_none.1 hroot)] at hd
    obtain ⟨e, he, -⟩ := hd
    cases he

/-- The routers that are not in the tree are not marked. -/
theorem mark_run_of_not_holds {id : Address}
    (hno : ¬ ∃ d, (shortestPaths db root).Holds (.router id) d) :
    (run db root).mark id = .notExplored := by
  refine (run_marked db root).absent id fun i v hv hk => ?_
  by_cases hroot : (db.get? root).isSome
  · exact hno ⟨v.distance, (run_finished hroot).holds_iff.2 ⟨i, v, hv, hk, rfl⟩⟩
  · rw [run_noRoot (Option.not_isSome_iff_eq_none.1 hroot)] at hv
    cases hv

theorem mark_run_eq_inTree_iff {id : Address} :
    (run db root).mark id = .inTree ↔ ∃ d, (shortestPaths db root).Holds (.router id) d := by
  constructor
  · intro hin
    by_contra hno
    rw [mark_run_of_not_holds hno] at hin
    cases hin
  · intro hd
    obtain ⟨d, hd⟩ := hd
    exact mark_run_of_holds hd

end Search

end LinkState
