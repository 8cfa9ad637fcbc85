import LinkState.Proofs.Search.Run

/-! Parents and children. An offer is taken in one of few ways; by all of them the parents of a
vertex stay in the order in which they were settled, and its children are the settled vertices that
it is a parent of. -/

namespace LinkState

namespace Tree

def parentsAt (t : PathTree) (h : Nat) : List Nat := (t.view h).elim [] Vertex.parents

theorem parentsAt_eq {t : PathTree} {h : Nat} {v : PathVertex} (hv : t.view h = some v) :
    t.parentsAt h = v.parents := by
  rw [parentsAt, hv, Option.elim_some]

theorem parentsAt_congr {t t' : PathTree} {h : Nat} (h' : t'.view h = t.view h) :
    t'.parentsAt h = t.parentsAt h := by
  unfold parentsAt
  rw [h']

/-- The parents are settled vertices in their order, the children the settled vertices that have the
vertex as a parent. -/
structure Lineage (t : PathTree) : Prop where
  parents : ∀ h, (t.parentsAt h).Sublist t.order.toList
  children : ∀ h v, t.vertices[h]? = some v →
    v.children = t.order.toList.filter fun i => h ∈ t.parentsAt i

section Place

variable {t t' : PathTree} {i : Nat} {w : PathVertex}

/-- A vertex outside the order may be put in place, with parents from the order. -/
theorem Lineage.place (hl : t.Lineage) (horder : t'.order = t.order)
    (hview : t'.view = Function.update t.view i (some w)) (hi : i ∉ t.order)
    (hsome : ∀ j ∈ t.order, (t.view j).isSome) (hw : w.parents.Sublist t.order.toList)
    (hchildren : ∀ j v, t'.vertices[j]? = some v →
      (∃ u, t.vertices[j]? = some u ∧ v.children = u.children) ∨
        t.view j = none ∧ v.children = []) : t'.Lineage := by
  have hself : t'.parentsAt i = w.parents :=
    parentsAt_eq (by rw [hview, Function.update_self])
  have hother {j : Nat} (hj : j ≠ i) : t'.parentsAt j = t.parentsAt j :=
    parentsAt_congr (by rw [hview, Function.update_of_ne hj])
  have hordered {j : Nat} (hj : j ∈ t.order.toList) : t'.parentsAt j = t.parentsAt j := by
    apply hother
    intro heq
    exact hi (heq ▸ Array.mem_toList_iff.1 hj)
  constructor
  · intro j
    rw [horder]
    by_cases hj : j = i
    · rw [hj, hself]
      exact hw
    · rw [hother hj]
      exact hl.parents j
  · intro j v hv
    rw [horder]
    rcases hchildren j v hv with ⟨u, hu, hc⟩ | ⟨hn, hc⟩
    · rw [hc, hl.children j u hu]
      apply List.filter_congr
      intro k hk
      rw [hordered hk]
    · rw [hc]
      symm
      apply List.filter_eq_nil_iff.2
      intro k hk hm
      rw [decide_eq_true_eq, hordered hk] at hm
      -- parents are in the order, and what is there exists
      have := hsome j (Array.mem_toList_iff.1 ((hl.parents k).subset hm))
      rw [hn] at this
      cases this

end Place

/-- Settling a vertex keeps parents and children in agreement. -/
theorem Lineage.settle {t : PathTree} {h : Nat} {v : PathVertex} (hl : t.Lineage)
    (hn : t.order.toList.Nodup) (hv : t.view h = some v)
    (hps : ∀ p ∈ v.parents, (t.view p).isSome) : (t.settle h).2.Lineage := by
  obtain ⟨horder, hview⟩ := settle_spec hv hps
  have hsame (i : Nat) : (t.settle h).2.parentsAt i = t.parentsAt i := by
    unfold parentsAt
    rw [hview, Function.update_apply]
    split
    · next hi => rw [hi, hv, Option.elim_some, Option.elim_some]
    · rfl
  have hparents := parentsAt_eq hv
  constructor
  · intro i
    rw [hsame, horder, Array.toList_push]
    exact (hl.parents i).trans (List.sublist_append_left ..)
  · intro i w hw
    obtain ⟨u, hu, hc⟩ := settle_children hv hps (hn.sublist (hparents ▸ hl.parents h)) hw
    rw [hc, hl.children i u hu, horder, Array.toList_push, List.filter_append,
      List.filter_singleton]
    simp [hsame, hparents]

theorem children_of_modify {t : PathTree} {i j : Nat} {f : PathVertex → PathVertex} {x : PathVertex}
    (hx : (t.modify i f).vertices[j]? = some x) (hf : ∀ v, (f v).children = v.children) :
    ∃ u, t.vertices[j]? = some u ∧ x.children = u.children := by
  rw [modify, Array.getElem?_modify] at hx
  split at hx
  · obtain ⟨u, hu, rfl⟩ := Option.map_eq_some_iff.1 hx
    exact ⟨u, hu, hf u⟩
  · exact ⟨x, hx, rfl⟩

end Tree

namespace Search

variable {db : Database Advertisement} {root : Address} {s : Search} {h : Nat} {v : PathVertex}
  {t : Target} {d : Nat}

/-! ### How an offer is taken -/

/-- What becomes of the tree when a path over the vertex at `h`, of length `d`, is offered to a
target. -/
inductive Outcome (s : Search) (h : Nat) (t : Target) (d : Nat) : PathTree → Prop
  | settled {i : Nat} {w : PathVertex} (at_ : s.tree.vertices[i]? = some w) (key : w.key = t.key)
      (status : w.status = .inTree) : Outcome s h t d s.tree
  | long (far : maxMetric < d) : Outcome s h t d s.tree
  | known {i : Nat} {w : PathVertex} (at_ : s.tree.vertices[i]? = some w) (key : w.key = t.key)
      (waits : w.status ≠ .inTree) (old : w.distance < d ∨ w.distance = d ∧ h ∈ w.parents) :
      Outcome s h t d s.tree
  | fresh (absent : locate? s.tree t.key = none) : Outcome s h t d (s.tree.append (t.vertex d [h]))
  | nearer {i : Nat} {w : PathVertex} (at_ : s.tree.vertices[i]? = some w) (key : w.key = t.key)
      (waits : w.status ≠ .inTree) (shorter : d < w.distance) :
      Outcome s h t d (s.tree.modify i fun v => { v with distance := d, parents := [h] })
  | equal {i : Nat} {w : PathVertex} (at_ : s.tree.vertices[i]? = some w) (key : w.key = t.key)
      (waits : w.status ≠ .inTree) (same : w.distance = d) (new : h ∉ w.parents) :
      Outcome s h t d (s.tree.modify i fun v => { v with parents := v.parents ++ [h] })

theorem lt_of_extend?_eq_none {m : Metric} {n : Nat} (he : m.extend? n = none) :
    maxMetric < n + m.value := by
  by_contra hle
  have := (Metric.extend?_eq_some_iff (m := m)).2 ⟨rfl, not_lt.1 hle⟩
  rw [he] at this
  cases this

theorem offer_outcome (s : Search) (h : Nat) (v : PathVertex) (t : Target) (m : Metric) :
    Outcome s h t (v.distance + m.value) (s.offer h v t m).tree := by
  rw [offer]
  cases hf : locate? s.tree t.key with
  | none =>
    cases hd : m.extend? v.distance with
    | none => exact .long (lt_of_extend?_eq_none hd)
    | some d =>
      obtain ⟨rfl, -⟩ := Metric.extend?_eq_some_iff.1 hd
      exact .fresh hf
  | some found =>
    obtain ⟨i, w⟩ := found
    obtain ⟨hw, hk⟩ := locate?_eq_some hf
    simp only [Option.any_some, decide_eq_true_eq]
    split
    · next hin => exact .settled hw hk hin
    · next hin =>
      cases hd : m.extend? v.distance with
      | none => exact .long (lt_of_extend?_eq_none hd)
      | some d =>
        obtain ⟨rfl, -⟩ := Metric.extend?_eq_some_iff.1 hd
        unfold improve
        dsimp only
        split
        · next hlt => exact .nearer hw hk hin hlt
        · next hge =>
          split
          · next htie => exact .equal hw hk hin htie.1.symm htie.2
          · next hno =>
            refine .known hw hk hin ?_
            rcases Nat.lt_or_ge w.distance (v.distance + m.value) with hlt | hle
            · exact .inl hlt
            · have heq : w.distance = v.distance + m.value := by omega
              exact .inr ⟨heq, by_contra fun hn => hno ⟨heq.symm, hn⟩⟩

/-! ### What an offer leaves in place -/

structure Improves (t t' : PathTree) : Prop where
  kept : ∀ i v, t.view i = some v → ∃ v', t'.view i = some v' ∧ v'.key = v.key ∧
    (v'.distance < v.distance ∨ v'.distance = v.distance ∧ v.parents ⊆ v'.parents)
  order : ∀ a i : Nat, t.order[a]? = some i → t'.order[a]? = some i

theorem Improves.refl (t : PathTree) : Improves t t :=
  ⟨fun _ v hv => ⟨v, hv, rfl, .inr ⟨rfl, List.Subset.refl _⟩⟩, fun _ _ h => h⟩

theorem Improves.trans {t₁ t₂ t₃ : PathTree} (h : Improves t₁ t₂) (h' : Improves t₂ t₃) :
    Improves t₁ t₃ := by
  refine ⟨fun i v hv => ?_, fun a i ha => h'.order a i (h.order a i ha)⟩
  obtain ⟨v₂, hv₂, hk₂, hd₂⟩ := h.kept i v hv
  obtain ⟨v₃, hv₃, hk₃, hd₃⟩ := h'.kept i v₂ hv₂
  refine ⟨v₃, hv₃, hk₃.trans hk₂, ?_⟩
  rcases hd₂ with hlt | ⟨heq, hsub⟩ <;> rcases hd₃ with hlt' | ⟨heq', hsub'⟩
  · exact .inl (hlt'.trans hlt)
  · exact .inl (heq' ▸ hlt)
  · exact .inl (heq ▸ hlt')
  · exact .inr ⟨heq'.trans heq, List.Subset.trans hsub hsub'⟩

def NoLater (order : Array Nat) (i p : Nat) : Prop :=
  ∃ a b : Nat, a ≤ b ∧ order[a]? = some i ∧ order[b]? = some p

/-- The path of length `d` over `p` to a vertex is known. If the vertex is not nearer, then `p` is a
parent, unless it was settled too late. -/
def Served (t : PathTree) (p : Nat) (k : VertexKey) (d : Nat) : Prop :=
  ∃ i v, t.view i = some v ∧ v.key = k ∧ v.distance ≤ d ∧
    (v.distance = d → p ∈ v.parents ∨ NoLater t.order i p)

theorem Served.improves {t t' : PathTree} {p : Nat} {k : VertexKey} {d : Nat}
    (hs : Served t p k d) (hi : Improves t t') : Served t' p k d := by
  obtain ⟨i, v, hv, hk, hd, hp⟩ := hs
  obtain ⟨v', hv', hk', hd'⟩ := hi.kept i v hv
  refine ⟨i, v', hv', hk'.trans hk, by omega, ?_⟩
  intro heq
  rcases hd' with hlt | ⟨hsame, hsub⟩
  · omega
  · rcases hp (hsame ▸ heq) with hm | ⟨a, b, hab, ha, hb⟩
    · exact .inl (hsub hm)
    · exact .inr ⟨a, b, hab, hi.order a i ha, hi.order b p hb⟩

/-- The last handle is no earlier than any other. -/
theorem noLater_back {order : Array Nat} {i h : Nat} (hlast : order.back? = some h)
    (hi : i ∈ order) : NoLater order i h := by
  obtain ⟨a, ha⟩ := Array.mem_iff_getElem?.1 hi
  rw [Array.back?_eq_getElem?] at hlast
  have := (Array.getElem?_eq_some_iff.1 ha).1
  exact ⟨a, order.size - 1, by omega, ha, hlast⟩

section Outcome

variable {t' : PathTree}

theorem Outcome.improves (ho : Outcome s h t d t') : Improves s.tree t' := by
  have put {i : Nat} {u w : PathVertex} {t' : PathTree} (horder : t'.order = s.tree.order)
      (hview : t'.view = Function.update s.tree.view i (some w))
      (hold : ∀ u, s.tree.view i = some u → w.key = u.key ∧
        (w.distance < u.distance ∨ w.distance = u.distance ∧ u.parents ⊆ w.parents)) :
      Improves s.tree t' := by
    refine ⟨fun j x hx => ?_, fun a i ha => horder ▸ ha⟩
    by_cases hj : j = i
    · subst hj
      exact ⟨w, by rw [hview, Function.update_self], hold x hx⟩
    · refine ⟨x, ?_, rfl, .inr ⟨rfl, List.Subset.refl _⟩⟩
      rw [hview, Function.update_of_ne hj, hx]
  cases ho with
  | settled | long | known => exact .refl _
  | fresh absent =>
    refine put (u := t.vertex d [h]) rfl (Tree.view_append ..) fun u hu => ?_
    rw [Tree.view_size_le (le_refl _)] at hu
    cases hu
  | nearer at_ key waits shorter =>
    refine put (u := t.vertex d [h]) rfl (Tree.view_modify at_) fun u hu => ?_
    obtain rfl := Option.some.inj ((Tree.view_of_getElem? at_).symm.trans hu)
    exact ⟨rfl, .inl shorter⟩
  | equal at_ key waits same new =>
    refine put (u := t.vertex d [h]) rfl (Tree.view_modify at_) fun u hu => ?_
    obtain rfl := Option.some.inj ((Tree.view_of_getElem? at_).symm.trans hu)
    exact ⟨rfl, .inr ⟨rfl, List.subset_append_left ..⟩⟩

/-- An admitted offer is served. -/
theorem Outcome.served (ho : Outcome s h t d t') (hs : Sound db root s)
    (hc : Current s.tree.view h v) (hlast : s.tree.order.back? = some h) (hd : v.distance ≤ d)
    (hmax : d ≤ maxMetric) : Served t' h t.key d := by
  cases ho with
  | long far => omega
  | @settled i w at_ key status =>
    have hw : Settled s.tree.view i w.bare := ⟨Tree.view_of_getElem? at_, status⟩
    refine ⟨i, w.bare, hw.1, key, (hc.farthest i _ hw).trans hd, fun _ => .inr ?_⟩
    exact noLater_back hlast ((hs.frontier.settled i).2 ⟨_, hw⟩)
  | @known i w at_ key waits old =>
    refine ⟨i, w.bare, Tree.view_of_getElem? at_, key, ?_, fun heq => ?_⟩
    · show w.distance ≤ d
      omega
    · have : w.distance = d := heq
      exact .inl (old.resolve_left (by omega)).2
  | fresh =>
    exact ⟨s.tree.size, t.vertex d [h], by rw [Tree.view_append, Function.update_self]; rfl, rfl,
      le_refl d, fun _ => .inl (List.mem_singleton.2 rfl)⟩
  | @nearer i w at_ key =>
    have hw := congrFun
      (Tree.view_modify (f := fun v => { v with distance := d, parents := [h] }) at_) i
    rw [Function.update_self] at hw
    exact ⟨i, _, hw, key, le_refl d, fun _ => .inl (List.mem_singleton.2 rfl)⟩
  | @equal i w at_ key waits same =>
    have hw := congrFun
      (Tree.view_modify (f := fun v => { v with parents := v.parents ++ [h] }) at_) i
    rw [Function.update_self] at hw
    exact ⟨i, _, hw, key, same.le,
      fun _ => .inl (List.mem_append_right _ (List.mem_singleton.2 rfl))⟩

theorem sublist_append_of_back {order : Array Nat} {ps : List Nat}
    (hlast : order.back? = some h) (hps : ps.Sublist order.toList) (hn : h ∉ ps) :
    (ps ++ [h]).Sublist order.toList := by
  rw [← Array.getLast?_toList] at hlast
  obtain ⟨earlier, horder⟩ := List.getLast?_eq_some_iff.1 hlast
  rw [horder] at hps ⊢
  obtain ⟨qs, rs, rfl, hqs, hrs⟩ := List.sublist_append_iff.1 hps
  have hnil : rs = [] := by
    apply List.eq_nil_iff_forall_not_mem.2
    intro x hx
    apply hn
    rw [← List.mem_singleton.1 (hrs.subset hx)]
    exact List.mem_append_right _ hx
  rw [hnil, List.append_nil]
  exact hqs.append_right [h]

theorem Outcome.lineage (ho : Outcome s h t d t') (hs : Sound db root s)
    (hlast : s.tree.order.back? = some h) (hl : s.tree.Lineage) : t'.Lineage := by
  have hsome : ∀ j ∈ s.tree.order, (s.tree.view j).isSome := by
    intro j hj
    obtain ⟨u, hu⟩ := (hs.frontier.settled j).1 hj
    rw [hu.1]
    rfl
  have hmem : h ∈ s.tree.order := Array.mem_of_back? hlast
  have waiting {i : Nat} {w : PathVertex} (hw : s.tree.vertices[i]? = some w)
      (hs' : w.status ≠ .inTree) : i ∉ s.tree.order := by
    intro hi
    obtain ⟨u, hu, hin⟩ := (hs.frontier.settled i).1 hi
    obtain rfl := Option.some.inj ((Tree.view_of_getElem? hw).symm.trans hu)
    exact hs' hin
  cases ho with
  | settled | long | known => exact hl
  | fresh absent =>
    refine hl.place rfl (Tree.view_append ..) ?_ hsome ?_ ?_
    · intro hi
      have := hsome _ hi
      rw [Tree.view_size_le (le_refl _)] at this
      cases this
    · exact List.singleton_sublist.2 (Array.mem_toList_iff.2 hmem)
    · intro j x hx
      rw [Tree.append, Array.getElem?_push] at hx
      split at hx
      · next hj =>
        obtain rfl := Option.some.inj hx
        exact .inr ⟨Tree.view_size_le hj.ge, rfl⟩
      · exact .inl ⟨x, hx, rfl⟩
  | nearer at_ key waits =>
    refine hl.place rfl (Tree.view_modify at_) (waiting at_ waits) hsome ?_
      fun j x hx => .inl (Tree.children_of_modify hx fun _ => rfl)
    exact List.singleton_sublist.2 (Array.mem_toList_iff.2 hmem)
  | @equal i w at_ key waits same new =>
    refine hl.place rfl (Tree.view_modify at_) (waiting at_ waits) hsome ?_
      fun j x hx => .inl (Tree.children_of_modify hx fun _ => rfl)
    have hsub := hl.parents i
    rw [Tree.parentsAt_eq (Tree.view_of_getElem? at_)] at hsub
    exact sublist_append_of_back hlast hsub new

end Outcome

/-! ### Relaxing and entering -/

theorem enter_tree {v : PathVertex} (hv : s.tree.view h = some v) :
    (s.enter h).tree = (s.tree.settle h).2 := by
  obtain ⟨cs, hw, -⟩ := Tree.view_eq_some_iff.1 hv
  rw [enter, hw]
  dsimp only
  split <;> rfl

theorem improves_enter {v : PathVertex} (hv : s.tree.view h = some v)
    (hps : ∀ p ∈ v.parents, (s.tree.view p).isSome) : Improves s.tree (s.enter h).tree := by
  obtain ⟨-, horder, hview⟩ := enter_order hv hps
  constructor
  · intro i u hu
    rw [hview]
    by_cases hi : i = h
    · subst hi
      obtain rfl := Option.some.inj (hu.symm.trans hv)
      exact ⟨_, Function.update_self .., rfl, .inr ⟨rfl, List.Subset.refl _⟩⟩
    · exact ⟨u, (Function.update_of_ne hi ..).trans hu, rfl, .inr ⟨rfl, List.Subset.refl _⟩⟩
  · intro a i ha
    have := (Array.getElem?_eq_some_iff.1 ha).1
    rw [horder, Array.getElem?_push, if_neg (by omega), ha]

theorem foldl_relaxLink_lineage {a : Advertisement} (own : db.get? v.id = some a)
    (rs : List LinkRecord) (hrs : ∀ r ∈ rs, r ∈ a.records) (s : Search) (hs : Sound db root s)
    (hc : Current s.tree.view h v) (hlast : s.tree.order.back? = some h) (hl : s.tree.Lineage) :
    (rs.foldl (relaxLink db h v) s).tree.Lineage ∧
      Improves s.tree (rs.foldl (relaxLink db h v) s).tree ∧
      ∀ r ∈ rs, ∀ t, target? db v.id r = some t → v.distance + r.metric.value ≤ maxMetric →
        Served (rs.foldl (relaxLink db h v) s).tree h t.key (v.distance + r.metric.value) := by
  induction rs generalizing s with
  | nil => exact ⟨hl, .refl _, nofun⟩
  | cons r rs ih =>
    rw [List.forall_mem_cons] at hrs
    obtain ⟨hstep, -⟩ := relaxLink_step hs hc own hrs.1
    have hone : (relaxLink db h v s r).tree.Lineage ∧ Improves s.tree (relaxLink db h v s r).tree ∧
        ∀ t, target? db v.id r = some t → v.distance + r.metric.value ≤ maxMetric →
          Served (relaxLink db h v s r).tree h t.key (v.distance + r.metric.value) := by
      rcases relaxLink_cases db h v s r with ⟨t, ht, he⟩ | ⟨hn, htree, -⟩
      · have ho := offer_outcome s h v t r.metric
        rw [he]
        refine ⟨ho.lineage hs hlast hl, ho.improves, fun t' ht' hmax => ?_⟩
        obtain rfl := Option.some.inj (ht.symm.trans ht')
        exact ho.served hs hc hlast (Nat.le_add_right ..) hmax
      · rw [htree, hn]
        exact ⟨hl, .refl _, nofun⟩
    obtain ⟨hl', himp, hserved⟩ := ih hrs.2 _ hstep.sound (hc.grows hstep.grows)
      (hstep.order ▸ hlast) hone.1
    refine ⟨hl', hone.2.1.trans himp, ?_⟩
    intro r' hr' t ht hmax
    rcases List.mem_cons.1 hr' with rfl | hr'
    · exact (hone.2.2 t ht hmax).improves himp
    · exact hserved r' hr' t ht hmax

/-- All paths over a router are known. -/
def AllServed (db : Database Advertisement) (t : PathTree) (p : Nat) (u : PathVertex) : Prop :=
  ∀ k w, Leads db u.id k w → u.distance + w ≤ maxMetric → Served t p k (u.distance + w)

theorem Choice.relax_lineage (hc : Choice db root s h) (hlast : s.tree.order.back? = some h)
    (hl : s.tree.Lineage) : (s.relax db h).tree.Lineage ∧ Improves s.tree (s.relax db h).tree ∧
      ∀ u, Settled s.tree.view h u → u.type = .router → AllServed db (s.relax db h).tree h u := by
  obtain ⟨v, hv, hfar⟩ := hc.settled
  obtain ⟨cs, hw, hbare⟩ := Tree.view_eq_some_iff.1 hv.1
  have same : Vertex.bare { v with children := cs } = v := by rw [Vertex.bare, ← hbare]
  cases htype : v.type with
  | network =>
    rw [relax_network hc.sound hw htype]
    refine ⟨hl, .refl _, fun u hu hr => ?_⟩
    obtain rfl := Option.some.inj (hu.1.symm.trans hv.1)
    rw [htype] at hr
    cases hr
  | router =>
    have hg := (hc.sound.arena.genuine h v hv.1).router htype
    obtain ⟨a, own⟩ := Option.isSome_iff_exists.1 hg.2.2
    rw [Search.relax, hw]
    dsimp only
    rw [show v.advertisement = some a from hg.2.1.trans own, Option.elim_some]
    obtain ⟨hl', himp, hserved⟩ := foldl_relaxLink_lineage (v := { v with children := cs }) own
      a.records (fun _ hr => hr) s hc.sound ⟨same ▸ hv, htype, hfar⟩ hlast hl
    refine ⟨hl', himp, fun u hu _ k w hlead hmax => ?_⟩
    obtain rfl := Option.some.inj (hu.1.symm.trans hv.1)
    obtain ⟨b, r, t, own', mem, ht, rfl, rfl⟩ := target?_of_leads hlead
    obtain rfl := Option.some.inj (own.symm.trans own')
    exact hserved r mem t ht hmax

end Search

end LinkState
