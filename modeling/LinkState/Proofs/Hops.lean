import LinkState.Proofs.Addressing
import LinkState.Proofs.ShortestPaths
import LinkState.Spf.Routes

/-! Tracing a vertex back to the root. In a finished tree every way back ends, because parents
entered the tree earlier, and it ends at the routers next to the root. To each of these the root has
a shortest link, so there is a hop to it once the root's links leave by its interfaces. -/

namespace LinkState

namespace Search

variable {db : Database Advertisement} {root : Address} {s : Search} {look : View}

/-- The vertex `y` is next to the root, on a way from the root to `h`. -/
inductive FirstHop (look : View) : Nat → Nat → Prop
  | here {h : Nat} {v : PathVertex} (hv : look h = some v) (mem : 0 ∈ v.parents) :
      FirstHop look h h
  | up {h p y : Nat} {v : PathVertex} (hv : look h = some v) (mem : p ∈ v.parents) (hp : p ≠ 0)
      (hy : FirstHop look p y) : FirstHop look h y

theorem mem_union {xs ys : List Nat} {y : Nat} : y ∈ Tree.union xs ys ↔ y ∈ xs ∨ y ∈ ys := by
  rw [Tree.union]
  induction ys generalizing xs with
  | nil => simp
  | cons z ys ih =>
    rw [List.foldl_cons, ih]
    split
    · next hz =>
      constructor
      · rintro (h | h) <;> simp [h]
      · rintro (h | h)
        · exact .inl h
        · rcases List.mem_cons.1 h with rfl | h
          · exact .inl hz
          · exact .inr h
    · simp [or_assoc]

def Known (look : View) (cache : Tree.HopCache) : Prop :=
  ∀ h hops, cache.lookup h = some hops → ∀ y, y ∈ hops ↔ FirstHop look h y

theorem Known.cons {cache : Tree.HopCache} (hc : Known look cache) {h : Nat} {hops : List Nat}
    (hh : ∀ y, y ∈ hops ↔ FirstHop look h y) : Known look ((h, hops) :: cache) := by
  intro i is hi
  rw [List.lookup_cons] at hi
  split at hi
  · next he =>
    obtain rfl := beq_iff_eq.1 he
    obtain rfl := Option.some.inj hi
    exact hh
  · exact hc i is hi

def Over (look : View) (h p y : Nat) : Prop := p = 0 ∧ y = h ∨ p ≠ 0 ∧ FirstHop look p y

theorem firstHop_iff {h y : Nat} {v : PathVertex} (hv : look h = some v) :
    FirstHop look h y ↔ ∃ p ∈ v.parents, Over look h p y := by
  constructor
  · intro hy
    cases hy with
    | here hw mem =>
      obtain rfl := Option.some.inj (hv.symm.trans hw)
      exact ⟨0, mem, .inl ⟨rfl, rfl⟩⟩
    | up hw mem hp hy =>
      obtain rfl := Option.some.inj (hv.symm.trans hw)
      exact ⟨_, mem, .inr ⟨hp, hy⟩⟩
  · rintro ⟨p, mem, ⟨rfl, rfl⟩ | ⟨hp, hy⟩⟩
    · exact .here hv mem
    · exact .up hv mem hp hy

/-- Going over parents adds up what each of them leads to. -/
theorem foldlM_over {h : Nat} (ps : List Nat)
    (f : List Nat × Tree.HopCache → Nat → Except Fault (List Nat × Tree.HopCache))
    (hstep : ∀ p ∈ ps, ∀ hops cache, Known look cache → ∃ hops' cache',
      f (hops, cache) p = .ok (hops', cache') ∧ Known look cache' ∧
        ∀ y, y ∈ hops' ↔ y ∈ hops ∨ Over look h p y)
    (hops : List Nat) {cache : Tree.HopCache} (hc : Known look cache) :
    ∃ hops' cache', ps.foldlM f (hops, cache) = .ok (hops', cache') ∧ Known look cache' ∧
      ∀ y, y ∈ hops' ↔ y ∈ hops ∨ ∃ p ∈ ps, Over look h p y := by
  induction ps generalizing hops cache with
  | nil => exact ⟨hops, cache, rfl, hc, by simp⟩
  | cons p ps ih =>
    rw [List.forall_mem_cons] at hstep
    obtain ⟨hops₁, cache₁, h₁, hc₁, hmem₁⟩ := hstep.1 hops cache hc
    obtain ⟨hops₂, cache₂, h₂, hc₂, hmem₂⟩ := ih hstep.2 hops₁ hc₁
    refine ⟨hops₂, cache₂, ?_, hc₂, fun y => ?_⟩
    · rw [List.foldlM_cons, h₁]
      exact h₂
    · simp [hmem₂, hmem₁, or_assoc]

/-- With more fuel than vertices entered the tree before `h`, its first hops are found. -/
theorem Finished.firstHops (hf : Finished db root s) (fuel : Nat) {j h : Nat}
    {cache : Tree.HopCache} (hj : s.tree.order[j]? = some h) (hlt : j < fuel)
    (hc : Known s.tree.view cache) :
    ∃ hops cache', s.tree.firstHops fuel h cache = .ok (hops, cache') ∧
      Known s.tree.view cache' ∧ ∀ y, y ∈ hops ↔ FirstHop s.tree.view h y := by
  induction fuel generalizing j h cache with
  | zero => omega
  | succ fuel ih =>
    rw [Tree.firstHops]
    cases hl : cache.lookup h with
    | some hops => exact ⟨hops, cache, rfl, hc, hc h hops hl⟩
    | none =>
      obtain ⟨v, hv⟩ := (hf.sound.frontier.settled h).1 (Array.mem_of_getElem? hj)
      obtain ⟨cs, hw, _⟩ := Tree.view_eq_some_iff.1 hv.1
      -- every parent entered the tree earlier, so the fuel that is left is enough for it
      have parent {p : Nat} (hp : p ∈ v.parents) : ∃ i < fuel, s.tree.order[i]? = some p := by
        obtain ⟨i, k, hik, hi, hk⟩ := hf.sound.frontier.earlier h v hv p hp
        obtain rfl := hf.order_inj hj hk
        exact ⟨i, by omega, hi⟩
      have hfold := foldlM_over (h := h) v.parents
        (fun found p => do
          let p ← Reference.handle p
          if p = 0 then pure (Tree.union found.1 [h], found.2)
          else do
            let more ← s.tree.firstHops fuel p found.2
            pure (Tree.union found.1 more.1, more.2)) ?_ [] hc
      · obtain ⟨hops, cache', hrun, hc', hmem⟩ := hfold
        have first (y : Nat) : y ∈ hops ↔ FirstHop s.tree.view h y := by
          simp [hmem, firstHop_iff hv.1]
        refine ⟨hops, (h, hops) :: cache', ?_, hc'.cons first, first⟩
        rw [Tree.get, hw]
        exact congrArg (· >>= fun x => pure (x.1, (h, x.1) :: x.2)) hrun
      · intro p hp hops cache hc
        by_cases hz : p = 0
        · refine ⟨Tree.union hops [h], cache, ?_, hc, fun y => ?_⟩
          · rw [hz]
            rfl
          · simp [mem_union, Over, hz]
        · obtain ⟨i, hi, hpi⟩ := parent hp
          obtain ⟨more, cache', hrun, hc', hmem⟩ := ih hpi hi hc
          refine ⟨Tree.union hops more, cache', ?_, hc', fun y => ?_⟩
          · show (if p = 0 then _ else _ : Except Fault (List Nat × Tree.HopCache)) = _
            rw [if_neg hz, hrun]
            rfl
          · simp [mem_union, Over, hz, hmem]

end Search

/-! ### The hop to a router next to the root -/

namespace Tree

variable {root w : PathVertex} {interfaces : List Interface}

theorem mem_linksTo {v : PathVertex} {id : Address} {r : LinkRecord} :
    r ∈ linksTo v id ↔ ∃ a, v.advertisement = some a ∧ r ∈ a.records ∧ r.leadsTo id := by
  rw [linksTo]
  cases v.advertisement with
  | none => simp
  | some a => simp [Advertisement.linksTo]

theorem mem_exits {r : LinkRecord} {i : Interface} :
    (r, i) ∈ exits root w interfaces ↔ r ∈ linksTo root w.id ∧ r.metric.value = w.distance ∧
      interfaces.find? (·.address = some r.data) = some i := by
  simp only [exits, List.mem_filterMap, List.mem_mergeSort, List.mem_filter, decide_eq_true_eq,
    Option.map_eq_some_iff, Prod.mk.injEq, Nat.cast_id]
  constructor
  · rintro ⟨r', ⟨hr, hd⟩, i', hi, rfl, rfl⟩
    exact ⟨hr, hd, hi⟩
  · rintro ⟨hr, hd, hi⟩
    exact ⟨r, ⟨hr, hd⟩, i, hi, rfl, rfl⟩

theorem mem_far {x : Address} : x ∈ Address.sort ((linksTo w root.id).map (·.data)) ↔
    ∃ l ∈ linksTo w root.id, l.data = x := by
  rw [Address.sort, List.mem_mergeSort, List.mem_map]

/-- A hop is over a shortest link of the root to an address that the far router advertises, which is
in the subnet of the interface if one of those that it advertises is. -/
theorem hopTo_spec {hop : Hop} (h : hopTo root w interfaces = some hop) :
    ∃ r i l, (r, i) ∈ exits root w interfaces ∧ l ∈ linksTo w root.id ∧ l.data = hop.address ∧
      i.name = hop.interface ∧ ∀ m, i.mask = some m → ∀ far ∈ linksTo w root.id,
        far.data.sameSubnet r.data m → l.data.sameSubnet r.data m := by
  rw [hopTo] at h
  dsimp only at h
  rw [Option.orElse_apply, Option.orElse_eq_or] at h
  rcases Option.or_eq_some_iff.1 h with h | ⟨hnone, h⟩
  · obtain ⟨⟨r, i⟩, hri, h⟩ := List.exists_of_findSome?_eq_some h
    obtain ⟨x, hx, rfl⟩ := Option.map_eq_some_iff.1 h
    obtain ⟨m, hm, hx⟩ := Option.bind_eq_some_iff.1 hx
    have hsub := List.find?_some hx
    obtain ⟨l, hl, rfl⟩ := mem_far.1 (List.mem_of_find?_eq_some hx)
    refine ⟨r, i, l, hri, hl, rfl, rfl, fun m' hm' _ _ _ => ?_⟩
    obtain rfl := Option.some.inj (hm.symm.trans hm')
    exact hsub
  · obtain ⟨⟨r, i⟩, hri, h⟩ := Option.bind_eq_some_iff.1 h
    obtain ⟨x, hx, rfl⟩ := Option.map_eq_some_iff.1 h
    obtain ⟨l, hl, rfl⟩ := mem_far.1 (List.mem_of_head? hx)
    have hmem := List.mem_of_head? hri
    refine ⟨r, i, l, hmem, hl, rfl, rfl, fun m hm far hfar hsub => ?_⟩
    -- no exit has an address of the far router in its subnet
    have hexit := List.findSome?_eq_none_iff.1 hnone (r, i) hmem
    rw [Option.map_eq_none_iff, hm, Option.bind_some, List.find?_eq_none] at hexit
    exact absurd hsub (hexit far.data (mem_far.2 ⟨far, hfar, rfl⟩))

theorem isSome_hopTo {r : LinkRecord} {i : Interface} {l : LinkRecord}
    (hr : (r, i) ∈ exits root w interfaces) (hl : l ∈ linksTo w root.id) :
    (hopTo root w interfaces).isSome := by
  have hfar := mem_far.2 ⟨l, hl, rfl⟩
  rw [hopTo]
  generalize Address.sort ((linksTo w root.id).map (·.data)) = far at hfar ⊢
  generalize exits root w interfaces = near at hr ⊢
  rw [Option.orElse_apply, Option.orElse_eq_or, Option.isSome_or]
  cases near with
  | nil => cases hr
  | cons e near =>
    cases far with
    | nil => cases hfar
    | cons x far =>
      rw [List.head?_cons, Option.bind_some, List.head?_cons]
      exact Bool.or_true _

end Tree

namespace Search

variable {db : Database Advertisement} {root : Address} {s : Search}

structure IsRoot (db : Database Advertisement) (root : Address) (rv : PathVertex) : Prop where
  id : rv.id = root
  distance : rv.distance = 0
  advertisement : rv.advertisement = db.get? root

theorem Finished.isRoot (hf : Finished db root s) {v : PathVertex}
    (hv : s.tree.view 0 = some v) : IsRoot db root v := by
  obtain ⟨r, hr, hk, hd, -⟩ := hf.sound.arena.origin
  obtain rfl := Option.some.inj (hv.symm.trans hr.1)
  obtain ⟨htype, rfl⟩ := key_eq_router_iff.1 hk
  exact ⟨rfl, hd, ((hf.sound.arena.genuine 0 v hv).router htype).2.1⟩

/-- The root has a shortest link to what is next to it. -/
theorem Finished.leads_of_next (hf : Finished db root s) {y : Nat} {w : PathVertex}
    (hy : s.tree.view y = some w) (hn : 0 ∈ w.parents) : Leads db root w.key w.distance := by
  obtain ⟨u, d, hu, -, hl, hd⟩ := hf.sound.arena.tight y w hy 0 hn
  obtain ⟨rfl, hz, -⟩ := hf.isRoot hu.1
  rw [hz, Nat.zero_add] at hd
  exact hd ▸ hl

theorem Finished.ne_root_of_next (hf : Finished db root s) {y : Nat} {w : PathVertex}
    (hy : s.tree.view y = some w) (hn : 0 ∈ w.parents) (htype : w.type = .router) :
    w.id ≠ root := by
  obtain ⟨v, hv, hk, -, hp⟩ := hf.sound.arena.origin
  rintro rfl
  obtain rfl := hf.sound.arena.keys 0 y v w hv.1 hy (hk.trans (key_of_router htype).symm)
  obtain rfl := Option.some.inj (hv.1.symm.trans hy)
  rw [hp] at hn
  cases hn

theorem FirstHop.next {look : View} {h y : Nat} (hy : FirstHop look h y) :
    ∃ w, look y = some w ∧ 0 ∈ w.parents := by
  induction hy with
  | here hv mem => exact ⟨_, hv, mem⟩
  | up _ _ _ _ ih => exact ih

/-- The way from a first hop is the rest of a shortest path. -/
theorem Finished.walk_of_firstHop (hf : Finished db root s) {h y : Nat} {v w : PathVertex}
    (hy : FirstHop s.tree.view h y) (hv : s.tree.view h = some v) (hw : s.tree.view y = some w)
    (htype : w.type = .router) : ∃ d, Walk db w.id v.key d ∧ w.distance + d = v.distance := by
  induction hy generalizing v with
  | here hv' _ =>
    obtain rfl := Option.some.inj (hv.symm.trans hw)
    have hg := (hf.sound.arena.genuine _ v hv).router htype
    exact ⟨0, key_of_router htype ▸ .start hg.2.2, rfl⟩
  | up hv' mem _ _ ih =>
    obtain rfl := Option.some.inj (hv.symm.trans hv')
    obtain ⟨u, x, hu, hr, hl, hx⟩ := hf.sound.arena.tight _ v hv _ mem
    obtain ⟨d, hd, hsum⟩ := ih hu.1 hw
    rw [key_of_router hr] at hd
    exact ⟨d + x, hd.step hl, by omega⟩

/-- A first hop is a router, unless it is a network of the root itself. -/
theorem Finished.firstHop_router (hf : Finished db root s) {h y : Nat} {v : PathVertex}
    (hy : FirstHop s.tree.view h y) (hv : s.tree.view h = some v)
    (hown : v.type = .network → ∀ d, ¬ Leads db root v.key d) :
    ∃ w, s.tree.view y = some w ∧ 0 ∈ w.parents ∧ w.type = .router := by
  induction hy generalizing v with
  | here hv' mem =>
    obtain rfl := Option.some.inj (hv.symm.trans hv')
    refine ⟨v, hv, mem, ?_⟩
    cases htype : v.type with
    | router => rfl
    | network => exact absurd (hf.leads_of_next hv mem) (hown htype _)
  | up hv' mem _ _ ih =>
    obtain rfl := Option.some.inj (hv.symm.trans hv')
    obtain ⟨u, -, hu, hr, -⟩ := hf.sound.arena.tight _ v hv _ mem
    refine ih hu.1 fun hn => ?_
    rw [hr] at hn
    cases hn

theorem Finished.exists_firstHop (hf : Finished db root s) (j : Nat) {h : Nat}
    (hj : s.tree.order[j]? = some h) (hz : h ≠ 0) : ∃ y, FirstHop s.tree.view h y := by
  induction j using Nat.strongRecOn generalizing h with
  | ind j ih =>
    obtain ⟨v, hv⟩ := (hf.sound.frontier.settled h).1 (Array.mem_of_getElem? hj)
    obtain ⟨p, hp⟩ := List.exists_mem_of_ne_nil _ (hf.sound.arena.parents h v hv.1 hz)
    obtain ⟨i, k, hik, hi, hk⟩ := hf.sound.frontier.earlier h v hv p hp
    obtain rfl := hf.order_inj hj hk
    by_cases hpz : p = 0
    · exact ⟨h, .here hv.1 (hpz ▸ hp)⟩
    · obtain ⟨y, hy⟩ := ih i hik hi hpz
      exact ⟨y, .up hv.1 hp hpz hy⟩

theorem isOwnStub_iff {rv v : PathVertex} (hr : IsRoot db root rv) (hg : v.Genuine db)
    (htype : v.type = .network) :
    Tree.isOwnStub rv v = true ↔ ∃ d, Leads db root v.key d := by
  obtain ⟨-, m, x, hm, hx⟩ := hg.network htype
  have hkey : v.key = .network v.id m.length := by
    rw [Vertex.key, htype, hm]
    rfl
  rw [hkey, Tree.isOwnStub, hr.advertisement, hm]
  simp only [List.any_eq_true, Bool.and_eq_true, decide_eq_true_eq, Option.any_some,
    Mask.text_eq_iff hx]
  constructor
  · rintro ⟨r, hmem, hid, m', hm', hlen⟩
    cases ha : db.get? root with
    | none => simp [ha] at hmem
    | some a =>
      rw [ha] at hmem
      obtain ⟨hmem, hstub⟩ := List.mem_filter.1 hmem
      have hl := Leads.network ha hmem (of_decide_eq_true hstub) hm'
      rw [hid, hlen] at hl
      exact ⟨_, hl⟩
  · rintro ⟨d, hl⟩
    generalize hk : VertexKey.network v.id m.length = k at hl
    cases hl with
    | router => cases hk
    | @network a r m' own mem type mask =>
      obtain ⟨hid, hlen⟩ := VertexKey.network.inj hk
      refine ⟨r, ?_, hid.symm, m', mask, hlen.symm⟩
      rw [own]
      exact List.mem_filter.2 ⟨mem, decide_eq_true type⟩

end Search

end LinkState
