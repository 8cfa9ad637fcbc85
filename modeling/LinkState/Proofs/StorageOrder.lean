import LinkState.Proofs.Calculation
import LinkState.Proofs.Search.Tally
import LinkState.Proofs.Twins

/-! The order in which a database keeps its advertisements and these their records does not matter:
the trees are one tree with other handles, the counts of what was dropped are the same, and so are
the routes. -/

namespace LinkState

instance decidableRel {α β : Type} (r : α → β → Prop) [∀ a b, Decidable (r a b)] :
    ∀ (x : Option α) (y : Option β), Decidable (Option.Rel r x y)
  | none, none => isTrue .none
  | none, some _ => isFalse nofun
  | some _, none => isFalse nofun
  | some a, some b => decidable_of_iff (r a b) ⟨.some, fun | .some h => h⟩

namespace Rearranged

variable {db db' : Database Advertisement}

/-- Only the routers of the two databases need to be looked at. -/
theorem iff_keys : Rearranged db db' ↔ ∀ u ∈ db.keys ++ db'.keys,
    Option.Rel (fun a b => b.records.Perm a.records) (db.get? u) (db'.get? u) := by
  refine ⟨fun h u _ => h u, fun h u => ?_⟩
  by_cases hu : u ∈ db.keys ++ db'.keys
  · exact h u hu
  · rw [List.mem_append, not_or] at hu
    rw [Database.get?_eq_none hu.1, Database.get?_eq_none hu.2]
    exact .none

instance : Decidable (Rearranged db db') := decidable_of_iff _ iff_keys.symm

theorem elim_records (h : Rearranged db db') (u : Address) :
    ((db'.get? u).elim [] Advertisement.records).Perm
      ((db.get? u).elim [] Advertisement.records) := by
  have hu := h u
  generalize db.get? u = a at hu
  generalize db'.get? u = b at hu
  cases hu with
  | none => exact .refl _
  | some hab => exact hab

end Rearranged

namespace Search

variable {db db' : Database Advertisement} {root : Address} {s s' : Search}

/-! ### Counts -/

theorem linksBack_eq_of_perm {a b : Advertisement} (h : b.records.Perm a.records) (u : Address) :
    linksBack b u = linksBack a u := by
  rw [Bool.eq_iff_iff, linksBack_iff, linksBack_iff]
  simp only [h.mem_iff]

theorem target?_key_eq (h : Rearranged db db') (u : Address) (r : LinkRecord) :
    (target? db' u r).map Target.key = (target? db u r).map Target.key := by
  unfold target?
  cases r.type with
  | pointToPoint =>
    have hfar := h r.id
    generalize db.get? r.id = a at hfar
    generalize db'.get? r.id = b at hfar
    cases hfar with
    | none => rfl
    | some hab =>
      simp only [Option.filter_some, linksBack_eq_of_perm hab]
      split <;> rfl
  | stubNetwork => rfl
  | unknown | transitNetwork | virtualLink | other => rfl

theorem droppedOver_eq (h : Rearranged db db') (seen : List VertexKey) (e : VertexKey × Nat) :
    droppedOver db' seen e = droppedOver db seen e := by
  obtain ⟨k, d⟩ := e
  cases k with
  | network => rfl
  | router u =>
    have hdropped : dropped db' seen u d = dropped db seen u d := by
      funext r
      rw [dropped, dropped, target?_key_eq h]
    rw [droppedOver, droppedOver, hdropped]
    exact ((h.elim_records u).map _).sum_eq

theorem allDropped_eq (h : Rearranged db db') (seen : List VertexKey)
    (es : List (VertexKey × Nat)) :
    allDropped db' seen es = allDropped db seen es := by
  induction es generalizing seen with
  | nil => rfl
  | cons e es ih => rw [allDropped, allDropped, droppedOver_eq h, ih]

/-! ### Trees -/

section Agree

variable (hf : Finished db root s) (hch : Chronicle db s.tree fun _ => True)
  (hf' : Finished db' root s') (hch' : Chronicle db' s'.tree fun _ => True)
  (hsame : Rearranged db db')
include hf hch hf' hch' hsame

theorem key_translate {h : Nat} {v : PathVertex} (hv : s.tree.view h = some v) :
    ∃ x, s'.tree.view (s.tree.translate s'.tree h) = some x ∧ x.key = v.key ∧
      x.distance = v.distance := by
  obtain ⟨a, ha⟩ := hf.exists_stands hv
  obtain ⟨x, hx, hk⟩ := stands_translate hf hch hf' hch' hsame ha
  exact ⟨x, hx.2, hk⟩

theorem log_eq : log s'.tree = log s.tree := by
  rw [log, log, order_translate hf hch hf' hch' hsame, List.filterMap_map]
  apply List.filterMap_congr
  intro h hh
  obtain ⟨v, hv, -⟩ := (hf.sound.frontier.settled h).1 (Array.mem_toList_iff.1 hh)
  obtain ⟨x, hx, hk, hd⟩ := key_translate hf hch hf' hch' hsame hv
  simp [hv, hx, hk, hd]

theorem twinParents : TwinParents (Equiv.refl Address) s.tree s'.tree := by
  intro h h' v v' hv hv' hk p hp
  obtain ⟨x, hx, hkx, -⟩ := key_translate hf hch hf' hch' hsame hv
  obtain rfl := hf'.sound.arena.keys _ h' x v' hx hv' (hkx.trans (by simpa using hk.symm))
  obtain rfl := Option.some.inj (hx.symm.trans hv')
  obtain ⟨u, -, hu, -⟩ := hf.sound.arena.tight h v hv p hp
  have hpo := (hf.sound.frontier.settled p).2 ⟨u, hu⟩
  obtain ⟨y, hy, hky, -⟩ := key_translate hf hch hf' hch' hsame hu.1
  exact ⟨_, (translate_mem_parents hf hch hf' hch' hsame hv hx hpo).2 hp, u, y, hu.1, hy,
    by simpa using hky⟩

theorem alike : Alike (Equiv.refl Address) db db' root root s s' :=
  ⟨hf, hf', hsame.renamed, rfl, twinParents hf hch hf' hch' hsame,
    twinParents hf' hch' hf hch hsame.symm⟩

/-- Where a vertex stands in the one order, its twin stands in the other. -/
theorem forall₂_inOrder :
    List.Forall₂ (fun e e' => e'.2.key = e.2.key) s.tree.inOrder s'.tree.inOrder := by
  have both : ∀ h ∈ s.tree.order.toList, ∃ v x, s.tree.vertices[h]? = some v ∧
      s'.tree.vertices[s.tree.translate s'.tree h]? = some x ∧ x.key = v.key := by
    intro h hh
    obtain ⟨v, hv, -⟩ := (hf.sound.frontier.settled h).1 (Array.mem_toList_iff.1 hh)
    obtain ⟨x, hx, hk, -⟩ := key_translate hf hch hf' hch' hsame hv
    obtain ⟨cs, hw, -⟩ := Tree.view_eq_some_iff.1 hv
    obtain ⟨cs', hw', -⟩ := Tree.view_eq_some_iff.1 hx
    exact ⟨_, _, hw, hw', hk⟩
  rw [Tree.inOrder, Tree.inOrder, order_translate hf hch hf' hch' hsame, List.filterMap_map]
  generalize s.tree.order.toList = hs at both
  induction hs with
  | nil => exact .nil
  | cons h hs ih =>
    rw [List.forall_mem_cons] at both
    obtain ⟨⟨v, x, hv, hx, hk⟩, hrest⟩ := both
    rw [List.filterMap_cons, List.filterMap_cons, Function.comp_apply, hv, hx]
    exact .cons hk (ih hrest)

theorem forall₂_offers {interfaces : List Interface} {rv rv' : PathVertex}
    (hr : s.tree.vertices[0]? = some rv) (hr' : s'.tree.vertices[0]? = some rv') :
    List.Forall₂ (fun e e' => ∀ r, Offers names db root s.tree rv interfaces e r ↔
      Offers names db' root s'.tree rv' interfaces e' r) s.tree.inOrder s'.tree.inOrder := by
  have ha := alike hf hch hf' hch' hsame
  obtain ⟨hlen, hget⟩ := List.forall₂_iff_get.1 (forall₂_inOrder hf hch hf' hch' hsame)
  refine List.forall₂_iff_get.2 ⟨hlen, fun i hi hi' r => ?_⟩
  have hk := hget i hi hi'
  have he := List.get_mem s.tree.inOrder ⟨i, hi⟩
  have he' := List.get_mem s'.tree.inOrder ⟨i, hi'⟩
  exact ⟨ha.offers hr hr' he he' (by simpa using hk),
    ha.symm.offers hr' hr he' he (by simpa using hk.symm)⟩

end Agree

end Search

/-! ### The whole search -/

open Search

theorem shortestPaths_rearranged {db db' : Database Advertisement} (h : Rearranged db db')
    (root : Address) :
    (∃ σ, Tree.Renames σ (shortestPaths db root) (shortestPaths db' root)) ∧
      (run db root).stats = (run db' root).stats ∧
      ∀ names interfaces, ∃ rs, (shortestPaths db root).routes names interfaces = .ok rs ∧
        (shortestPaths db' root).routes names interfaces = .ok rs := by
  cases hroot : db.get? root with
  | none =>
    have hroot' : db'.get? root = none := by simpa using h.renamed.eq_none hroot
    have hrun : run db' root = run db root := by simp only [run, hroot, hroot']
    have hempty : shortestPaths db root = .empty := run_noRoot hroot
    rw [shortestPaths, shortestPaths, hrun, ← shortestPaths, hempty]
    exact ⟨⟨id, .refl _⟩, rfl, fun _ _ => ⟨[], rfl, rfl⟩⟩
  | some a =>
    have hsome : (db.get? root).isSome := hroot ▸ rfl
    have hsome' : (db'.get? root).isSome := by simpa using h.renamed.isSome hsome
    have hf := run_finished hsome
    have hch := run_chronicle hsome
    have hf' := run_finished hsome'
    have hch' := run_chronicle hsome'
    have ha := alike hf hch hf' hch' h
    refine ⟨⟨_, renames hf hch hf' hch' h⟩, ?_, fun names interfaces => ?_⟩
    · apply SearchStats.pair_injective
      show counts (run db root) = counts (run db' root)
      rw [counts_run, counts_run, log_eq hf hch hf' hch' h, allDropped_eq h]
    · exact ha.routes_eq hch hch' names interfaces fun rv rv' hr hr' =>
        FirstOffers.congr (forall₂_offers hf hch hf' hch' h hr hr')

namespace Network

/-- Over databases that hold the same records in different orders, a search finds one tree up to the
handles, drops as much, and gives any node the same routes. -/
theorem calculate_rearranged (n n' : Network) (s s' : SearcherId) (root : Address)
    (hs : s < n.searchers.size) (hs' : s' < n'.searchers.size)
    (h : Rearranged (n.snapshot (n.searcher s).database) (n'.snapshot (n'.searcher s').database)) :
    Completes (calculate s root) n fun t n₁ => Completes (calculate s' root) n' fun t' n₁' =>
      (∃ σ, t.Renames σ t') ∧ (n₁.searcher s).stats = (n₁'.searcher s').stats ∧
        ∀ names interfaces, ∃ rs,
          t.routes names interfaces = .ok rs ∧ t'.routes names interfaces = .ok rs := by
  refine (completes_calculate s root).mono fun t n₁ ht => ?_
  refine (completes_calculate s' root).mono fun t' n₁' ht' => ?_
  obtain ⟨hm, db, hdb, rfl, hc⟩ := ht
  obtain ⟨hm', db', hdb', rfl, hc'⟩ := ht'
  have hdbs := hdb.symm.rearranged.trans (h.trans hdb'.rearranged)
  obtain ⟨hren, hstats, hroutes⟩ := shortestPaths_rearranged hdbs root
  refine ⟨hren, ?_, hroutes⟩
  rw [hc (hm.size_searchers ▸ hs), hc' (hm'.size_searchers ▸ hs'), hstats]

/-- The advertisements of a router with two links to a neighbour and a network of its own, and of
the neighbour, which also has a link to a router without an advertisement. -/
def twoRouters : List Advertisement :=
  [⟨⟨1, 1, 1, 1⟩, ⟨1, 1, 1, 1⟩, .notExplored,
    [⟨.pointToPoint, ⟨2, 2, 2, 2⟩, ⟨10, 1, 0, 1⟩, defaultInterfaceCost⟩,
     ⟨.pointToPoint, ⟨2, 2, 2, 2⟩, ⟨10, 2, 0, 1⟩, .zero⟩,
     ⟨.stubNetwork, ⟨10, 3, 0, 0⟩, ⟨255, 255, 255, 0⟩, .zero⟩]⟩,
   ⟨⟨2, 2, 2, 2⟩, ⟨2, 2, 2, 2⟩, .notExplored,
    [⟨.pointToPoint, ⟨1, 1, 1, 1⟩, ⟨10, 1, 0, 2⟩, defaultInterfaceCost⟩,
     ⟨.pointToPoint, ⟨3, 3, 3, 3⟩, ⟨10, 4, 0, 1⟩, .zero⟩,
     ⟨.stubNetwork, ⟨10, 3, 0, 0⟩, ⟨255, 255, 255, 0⟩, .zero⟩]⟩]

/-- Searchers over one database and over one with everything the other way round. -/
def bothOrders : Network :=
  (exec (do
    discard (searcherOver twoRouters)
    searcherOver (twoRouters.reverse.map fun a => { a with records := a.records.reverse })) .empty).2

theorem calculate_rearranged_bothOrders :
    0 < bothOrders.searchers.size ∧ 1 < bothOrders.searchers.size ∧
      Rearranged (bothOrders.snapshot (bothOrders.searcher 0).database)
        (bothOrders.snapshot (bothOrders.searcher 1).database) ∧
      ∃ t t', (exec (calculate 0 ⟨1, 1, 1, 1⟩) bothOrders).1 = .ok t ∧
        (exec (calculate 1 ⟨1, 1, 1, 1⟩) bothOrders).1 = .ok t' ∧ (∃ σ, t.Renames σ t') ∧
          ∀ names interfaces, ∃ rs,
            t.routes names interfaces = .ok rs ∧ t'.routes names interfaces = .ok rs := by
  have hs : 0 < bothOrders.searchers.size := by decide +kernel
  have hs' : 1 < bothOrders.searchers.size := by decide +kernel
  have h : Rearranged (bothOrders.snapshot (bothOrders.searcher 0).database)
      (bothOrders.snapshot (bothOrders.searcher 1).database) := by decide +kernel
  have hq : bothOrders.Quiet := quiet_of_nil (by decide +kernel)
  obtain ⟨t, ht, hrest⟩ :=
    (calculate_rearranged bothOrders bothOrders 0 1 ⟨1, 1, 1, 1⟩ hs hs' h).of_quiet hq
  obtain ⟨t', ht', hren, -, hroutes⟩ := hrest.of_quiet hq
  exact ⟨hs, hs', h, t, t', ht, ht', hren, hroutes⟩

end Network

end LinkState
