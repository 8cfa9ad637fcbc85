import LinkState.Proofs.Inventory

/-! What the configuration of one node can do to a build. A malformed channel costs the routers on
it their advertisements and is reported. The one thing that ends a build without a report is a mask
that has no form as an address: masks of other than four octets, or with fractions, are masks all
the same, and discovery takes each for an address. -/

namespace LinkState

namespace Network

variable {n n' : Network} {k : NodeId}

theorem exists_of_foldlM_error {α β : Type} {f : β → α → Except Fault β} {l : List α} {b : β}
    {e : Fault} (h : l.foldlM f b = .error e) : ∃ a ∈ l, ∃ b', f b' a = .error e := by
  induction l generalizing b with
  | nil => cases h
  | cons a l ih =>
    rw [List.foldlM_cons] at h
    rcases bind_eq_error_iff.1 h with ha | ⟨b', -, h⟩
    · exact ⟨a, List.mem_cons_self .., b, ha⟩
    · obtain ⟨x, hx, b'', hf⟩ := ih h
      exact ⟨x, List.mem_cons_of_mem _ hx, b'', hf⟩

theorem exists_of_foldlM_ok {α β : Type} {f : β → α → Except Fault β} {l : List α} {b c : β}
    (h : l.foldlM f b = .ok c) : ∀ a ∈ l, ∃ b' c', f b' a = .ok c' := by
  induction l generalizing b with
  | nil => nofun
  | cons a l ih =>
    rw [List.foldlM_cons] at h
    obtain ⟨b', ha, h⟩ := bind_eq_ok_iff.1 h
    exact List.forall_mem_cons.2 ⟨⟨b, b', ha⟩, ih h⟩

/-- A visit that goes on is one where discovery settled. -/
theorem settles_of_reported {report report' : BuildReport} (h : n.reported report k = .ok report') :
    n.Settles k := by
  intro x hx
  rw [reported, hx] at h
  dsimp only at h
  cases hc : caught (n.found x) with
  | ok o => exact of_caught_eq_ok hc
  | error f =>
    rw [hc] at h
    cases h

/-- A visit that ends the build is one where a mask has no form as an address. -/
theorem mask_of_reported (hown : n.OwnRouter k) {report : BuildReport} {f : Fault}
    (h : n.reported report k = .error f) : ∃ m, n.HasMask k m ∧ m.toAddress = .error f := by
  rw [reported] at h
  cases hx : n.routerOf k with
  | none =>
    rw [hx] at h
    cases h
  | some x =>
    rw [hx] at h
    dsimp only at h
    cases hc : caught (n.found x) with
    | ok o =>
      rw [hc] at h
      cases h
    | error g =>
      rw [hc] at h
      obtain rfl := Except.error.inj h
      obtain ⟨hf, hne⟩ := of_caught_eq_error hc
      rcases exists_of_found_error hf with ⟨m, rfl, -⟩ | ⟨m, hm, he⟩
      · exact absurd rfl (hne m)
      · exact ⟨m, hown.node_eq hx ▸ hm, he⟩

def TwoEnded (n : Network) (k : NodeId) : Prop :=
  ∀ i ∈ n.interfacesOf k, ∀ c, i.channel = some c → (n.channel c).isPointToPoint

instance (n : Network) (k : NodeId) : Decidable (n.TwoEnded k) :=
  decidable_of_iff (∀ i ∈ n.interfacesOf k, ∀ c ∈ i.channel, (n.channel c).isPointToPoint) Iff.rfl

/-- Discovery on a router whose own channels have two ends does not meet a malformed one. -/
theorem TwoEnded.found_ne (h : n.TwoEnded k) {x : Router} (hx : x.node = k)
    (m : MalformedChannel) : n.found x ≠ .error (.malformedChannel m) := by
  intro hf
  rcases exists_of_found_error hf with ⟨m', -, i, hi, hs⟩ | ⟨m', -, he⟩
  · obtain ⟨c, hc, hends⟩ := channel_of_malformed hs
    rw [h _ (List.mem_map_of_mem (hx ▸ hi)) c hc] at hends
    cases hends
  · exact m'.toAddress_ne_malformed m he

/-- What one misconfigured node leaves to the others. -/
structure Contained (n : Network) (d : DatabaseId) (ks : List NodeId) (report : BuildReport)
    (n' : Network) : Prop where
  /-- Discovery on a router succeeds, or its failure is reported. -/
  settled : ∀ k ∈ ks, ∀ x, n.routerOf k = some x →
    (∃ a, n.advertises k = some a) ∨ ∃ f ∈ report.failures, n.failureOf k = some f
  /-- A router whose own channels are well formed and which has a link record is in the database,
  unless another has its ID. -/
  installed : ∀ k ∈ ks, ∀ x, n.routerOf k = some x → n.TwoEnded k →
    ∃ a, n.advertises k = some a ∧
      (a.records ≠ [] → n.Alone ks k → (n'.snapshot d).get? x.id = some a)

theorem build_contained (d : DatabaseId) (ks : List NodeId) (hn : n.Reachable)
    (hq : n.Quiet) (hd : d < n.databases.size) :
    match (exec (build d ks) n).1 with
    | .ok report => Contained n d ks report (exec (build d ks) n).2
    | .error f => ∃ k ∈ ks, ∃ m, n.HasMask k m ∧ ¬ m.Whole ∧ m.toAddress = .error f := by
  have hown := hn.wellFormed.routers
  have hbuild : Ends (build d ks) n _ := ends_build hd hown
  obtain ⟨hres, hbuilt⟩ := hbuild.of_quiet hq
  cases hrep : n.buildReport (n.byIndex ks) with
  | error f =>
    rw [hres, hrep]
    obtain ⟨k, hk, report, hf⟩ := exists_of_foldlM_error hrep
    obtain ⟨m, hm, he⟩ := mask_of_reported (hown k) hf
    refine ⟨k, mem_byIndex.1 hk, m, hm, fun hw => ?_, he⟩
    obtain ⟨a, ha⟩ := hw.exists_toAddress
    cases ha.symm.trans he
  | ok report =>
    have hsnap : (exec (build d ks) n).2.snapshot d = n.linkState (n.byIndex ks) :=
      (hbuilt _ (hres.trans hrep)).rest
    rw [hres, hrep]
    have hsettles (k : NodeId) (hk : k ∈ ks) : n.Settles k := by
      obtain ⟨b, b', hb⟩ := exists_of_foldlM_ok hrep k (mem_byIndex.2 hk)
      exact settles_of_reported hb
    rw [buildReport_eq hq fun k hk => ⟨hown k, hsettles k (mem_byIndex.1 hk)⟩] at hrep
    obtain rfl := Except.ok.inj hrep
    constructor
    case settled =>
      intro k hk x hx
      rcases (hsettles k hk).cases hq (hown k) hx with ⟨rs, -, hadv, -⟩ | ⟨m, -, -, hfail⟩
      · exact .inl ⟨_, hadv⟩
      · exact .inr ⟨_, List.mem_filterMap.2 ⟨k, mem_byIndex.2 hk, hfail⟩, hfail⟩
    case installed =>
      intro k hk x hx htwo
      rcases (hsettles k hk).cases hq (hown k) hx with ⟨rs, -, hadv, -⟩ | ⟨m, hf, -, -⟩
      · refine ⟨_, hadv, fun hne halone => ?_⟩
        have halone' : n.Alone (n.byIndex ks) k := fun j hj => halone j (mem_byIndex.1 hj)
        rw [hsnap, halone'.get?_linkState (mem_byIndex.2 hk) hx, advertised_eq_filter hq (hown k),
          hadv]
        simp [hne]
      · exact absurd hf (htwo.found_ne ((hown k).node_eq hx) m)

set_option maxRecDepth 10000 in
theorem build_contained_mixed :
    mixed.Quiet ∧ 0 < mixed.databases.size ∧
      ∃ report, (exec (build 0 [4, 2, 0, 3, 1]) mixed).1 = .ok report ∧
        Contained mixed 0 [4, 2, 0, 3, 1] report (exec (build 0 [4, 2, 0, 3, 1]) mixed).2 := by
  have hq : mixed.Quiet := quiet_of_nil (by decide +kernel)
  have hd : 0 < mixed.databases.size := by decide +kernel
  have hok : (exec (build 0 [4, 2, 0, 3, 1]) mixed).1.isOk = true := by cbv
  cases hres : (exec (build 0 [4, 2, 0, 3, 1]) mixed).1 with
  | error f =>
    rw [hres] at hok
    cases hok
  | ok report =>
    have hcontained := build_contained 0 [4, 2, 0, 3, 1] reachable_mixed hq hd
    rw [hres] at hcontained
    exact ⟨hq, hd, report, rfl, hcontained⟩

def shortMask : Mask := ⟨[255, 255, 255], by decide, by decide⟩

def shortMaskedSetup : NetworkM DatabaseId := do
  let a ← newRouterNode "A"
  let b ← newRouterNode "B"
  newLink a b "ab" ⟨10, 0, 0, 1⟩ ⟨10, 0, 0, 2⟩ 5
  addStub a ⟨10, 9, 0, 0⟩ shortMask none
  newDatabase

/-- Two routers with a link; the first has a stub network with the short mask. -/
def shortMasked : Network := (exec shortMaskedSetup .empty).2

theorem reachable_shortMasked : shortMasked.Reachable :=
  .run .empty <| .bind (.newRouterNode _) fun _ => .bind (.newRouterNode _) fun _ =>
    .bind (.newLink ..) fun _ => .bind (.addStub ..) fun _ => .newDatabase

set_option maxRecDepth 10000 in
/-- The short mask is accepted and ends the build, which leaves the second router out of the
database although nothing is wrong with it. -/
theorem shortMasked_aborts :
    Mask.ofNumbers [255, 255, 255] = .ok shortMask ∧ shortMasked.Reachable ∧
      shortMasked.Quiet ∧ (∀ k ∈ [0, 1], shortMasked.TwoEnded k) ∧
      (exec (build 0 [0, 1]) shortMasked).1 = .error (.addressSize 3) ∧
      (∃ a, shortMasked.advertises 1 = some a ∧ a.records ≠ []) ∧
      ∀ id, ((exec (build 0 [0, 1]) shortMasked).2.snapshot 0).get? id = none := by
  have hmask : Mask.ofNumbers [255, 255, 255] = .ok shortMask := by decide +kernel
  have hadv : (shortMasked.advertises 1).map (·.records.length) = some 1 := by decide +kernel
  have hempty : ((exec (build 0 [0, 1]) shortMasked).2.database 0).entries = [] := by cbv
  obtain ⟨a, ha, hone⟩ := Option.map_eq_some_iff.1 hadv
  refine ⟨hmask, reachable_shortMasked, quiet_of_nil (by decide +kernel), by decide +kernel, by cbv,
    ⟨a, ha, List.ne_nil_of_length_pos (by omega)⟩, fun id => ?_⟩
  rw [snapshot, Database.get?_map, Database.get?, hempty]
  rfl

end Network

end LinkState
