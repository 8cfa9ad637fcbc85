import LinkState.Proofs.Addressing
import LinkState.Proofs.Operation
import LinkState.Proofs.Topology

/-! Discovery on a router is a function of the topology: `found` says which records it advertises,
or why it advertises nothing. Each link that it advertises is at an address of its node. -/

namespace LinkState

/-- The records that a sighting adds, or the fault that ends discovery. -/
def Sighting.records : Sighting → Except Fault (List LinkRecord)
  | .record r => .ok [r]
  | .unusableMask f => .error f
  | .malformed m => .error (.malformedChannel m)
  | .down | .nothing | .noAddress | .peerDown _ | .peerNotRouter _ => .ok []

namespace Network

variable {n n' : Network}

def found (n : Network) (x : Router) : Except Fault (List LinkRecord) := do
  let links ← (n.node x.node).interfaces.mapM fun i => (n.sighting x i).records
  let stubs ← (n.node x.node).stubs.mapM fun s =>
    stubRecord s.network s.mask (s.cost.getD x.config.stubCost)
  return links.flatten ++ stubs

theorem SameTopology.found (h : SameTopology n n') {x x' : Router} (hx : x'.blank = x.blank) :
    n'.found x' = n.found x := by
  obtain ⟨hnode, -, hconfig⟩ := Router.blank_eq_iff.1 hx
  simp only [Network.found, h.node, hnode, hconfig, h.sighting hx]

/-! ### Folds that add to what is found -/

theorem foldlM_eq_mapM {α β γ : Type} (f : α → Except Fault β) (g : β → List γ) (l : List α)
    (acc : List γ) :
    l.foldlM (fun acc a => (f a).map (acc ++ g ·)) acc = (l.mapM f).map (acc ++ ·.flatMap g) := by
  induction l generalizing acc with
  | nil => simp [Except.map, pure, Except.pure]
  | cons a l ih =>
    rw [List.foldlM_cons, List.mapM_cons]
    cases f a with
    | error e => rfl
    | ok b =>
      show List.foldlM _ (acc ++ g b) l = _
      rw [ih]
      cases l.mapM f with
      | error e => rfl
      | ok bs => simp [Except.map, bind, Except.bind, pure, Except.pure]

theorem ends_discoverInterface (r : RouterId) (rs : List LinkRecord) (i : InterfaceId) :
    Ends (discoverInterface r rs i) n fun res n' =>
      res = (n.sighting (n.router r) i).records.map (rs ++ ·) ∧ Logged n n' := by
  refine Completes.bind (completes_get ?_)
  have skip (why : String) :
      Ends (do debug (n.node (n.router r).node).id "router:discover" why; return rs) n
        fun res n' => res = .ok (rs ++ []) ∧ Logged n n' :=
    Completes.bind (completes_log fun j => ends_pure ⟨by rw [List.append_nil], j, rfl⟩)
  dsimp only
  cases n.sighting (n.router r) i with
  | down | noAddress | peerDown | peerNotRouter => exact skip _
  | nothing => exact ends_pure ⟨by rw [Sighting.records, Except.map, List.append_nil], .refl n⟩
  | record x => exact ends_pure ⟨rfl, .refl n⟩
  | unusableMask f => exact ends_throw ⟨rfl, .refl n⟩
  | malformed m => exact Completes.bind (completes_log fun j => ends_throw ⟨rfl, j, rfl⟩)

theorem ends_discoverStub (c : Config) (rs : List LinkRecord) (s : StubNetwork) :
    Ends (discoverStub c rs s) n fun res n' =>
      res = (stubRecord s.network s.mask (s.cost.getD c.stubCost)).map (rs ++ [·]) ∧
        Logged n n' := by
  refine Ends.bind (ends_lift ?_)
  cases stubRecord s.network s.mask (s.cost.getD c.stubCost) with
  | error f => exact ⟨rfl, .refl n⟩
  | ok x => exact ends_pure ⟨rfl, .refl n⟩

theorem Logged.sameTopology (h : Logged n n') : SameTopology n n' := by
  obtain ⟨j, rfl⟩ := h
  exact ⟨rfl, rfl, rfl, rfl, rfl, rfl, rfl, rfl, rfl, rfl⟩

theorem ends_links (r : RouterId) (is : List InterfaceId) :
    Ends (is.foldlM (discoverInterface r) []) n fun res n' =>
      res = (is.mapM fun i => (n.sighting (n.router r) i).records).map List.flatten ∧
        Logged n n' := by
  refine (ends_foldlM (f := fun rs i => (n.sighting (n.router r) i).records.map (rs ++ id ·))
    (fun _ => Logged n) (fun i l rs m hm => ?_) is [] (.refl n)).mono ?_
  · obtain ⟨j, rfl⟩ := hm
    refine (ends_discoverInterface r rs i).mono ?_
    rintro res n' - ⟨rfl, j', rfl⟩
    exact ⟨rfl, j', rfl⟩
  · rintro res n' - ⟨rfl, rest, hn, -⟩
    refine ⟨?_, hn⟩
    rw [foldlM_eq_mapM]
    simp only [List.nil_append, List.flatMap_id]

theorem ends_stubs (c : Config) (ss : List StubNetwork) (links : List LinkRecord) :
    Ends (ss.foldlM (discoverStub c) links) n fun res n' =>
      res = (ss.mapM fun s => stubRecord s.network s.mask (s.cost.getD c.stubCost)).map
        (links ++ ·) ∧ Logged n n' := by
  refine (ends_foldlM
    (f := fun rs s => (stubRecord s.network s.mask (s.cost.getD c.stubCost)).map (rs ++ [·]))
    (fun _ => Logged n) (fun s l rs m hm => ?_) ss links (.refl n)).mono ?_
  · refine (ends_discoverStub c rs s).mono ?_
    rintro res n' - ⟨rfl, hn'⟩
    exact ⟨rfl, hm.trans hn'⟩
  · rintro res n' - ⟨rfl, rest, hn, -⟩
    refine ⟨?_, hn⟩
    rw [foldlM_eq_mapM _ fun x => [x]]
    simp only [List.flatMap_singleton']

theorem ends_gather (r : RouterId) :
    Ends (do
      let links ← (n.node (n.router r).node).interfaces.foldlM (discoverInterface r) []
      (n.node (n.router r).node).stubs.foldlM (discoverStub (n.router r).config) links) n
      fun res n' => res = n.found (n.router r) ∧ Logged n n' := by
  refine Ends.bind ((ends_links r _).mono ?_)
  rintro res n₁ - ⟨rfl, hn₁⟩
  rw [found]
  cases (n.node (n.router r).node).interfaces.mapM
      fun i => (n.sighting (n.router r) i).records with
  | error f => exact ⟨rfl, hn₁⟩
  | ok links =>
    refine (ends_stubs (n := n₁) (n.router r).config _ links.flatten).mono ?_
    rintro res n₂ - ⟨rfl, j, rfl⟩
    obtain ⟨j₁, rfl⟩ := hn₁
    refine ⟨?_, j, rfl⟩
    show _ = (do
      let stubs ← (n.node (n.router r).node).stubs.mapM _
      return links.flatten ++ stubs : Except Fault (List LinkRecord))
    cases (n.node (n.router r).node).stubs.mapM
        fun s => stubRecord s.network s.mask (s.cost.getD (n.router r).config.stubCost) with
    | error f => rfl
    | ok stubs => rfl

def setFound (n : Network) (r : RouterId) (a : Option Advertisement) : Network :=
  { n with routers := n.routers.modify r fun x => { x with advertisement := a } }

theorem SameTopology.setFound (n : Network) (r : RouterId) (a : Option Advertisement) :
    SameTopology n (n.setFound r a) :=
  ⟨rfl, rfl, rfl, rfl, rfl,
    map_modify_of_comp (f := fun x : Router => { x with advertisement := a }) (fun _ => rfl) ..,
    rfl, rfl, rfl, rfl⟩

theorem setFound_setFound (n : Network) (r : RouterId) (a b : Option Advertisement) :
    (n.setFound r a).setFound r b = n.setFound r b := by
  rw [setFound, setFound, setFound]
  congr 1
  refine Array.ext (by simp) fun i hi hi' => ?_
  simp only [Array.getElem_modify]
  split <;> simp

/-- The advertisement of a router after discovery, if there is one. -/
def discovered (n : Network) (x : Router) : Option Advertisement :=
  (n.found x).toOption.map fun rs => { Advertisement.ofRouter x.id with records := rs }

/-- Discovery ends as the topology says, and leaves what it found with the router. -/
theorem ends_discover (r : RouterId) : Ends (discover r) n fun res n' =>
    res = (n.found (n.router r)).map (fun _ => ()) ∧
      Logged (n.setFound r (n.discovered (n.router r))) n' := by
  refine Completes.bind (completes_modify rfl ?_)
  show Ends _ (n.setFound r none) _
  have htop := SameTopology.setFound n r none
  have hfound := htop.found (htop.router r)
  refine Completes.bind (completes_get ?_)
  dsimp only
  rw [← bind_assoc]
  refine Ends.bind ((ends_gather r).mono ?_)
  rintro res n₂ - ⟨rfl, j, rfl⟩
  rw [hfound, discovered]
  cases n.found (n.router r) with
  | error f => exact ⟨rfl, j, rfl⟩
  | ok rs =>
    have hset (a : Option Advertisement) : { n.setFound r none with journal := j }.setFound r a =
        { n.setFound r a with journal := j } :=
      congrArg (fun m : Network => { m with journal := j }) (setFound_setFound n r none a)
    rw [htop.router_id]
    refine Completes.bind (completes_modify rfl ?_)
    show Ends _ ({ n.setFound r none with journal := j }.setFound r _) _
    rw [hset]
    exact (completes_log fun j' => ⟨rfl, j', rfl⟩).ends fun _ _ h => h

/-! ### What is found -/

theorem mapM_cons_eq_ok {α β : Type} {f : α → Except Fault β} {a : α} {l : List α} {bs : List β}
    (h : (a :: l).mapM f = .ok bs) : ∃ c cs, f a = .ok c ∧ l.mapM f = .ok cs ∧ bs = c :: cs := by
  rw [List.mapM_cons] at h
  obtain ⟨c, hc, h⟩ := bind_eq_ok_iff.1 h
  obtain ⟨cs, hl, h⟩ := bind_eq_ok_iff.1 h
  exact ⟨c, cs, hc, hl, (Except.ok.inj h).symm⟩

theorem exists_of_mapM_ok {α β : Type} {f : α → Except Fault β} {l : List α} {bs : List β}
    (h : l.mapM f = .ok bs) {b : β} (hb : b ∈ bs) : ∃ a ∈ l, f a = .ok b := by
  induction l generalizing bs with
  | nil =>
    cases h
    cases hb
  | cons a l ih =>
    obtain ⟨c, cs, ha, hl, rfl⟩ := mapM_cons_eq_ok h
    rcases List.mem_cons.1 hb with rfl | hb
    · exact ⟨a, List.mem_cons_self .., ha⟩
    · obtain ⟨x, hx, hfx⟩ := ih hl hb
      exact ⟨x, List.mem_cons_of_mem _ hx, hfx⟩

theorem mem_of_mapM_ok {α β : Type} {f : α → Except Fault β} {l : List α} {bs : List β}
    (h : l.mapM f = .ok bs) {a : α} (ha : a ∈ l) : ∃ b ∈ bs, f a = .ok b := by
  induction l generalizing bs with
  | nil => cases ha
  | cons a' l ih =>
    obtain ⟨c, cs, hc, hl, rfl⟩ := mapM_cons_eq_ok h
    rcases List.mem_cons.1 ha with rfl | ha
    · exact ⟨c, List.mem_cons_self .., hc⟩
    · obtain ⟨b, hb, hf⟩ := ih hl ha
      exact ⟨b, List.mem_cons_of_mem _ hb, hf⟩

theorem exists_of_mapM_error {α β : Type} {f : α → Except Fault β} {l : List α} {e : Fault}
    (h : l.mapM f = .error e) : ∃ a ∈ l, f a = .error e := by
  induction l with
  | nil => cases h
  | cons a l ih =>
    rw [List.mapM_cons] at h
    rcases bind_eq_error_iff.1 h with ha | ⟨c, -, h⟩
    · exact ⟨a, List.mem_cons_self .., ha⟩
    rcases bind_eq_error_iff.1 h with hl | ⟨cs, -, h⟩
    · obtain ⟨x, hx, hfx⟩ := ih hl
      exact ⟨x, List.mem_cons_of_mem _ hx, hfx⟩
    · cases h

theorem found_eq_ok {x : Router} {rs : List LinkRecord} (h : n.found x = .ok rs) :
    ∃ links stubs, rs = links.flatten ++ stubs ∧
      ((n.node x.node).interfaces.mapM fun i => (n.sighting x i).records) = .ok links ∧
      ((n.node x.node).stubs.mapM fun s =>
        stubRecord s.network s.mask (s.cost.getD x.config.stubCost)) = .ok stubs := by
  rw [found] at h
  obtain ⟨links, hl, h⟩ := bind_eq_ok_iff.1 h
  obtain ⟨stubs, hs, h⟩ := bind_eq_ok_iff.1 h
  exact ⟨links, stubs, (Except.ok.inj h).symm, hl, hs⟩

theorem stubRecord_type {a : Address} {m : Mask} {c : Metric} {r : LinkRecord}
    (h : stubRecord a m c = .ok r) : r.type = .stubNetwork := by
  rw [stubRecord] at h
  obtain ⟨y, -, h⟩ := bind_eq_ok_iff.1 h
  exact Except.ok.inj h ▸ rfl

theorem sightStub_type {c : Config} {x : Interface} {r : LinkRecord}
    (h : sightStub c x = .record r) : r.type = .stubNetwork := by
  unfold sightStub at h
  split at h
  · split at h
    · split at h
      · next hr =>
        obtain rfl := Sighting.record.inj h
        exact stubRecord_type hr
      · cases h
    · cases h
  · cases h

theorem sightLink_record {c : Config} {i : InterfaceId} {channel : Channel} {a : Address}
    {r : LinkRecord} (h : sightLink n c i channel a = .record r) :
    r.type = .pointToPoint ∧ r.data = a := by
  unfold sightLink at h
  split at h
  · cases h
  · split at h
    · cases h
    · exact Sighting.record.inj h ▸ ⟨rfl, rfl⟩

/-- What is seen at an interface, by its state and its channel. -/
theorem sighting_cases (n : Network) (x : Router) (i : InterfaceId) :
    n.sighting x i = .down ∨
    ((n.interface i).channel = none ∧ n.sighting x i = sightStub x.config (n.interface i)) ∨
    ∃ c, (n.interface i).channel = some c ∧
      (((n.channel c).isPointToPoint = false ∧ ∃ m, n.sighting x i = .malformed m) ∨
        (n.channel c).isPointToPoint = true ∧
          ((n.interface i).address = none ∧ n.sighting x i = .noAddress ∨
            ∃ a, (n.interface i).address = some a ∧
              n.sighting x i = sightLink n x.config i (n.channel c) a)) := by
  unfold sighting
  dsimp only
  split
  · exact .inl rfl
  · refine .inr ?_
    cases (n.interface i).channel with
    | none => exact .inl ⟨rfl, rfl⟩
    | some c =>
      refine .inr ⟨c, rfl, ?_⟩
      dsimp only [Option.map_some]
      cases (n.channel c).isPointToPoint with
      | false => exact .inl ⟨rfl, _, rfl⟩
      | true =>
        refine .inr ⟨rfl, ?_⟩
        cases (n.interface i).address with
        | none => exact .inl ⟨rfl, rfl⟩
        | some a => exact .inr ⟨a, rfl, rfl⟩

theorem sightStub_ne_malformed {c : Config} {x : Interface} {m : MalformedChannel} :
    sightStub c x ≠ .malformed m := by
  unfold sightStub
  split
  · split
    · split <;> nofun
    · nofun
  · nofun

theorem sightLink_cases (n : Network) (c : Config) (i : InterfaceId) (channel : Channel)
    (a : Address) : (∃ r, sightLink n c i channel a = .record r) ∨
      sightLink n c i channel a = .peerDown channel.id ∨
      sightLink n c i channel a = .peerNotRouter channel.id := by
  unfold sightLink
  split
  · exact .inr (.inl rfl)
  · split
    · exact .inr (.inr rfl)
    · exact .inl ⟨_, rfl⟩

theorem address_of_sighting {x : Router} {i : InterfaceId} {r : LinkRecord}
    (h : n.sighting x i = .record r) (htype : r.type = .pointToPoint) :
    (n.interface i).address = some r.data := by
  rcases sighting_cases n x i with hs | ⟨-, hs⟩ | ⟨c, -, ⟨-, m, hs⟩ | ⟨-, ⟨-, hs⟩ | ⟨a, ha, hs⟩⟩⟩ <;>
    rw [hs] at h
  · cases h
  · rw [sightStub_type h] at htype
    cases htype
  · cases h
  · cases h
  · rw [ha, (sightLink_record h).2]

theorem type_of_sighting {x : Router} {i : InterfaceId} {r : LinkRecord}
    (h : n.sighting x i = .record r) {c : ChannelId} (hc : (n.interface i).channel = some c) :
    r.type = .pointToPoint := by
  rcases sighting_cases n x i with hs | ⟨hnone, -⟩ |
    ⟨c', -, ⟨-, m, hs⟩ | ⟨-, ⟨-, hs⟩ | ⟨a, -, hs⟩⟩⟩
  · cases hs.symm.trans h
  · cases hnone.symm.trans hc
  · cases hs.symm.trans h
  · cases hs.symm.trans h
  · exact (sightLink_record (hs.symm.trans h)).1

theorem toAddress_of_stubRecord {a : Address} {m : Mask} {c : Metric} {f : Fault}
    (h : stubRecord a m c = .error f) : m.toAddress = .error f := by
  rw [stubRecord] at h
  rcases bind_eq_error_iff.1 h with hm | ⟨y, -, h⟩
  · exact hm
  · cases h

theorem channel_of_malformed {x : Router} {i : InterfaceId} {m : MalformedChannel}
    (h : n.sighting x i = .malformed m) :
    ∃ c, (n.interface i).channel = some c ∧ (n.channel c).isPointToPoint = false := by
  rcases sighting_cases n x i with hs | ⟨-, hs⟩ | ⟨c, hc, ⟨hends, -⟩ | ⟨-, ⟨-, hs⟩ | ⟨a, -, hs⟩⟩⟩
  · cases hs.symm.trans h
  · exact absurd (hs.symm.trans h) sightStub_ne_malformed
  · exact ⟨c, hc, hends⟩
  · cases hs.symm.trans h
  · rcases sightLink_cases n x.config i (n.channel c) a with ⟨r, hl⟩ | hl | hl <;>
      cases (hl.symm.trans hs.symm).trans h

theorem mask_of_unusable {x : Router} {i : InterfaceId} {f : Fault}
    (h : n.sighting x i = .unusableMask f) :
    ∃ m, (n.interface i).mask = some m ∧ m.toAddress = .error f := by
  rcases sighting_cases n x i with hs | ⟨-, hs⟩ | ⟨c, -, ⟨-, m, hs⟩ | ⟨-, ⟨-, hs⟩ | ⟨a, -, hs⟩⟩⟩
  · cases hs.symm.trans h
  · rw [hs] at h
    unfold sightStub at h
    split at h
    · next hm =>
      split at h
      · split at h
        · cases h
        · next hr =>
          obtain rfl := Sighting.unusableMask.inj h
          exact ⟨_, hm, toAddress_of_stubRecord hr⟩
      · cases h
    · cases h
  · cases hs.symm.trans h
  · cases hs.symm.trans h
  · rcases sightLink_cases n x.config i (n.channel c) a with ⟨r, hl⟩ | hl | hl <;>
      cases (hl.symm.trans hs.symm).trans h

/-- Every link that a router advertises is what it sees at one of its interfaces. -/
theorem sighting_of_found {x : Router} {rs : List LinkRecord} (h : n.found x = .ok rs)
    {r : LinkRecord} (hr : r ∈ rs) (htype : r.type = .pointToPoint) :
    ∃ i ∈ (n.node x.node).interfaces, n.sighting x i = .record r := by
  obtain ⟨links, stubs, rfl, hl, hs⟩ := found_eq_ok h
  rcases List.mem_append.1 hr with hr | hr
  · obtain ⟨l, hmem, hr⟩ := List.mem_flatten.1 hr
    obtain ⟨i, hi, hsight⟩ := exists_of_mapM_ok hl hmem
    refine ⟨i, hi, ?_⟩
    cases hx : n.sighting x i with
    | record r' =>
      rw [hx] at hsight
      obtain rfl := Except.ok.inj hsight
      rw [List.mem_singleton.1 hr]
    | unusableMask | malformed => rw [hx] at hsight; cases hsight
    | down | nothing | noAddress | peerDown | peerNotRouter =>
      rw [hx] at hsight
      obtain rfl := Except.ok.inj hsight
      cases hr
  · obtain ⟨s, -, hstub⟩ := exists_of_mapM_ok hs hr
    rw [stubRecord_type hstub] at htype
    cases htype

/-- What a router sees at one of its interfaces it advertises. -/
theorem mem_of_sighting {x : Router} {rs : List LinkRecord} (h : n.found x = .ok rs)
    {i : InterfaceId} (hi : i ∈ (n.node x.node).interfaces) {r : LinkRecord}
    (hs : n.sighting x i = .record r) : r ∈ rs := by
  obtain ⟨links, stubs, rfl, hl, -⟩ := found_eq_ok h
  obtain ⟨l, hmem, hsight⟩ := mem_of_mapM_ok hl hi
  rw [hs] at hsight
  obtain rfl := Except.ok.inj hsight
  exact List.mem_append_left _ (List.mem_flatten.2 ⟨[r], hmem, List.mem_singleton_self r⟩)

theorem address_of_found {x : Router} {rs : List LinkRecord} (h : n.found x = .ok rs)
    {r : LinkRecord} (hr : r ∈ rs) (htype : r.type = .pointToPoint) :
    ∃ i ∈ n.interfacesOf x.node, i.address = some r.data := by
  obtain ⟨i, hi, hs⟩ := sighting_of_found h hr htype
  exact ⟨n.interface i, List.mem_map_of_mem hi, address_of_sighting hs htype⟩

structure WholeMasks (n : Network) (k : NodeId) : Prop where
  interfaces : ∀ i ∈ n.interfacesOf k, ∀ m, i.mask = some m → m.Whole
  stubs : ∀ s ∈ (n.node k).stubs, s.mask.Whole

/-- The mask is one of an interface or of a stub network of the node. -/
def HasMask (n : Network) (k : NodeId) (m : Mask) : Prop :=
  (∃ i ∈ n.interfacesOf k, i.mask = some m) ∨ ∃ s ∈ (n.node k).stubs, s.mask = m

theorem WholeMasks.whole {k : NodeId} {m : Mask} (hw : n.WholeMasks k) (hm : n.HasMask k m) :
    m.Whole := by
  rcases hm with ⟨i, hi, him⟩ | ⟨s, hs, rfl⟩
  · exact hw.interfaces i hi m him
  · exact hw.stubs s hs

/-- Discovery fails at an interface on a malformed channel, or at a mask that has no form as an
address. -/
theorem exists_of_found_error {x : Router} {f : Fault} (h : n.found x = .error f) :
    (∃ m, f = .malformedChannel m ∧
        ∃ i ∈ (n.node x.node).interfaces, n.sighting x i = .malformed m) ∨
      ∃ m, n.HasMask x.node m ∧ m.toAddress = .error f := by
  rw [found] at h
  rcases bind_eq_error_iff.1 h with hl | ⟨links, -, h⟩
  · obtain ⟨i, hi, hs⟩ := exists_of_mapM_error hl
    cases hsight : n.sighting x i with
    | malformed m =>
      rw [hsight] at hs
      exact .inl ⟨m, (Except.error.inj hs).symm, i, hi, hsight⟩
    | unusableMask g =>
      rw [hsight] at hs
      obtain rfl := Except.error.inj hs
      obtain ⟨m, hm, he⟩ := mask_of_unusable hsight
      exact .inr ⟨m, .inl ⟨_, List.mem_map_of_mem hi, hm⟩, he⟩
    | record | down | nothing | noAddress | peerDown | peerNotRouter =>
      rw [hsight] at hs
      cases hs
  rcases bind_eq_error_iff.1 h with hs | ⟨stubs, -, h⟩
  · obtain ⟨s, hmem, hstub⟩ := exists_of_mapM_error hs
    exact .inr ⟨s.mask, .inr ⟨s, hmem, rfl⟩, toAddress_of_stubRecord hstub⟩
  · cases h

/-- With whole masks nothing but a malformed channel makes discovery fail. -/
theorem malformed_of_found {x : Router} {f : Fault} (hw : n.WholeMasks x.node)
    (h : n.found x = .error f) : ∃ m, f = .malformedChannel m := by
  rcases exists_of_found_error h with ⟨m, hf, -⟩ | ⟨m, hm, he⟩
  · exact ⟨m, hf⟩
  · obtain ⟨a, ha⟩ := (hw.whole hm).exists_toAddress
    rw [ha] at he
    cases he

end Network

end LinkState
