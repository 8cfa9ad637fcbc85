import LinkState.Proofs.Containment

/-! Discovery where channels are malformed. It fails at the first interface, in the order in which
they were added, that is not skipped as down and whose channel has other than two ends; what was
found before that is lost. Only the router itself is changed. -/

namespace LinkState

namespace Network

variable {n n' : Network} {x : Router} {i : InterfaceId} {c : ChannelId} {r : RouterId}

def OnMalformed (n : Network) (i : InterfaceId) : Prop :=
  ∃ c, (n.interface i).channel = some c ∧ (n.channel c).ends.length ≠ 2

/-- The interface is on such a channel and not skipped as down. -/
def Faulty (n : Network) (x : Router) (i : InterfaceId) : Prop :=
  ¬ (x.config.skipDown.isOn ∧ (n.interface i).isUp = false) ∧ n.OnMalformed i

instance (n : Network) (i : InterfaceId) : Decidable (n.OnMalformed i) :=
  decidable_of_iff (∃ c ∈ (n.interface i).channel, (n.channel c).ends.length ≠ 2) Iff.rfl

instance (n : Network) (x : Router) (i : InterfaceId) : Decidable (n.Faulty x i) :=
  inferInstanceAs (Decidable (_ ∧ _))

/-- The fault that names the channel and how many ends it has. -/
def channelFault (n : Network) (x : Router) (c : ChannelId) : Fault :=
  .malformedChannel ⟨(n.node x.node).id, (n.channel c).id, .ofNat (n.channel c).ends.length⟩

/-! ### The first malformed channel -/

theorem records_of_faulty (h : n.Faulty x i) (hc : (n.interface i).channel = some c) :
    (n.sighting x i).records = .error (n.channelFault x c) := by
  obtain ⟨hup, c', hc', hends⟩ := h
  obtain rfl := Option.some.inj (hc.symm.trans hc')
  have hskip : (x.config.skipDown.isOn && !(n.interface i).isUp) = false := by
    simpa using hup
  simp [sighting, hskip, hc, Channel.isPointToPoint, hends, Sighting.records, channelFault]

theorem faulty_of_malformed {m : MalformedChannel} (h : n.sighting x i = .malformed m) :
    n.Faulty x i := by
  obtain ⟨c, hc, hends⟩ := channel_of_malformed h
  refine ⟨fun hdown => ?_, c, hc, of_decide_eq_false hends⟩
  rw [sighting, if_pos (by simpa using hdown)] at h
  cases h

theorem exists_records (hw : n.WholeMasks x.node) (hi : i ∈ (n.node x.node).interfaces)
    (hf : ¬ n.Faulty x i) : ∃ rs, (n.sighting x i).records = .ok rs := by
  cases hs : n.sighting x i with
  | malformed m => exact absurd (faulty_of_malformed hs) hf
  | unusableMask f =>
    obtain ⟨m, hm, he⟩ := mask_of_unusable hs
    obtain ⟨a, ha⟩ := (hw.whole (.inl ⟨_, List.mem_map_of_mem hi, hm⟩)).exists_toAddress
    cases he.symm.trans ha
  | down | nothing | record | noAddress | peerDown | peerNotRouter => exact ⟨_, rfl⟩

theorem exists_mapM_ok {α β : Type} {f : α → Except Fault β} {l : List α}
    (h : ∀ a ∈ l, ∃ b, f a = .ok b) : ∃ bs, l.mapM f = .ok bs := by
  cases hl : l.mapM f with
  | ok bs => exact ⟨bs, rfl⟩
  | error e =>
    obtain ⟨a, ha, he⟩ := exists_of_mapM_error hl
    obtain ⟨b, hb⟩ := h a ha
    cases he.symm.trans hb

/-- The first error is the outcome. -/
theorem mapM_eq_error {α β : Type} {f : α → Except Fault β} {before after : List α} {a : α}
    {e : Fault} (hok : ∀ b ∈ before, ∃ c, f b = .ok c) (ha : f a = .error e) :
    (before ++ a :: after).mapM f = .error e := by
  obtain ⟨bs, hbs⟩ := exists_mapM_ok hok
  rw [List.mapM_append, hbs, List.mapM_cons, ha]
  rfl

theorem found_of_faulty (hw : n.WholeMasks x.node)
    (hi : (n.node x.node).interfaces.find? (n.Faulty x ·) = some i)
    (hc : (n.interface i).channel = some c) : n.found x = .error (n.channelFault x c) := by
  obtain ⟨hfaulty, before, after, hsplit, hbefore⟩ := List.find?_eq_some_iff_append.1 hi
  have hmapM : ((n.node x.node).interfaces.mapM fun i => (n.sighting x i).records) =
      .error (n.channelFault x c) := by
    have hfirst := records_of_faulty (of_decide_eq_true hfaulty) hc
    rw [hsplit]
    refine mapM_eq_error (fun j hj => exists_records hw ?_ ?_) hfirst
    · rw [hsplit]
      exact List.mem_append_left _ hj
    · simpa using hbefore j hj
  rw [found, hmapM]
  rfl

theorem exists_found_error (hw : n.WholeMasks x.node)
    (h : ∃ i ∈ (n.node x.node).interfaces, n.Faulty x i) :
    ∃ c, n.found x = .error (n.channelFault x c) := by
  cases hi : (n.node x.node).interfaces.find? (n.Faulty x ·) with
  | none =>
    obtain ⟨i, hmem, hfaulty⟩ := h
    exact absurd (decide_eq_true hfaulty) (List.find?_eq_none.1 hi i hmem)
  | some i =>
    have hfirst := List.find?_some hi
    obtain ⟨c, hc, -⟩ := (of_decide_eq_true hfirst).2
    exact ⟨c, found_of_faulty hw hi hc⟩

theorem found_of_sound (hw : n.WholeMasks x.node)
    (hs : ∀ i ∈ (n.node x.node).interfaces, ¬ n.Faulty x i) : ∃ rs, n.found x = .ok rs := by
  cases hf : n.found x with
  | ok rs => exact ⟨rs, rfl⟩
  | error f =>
    rcases exists_of_found_error hf with ⟨m, -, i, hi, hm⟩ | ⟨m, hm, he⟩
    · exact absurd (faulty_of_malformed hm) (hs i hi)
    · obtain ⟨a, ha⟩ := (hw.whole hm).exists_toAddress
      cases he.symm.trans ha

/-! ### Discovery on one router -/

theorem ends_rediscover (hr : r < n.routers.size) : Ends (rediscover r) n fun res n' =>
    res = (n.found (n.router r)).map (fun _ => 1) ∧
      Logged (n.setFound r (n.discovered (n.router r))) n' := by
  refine Ends.bind ((ends_discover r).mono ?_)
  rintro res n' - ⟨rfl, j, rfl⟩
  cases hf : n.found (n.router r) with
  | error f => exact ⟨rfl, j, rfl⟩
  | ok rs =>
    refine Completes.bind (completes_get (ends_pure ⟨congrArg _ ?_, j, rfl⟩))
    show ((n.setFound r (n.discovered (n.router r))).router r).advertisement.toList.length = 1
    rw [router_setFound hr, discovered, hf]
    rfl

structure Rediscovered (n : Network) (r : RouterId) (res : Except Fault Nat) (n' : Network) :
    Prop where
  fails_iff : (∃ m, res = .error (.malformedChannel m)) ↔
    ∃ i ∈ (n.node (n.router r).node).interfaces, n.Faulty (n.router r) i
  /-- The fault names the channel of the first faulty interface. -/
  fails : ∀ i c, (n.node (n.router r).node).interfaces.find? (n.Faulty (n.router r) ·) = some i →
    (n.interface i).channel = some c →
    res = .error (n.channelFault (n.router r) c) ∧ n'.advertisementCount r = 0
  succeeds : (∀ i ∈ (n.node (n.router r).node).interfaces, ¬ n.Faulty (n.router r) i) →
    res = .ok 1 ∧ n'.advertisementCount r = 1
  interfaces : n'.interfaces = n.interfaces
  channels : n'.channels = n.channels
  nodes : n'.nodes = n.nodes
  tables : n'.tables = n.tables
  own : (n'.router r).blank = (n.router r).blank
  others : ∀ s, s ≠ r → n'.router s = n.router s
  /-- Who loses an advertisement is on a malformed channel. -/
  losers : ∀ s, n'.advertisementCount s < n.advertisementCount s →
    ∃ i ∈ (n.node (n.router s).node).interfaces, n.OnMalformed i

/-- Unless a subscriber stops it, discovery on a router with whole masks succeeds if none of its
interfaces is faulty, and fails at the first one that is. In either case nothing but its own
advertisement changes. -/
theorem rediscover_malformedChannels (hr : r < n.routers.size)
    (hw : n.WholeMasks (n.router r).node) :
    Ends (rediscover r) n fun res n' => Rediscovered n r res n' := by
  refine (ends_rediscover hr).mono ?_
  rintro res n' - ⟨rfl, j, rfl⟩
  have hcount : advertisementCount
      { n.setFound r (n.discovered (n.router r)) with journal := j } r =
        (n.discovered (n.router r)).toList.length := by
    show ((n.setFound r (n.discovered (n.router r))).router r).advertisement.toList.length = _
    rw [router_setFound hr]
  have hother (s : RouterId) (hs : s ≠ r) :
      Network.router { n.setFound r (n.discovered (n.router r)) with journal := j } s =
        n.router s := router_setFound_of_ne hs _
  refine ⟨?_, ?_, ?_, rfl, rfl, rfl, rfl, (SameTopology.setFound ..).router r, hother, ?_⟩
  · by_cases hfaulty : ∃ i ∈ (n.node (n.router r).node).interfaces, n.Faulty (n.router r) i
    · obtain ⟨c, hf⟩ := exists_found_error hw hfaulty
      rw [hf]
      exact iff_of_true ⟨_, rfl⟩ hfaulty
    · obtain ⟨rs, hf⟩ := found_of_sound hw fun i hi hi' => hfaulty ⟨i, hi, hi'⟩
      rw [hf]
      exact iff_of_false nofun hfaulty
  · intro i c hi hc
    rw [hcount, discovered, found_of_faulty hw hi hc]
    exact ⟨rfl, rfl⟩
  · intro hs
    obtain ⟨rs, hf⟩ := found_of_sound hw hs
    rw [hcount, discovered, hf]
    exact ⟨rfl, rfl⟩
  · intro s hlt
    by_cases hs : s = r
    · subst hs
      by_contra hno
      -- the router would have one advertisement, and had no more before
      obtain ⟨rs, hf⟩ := found_of_sound hw fun i hi hfaulty => hno ⟨i, hi, hfaulty.2⟩
      rw [hcount, discovered, hf, advertisementCount] at hlt
      cases ha : (n.router s).advertisement <;> simp [ha, Except.toOption] at hlt
    · rw [advertisementCount, advertisementCount, hother s hs] at hlt
      exact absurd hlt (lt_irrefl _)

/-- A router that was discovered before, with an interface that is down, one on a channel with three
ends and one on a channel with one. -/
def overloadedSetup : NetworkM Unit := do
  let a ← newRouterNode "A"
  let b ← newRouterNode "B"
  newLink a b "ab" ⟨10, 0, 0, 1⟩ ⟨10, 0, 0, 2⟩ 5
  discard (rediscover 0)
  let down ← addInterface a "down" (some ⟨10, 0, 1, 1⟩) (some linkMask) .serial
  attach (← newChannel "unused") down
  setUp down false
  let shared ← newChannel "shared"
  attach shared (← addInterface a "near" none none .serial)
  attach shared (← addInterface b "far" (some ⟨10, 0, 2, 2⟩) (some linkMask) .serial)
  attach shared (← addInterface b "tap" (some ⟨10, 0, 2, 3⟩) (some linkMask) .serial)
  attach (← newChannel "loose")
    (← addInterface a "loose" (some ⟨10, 0, 3, 1⟩) (some linkMask) .serial)

def overloaded : Network := (exec overloadedSetup .empty).2

/-- The channel with three ends is the one that is named. -/
theorem rediscover_malformedChannels_overloaded :
    0 < overloaded.routers.size ∧ overloaded.WholeMasks (overloaded.router 0).node ∧
      Rediscovered overloaded 0 (exec (rediscover 0) overloaded).1
        (exec (rediscover 0) overloaded).2 ∧
      overloaded.advertisementCount 0 = 1 ∧
      ∃ id, (exec (rediscover 0) overloaded).1 =
        .error (.malformedChannel ⟨id, "shared", .ofNat 3⟩) := by
  have hr : 0 < overloaded.routers.size := by decide +kernel
  have hw : overloaded.WholeMasks (overloaded.router 0).node := by decide +kernel
  have h := (rediscover_malformedChannels hr hw).of_quiet (quiet_of_nil (by decide +kernel))
  have hfirst : (overloaded.node (overloaded.router 0).node).interfaces.find?
      (overloaded.Faulty (overloaded.router 0) ·) = some 3 := by decide +kernel
  have hchannel : (overloaded.interface 3).channel = some 2 := by decide +kernel
  have hid : (overloaded.channel 2).id = "shared" := by decide +kernel
  have hends : (overloaded.channel 2).ends.length = 3 := by decide +kernel
  have hcount : overloaded.advertisementCount 0 = 1 := by decide +kernel
  have hfault := (h.fails 3 2 hfirst hchannel).1
  rw [channelFault, hid, hends] at hfault
  exact ⟨hr, hw, h, hcount, _, hfault⟩

end Network

end LinkState
