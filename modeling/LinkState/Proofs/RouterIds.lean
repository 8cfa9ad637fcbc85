import LinkState.Proofs.Addressing
import LinkState.Proofs.Wiring

/-! The IDs of routers. Callers ask for them, and so does the construction of a router. They count
up from the last reset, whatever becomes of the routers, and when the addresses are used up every
request is refused: no address comes round again, and no router has the ID of another. -/

namespace LinkState

namespace Config

theorem cost_eq_error {field : String} {dflt : Metric} {s : Option Setting} {f : Fault}
    (h : cost field dflt s = .error f) : ∃ text, f = .configuredCost field text := by
  cases s with
  | none => cases h
  | some s =>
    rw [cost] at h
    split at h
    · cases h
    · exact ⟨s.text, (Except.error.inj h).symm⟩

/-- What is wrong with a configuration is one of its costs. -/
theorem make_eq_error {overrides : ConfigOverrides} {f : Fault}
    (h : make overrides = .error f) : ∃ field text, f = .configuredCost field text := by
  rcases bind_eq_error_iff.1 h with hi | ⟨_, -, h⟩
  · exact ⟨_, cost_eq_error hi⟩
  · rcases bind_eq_error_iff.1 h with hs | ⟨_, -, h⟩
    · exact ⟨_, cost_eq_error hs⟩
    · cases h

end Config

namespace Network

variable {n n' n'' : Network} {k : NodeId} {overrides : ConfigOverrides} {config : Config}

def routerIds (n : Network) : List Address := n.routers.toList.map Router.id

theorem length_routerIds : n.routerIds.length = n.routers.size := by simp [routerIds]

theorem getElem?_routerIds {r : RouterId} (hr : r < n.routers.size) :
    n.routerIds[r]? = some (n.router r).id := by
  simp [routerIds, router, hr]

structure SameRouterIds (n n' : Network) : Prop where
  nextRouterId : n'.nextRouterId = n.nextRouterId
  routerIds : n'.routerIds = n.routerIds

theorem SameRouterIds.trans (h : SameRouterIds n n') (h' : SameRouterIds n' n'') :
    SameRouterIds n n'' :=
  ⟨h'.nextRouterId.trans h.nextRouterId, h'.routerIds.trans h.routerIds⟩

theorem Logged.sameRouterIds (h : Logged n n') : SameRouterIds n n' := by
  obtain ⟨j, rfl⟩ := h
  exact ⟨rfl, rfl⟩

/-! ### One request -/

theorem allocateRouterId_of_le (h : n.nextRouterId ≤ 0xFFFFFFFF) :
    exec allocateRouterId n =
      (.ok (.ofNat n.nextRouterId), { n with nextRouterId := n.nextRouterId + 1 }) := by
  rw [allocateRouterId, exec_get_bind, if_pos (Nat.lt_succ_of_le h)]
  rfl

theorem allocateRouterId_of_lt (h : 0xFFFFFFFF < n.nextRouterId) :
    exec allocateRouterId n = (.error .routerIdsExhausted, n) := by
  rw [allocateRouterId, exec_get_bind, if_neg (Nat.not_lt_of_le h)]
  rfl

/-- An invalid configuration is found before an ID is asked for. -/
theorem newRouter_of_error {f : Fault} (hc : Config.make overrides = .error f) :
    exec (newRouter k overrides) n = (.error f, n) := by
  rw [newRouter, exec_bind, hc, exec_lift]

theorem newRouter_of_lt (hc : Config.make overrides = .ok config)
    (h : 0xFFFFFFFF < n.nextRouterId) :
    exec (newRouter k overrides) n = (.error .routerIdsExhausted, n) := by
  rw [newRouter, exec_bind, hc, exec_lift]
  dsimp only
  rw [exec_bind, allocateRouterId_of_lt h]

theorem sameRouterIds_setRouter (r : Option RouterId) :
    SameRouterIds n (exec (setRouter k r) n).2 := by
  rw [exec_setRouter]
  split
  · exact ⟨rfl, rfl⟩
  · exact ⟨rfl, rfl⟩

/-- A router has its ID before it is known whether its node can have the router. -/
theorem newRouter_of_le (hc : Config.make overrides = .ok config)
    (h : n.nextRouterId ≤ 0xFFFFFFFF) :
    (exec (newRouter k overrides) n).2.nextRouterId = n.nextRouterId + 1 ∧
      (exec (newRouter k overrides) n).2.routerIds = n.routerIds ++ [.ofNat n.nextRouterId] := by
  have hsame : SameRouterIds
      { n with
        nextRouterId := n.nextRouterId + 1
        routers := n.routers.push ⟨k, .ofNat n.nextRouterId, config, none⟩ }
      (exec (newRouter k overrides) n).2 := by
    rw [newRouter, exec_bind, hc, exec_lift]
    dsimp only
    rw [exec_bind, allocateRouterId_of_le h]
    refine exec_bind_post (P := SameRouterIds _) ⟨rfl, rfl⟩ fun r n₁ h₁ => ?_
    refine exec_bind_post (h₁.trans (sameRouterIds_setRouter _)) fun _ n₂ h₂ => ?_
    exact h₂.trans (Logged.sameRouterIds logged_log)
  refine ⟨hsame.nextRouterId, hsame.routerIds.trans ?_⟩
  simp [routerIds]

/-! ### Sessions -/

structure IdRequest where
  /-- For a router, not for a caller. -/
  construction : Bool
  answer : Except Fault Address

/-- A call that may ask for an ID, or one that has no part in them. -/
inductive RouterCall where
  | allocateRouterId
  | newRouter (k : NodeId) (overrides : ConfigOverrides)
  | other (x : NetworkM Unit) (same : ∀ n, SameRouterIds n (exec x n).2)

/-- What a construction asked for, seen from its outcome: the IDs of new routers, or one that it was
refused. -/
def constructed (before : Network) (outcome : Except Fault Unit × Network) : List IdRequest :=
  match outcome.2.routerIds.drop before.routerIds.length, outcome.1 with
  | [], .error .routerIdsExhausted => [⟨true, .error .routerIdsExhausted⟩]
  | ids, _ => ids.map fun a => ⟨true, .ok a⟩

structure Allocation where
  network : Network
  requests : List IdRequest

def Allocation.call (s : Allocation) : RouterCall → Allocation
  | .allocateRouterId =>
    let (answer, n) := exec allocateRouterId s.network
    ⟨n, s.requests ++ [⟨false, answer⟩]⟩
  | .newRouter k overrides =>
    let outcome := exec (newRouter k overrides) s.network
    ⟨outcome.2, s.requests ++ constructed s.network outcome⟩
  | .other x _ => ⟨(exec x s.network).2, s.requests⟩

/-- The calls to a network whose IDs are reset first. -/
def afterRouterCalls (n : Network) (base : Address) (calls : List RouterCall) : Allocation :=
  calls.foldl Allocation.call ⟨(exec (resetRouterIds base) n).2, []⟩

/-- The answer to the request number `i` after a reset. -/
def idAt (base : Address) (i : Nat) : Except Fault Address :=
  if base.toNat + i ≤ 0xFFFFFFFF then .ok (.ofNat (base.toNat + i)) else .error .routerIdsExhausted

def granted (requests : List IdRequest) : List Address :=
  requests.filterMap (·.answer.toOption)

/-- The IDs that were asked for by constructions of routers. -/
def grantedToRouters (requests : List IdRequest) : List Address :=
  granted (requests.filter (·.construction))

variable {base : Address} {calls : List RouterCall} {s : Allocation} {c : RouterCall} {i : Nat}

theorem afterRouterCalls_append_singleton :
    afterRouterCalls n base (calls ++ [c]) = (afterRouterCalls n base calls).call c :=
  List.foldl_concat _ _ _ _

theorem constructed_of_append {outcome : Except Fault Unit × Network} {a : Address}
    (h : outcome.2.routerIds = n.routerIds ++ [a]) : constructed n outcome = [⟨true, .ok a⟩] := by
  unfold constructed
  rw [h, List.drop_left]
  rfl

theorem constructed_of_exhausted :
    constructed n (.error .routerIdsExhausted, n) = [⟨true, .error .routerIdsExhausted⟩] := by
  unfold constructed
  rw [List.drop_length]

theorem constructed_of_error {f : Fault} (hf : f ≠ .routerIdsExhausted) :
    constructed n (.error f, n) = [] := by
  unfold constructed
  rw [List.drop_length]
  split
  · next h => exact absurd (Except.error.inj h) hf
  · rfl

theorem idAt_of_le (h : base.toNat + i ≤ 0xFFFFFFFF) :
    ∃ a, idAt base i = .ok a ∧ a.toNat = base.toNat + i :=
  ⟨.ofNat (base.toNat + i), if_pos h, Address.toNat_ofNat (Nat.lt_succ_of_le h)⟩

theorem idAt_of_lt (h : 0xFFFFFFFF < base.toNat + i) : idAt base i = .error .routerIdsExhausted :=
  if_neg (Nat.not_le_of_lt h)

theorem toNat_of_idAt {a : Address} (h : idAt base i = .ok a) : a.toNat = base.toNat + i := by
  by_cases hle : base.toNat + i ≤ 0xFFFFFFFF
  · obtain ⟨b, hb, hval⟩ := idAt_of_le hle
    rw [← Except.ok.inj (hb.symm.trans h), hval]
  · rw [idAt_of_lt (Nat.lt_of_not_le hle)] at h
    cases h

theorem grantedToRouters_append (rs ts : List IdRequest) :
    grantedToRouters (rs ++ ts) = grantedToRouters rs ++ grantedToRouters ts := by
  simp [grantedToRouters, granted]

/-- What holds after each call to the network `n`. -/
structure Allocation.Kept (n : Network) (base : Address) (s : Allocation) : Prop where
  next : s.network.nextRouterId = min (base.toNat + s.requests.length) 0x100000000
  answers : s.requests.map (·.answer) = (List.range s.requests.length).map (idAt base)
  routerIds : s.network.routerIds = n.routerIds ++ grantedToRouters s.requests

namespace Allocation.Kept

theorem reset (n : Network) (base : Address) :
    Allocation.Kept n base ⟨(exec (resetRouterIds base) n).2, []⟩ where
  next := by
    rw [List.length_nil, Nat.add_zero, min_eq_left base.toNat_lt.le]
    rfl
  answers := rfl
  routerIds := (List.append_nil _).symm

theorem le_iff (h : s.Kept n base) :
    s.network.nextRouterId ≤ 0xFFFFFFFF ↔ base.toNat + s.requests.length ≤ 0xFFFFFFFF := by
  rw [h.next]
  omega

theorem asked (h : s.Kept n base) {r : IdRequest} (hr : r.answer = idAt base s.requests.length)
    (hnext : n'.nextRouterId = min (base.toNat + (s.requests.length + 1)) 0x100000000)
    (hids : n'.routerIds = s.network.routerIds ++ grantedToRouters [r]) :
    Allocation.Kept n base ⟨n', s.requests ++ [r]⟩ where
  next := by rw [hnext, List.length_append, List.length_singleton]
  answers := by
    rw [List.map_append, h.answers, List.map_singleton, hr, List.length_append,
      List.length_singleton, List.range_succ, List.map_append, List.map_singleton]
  routerIds := by rw [hids, h.routerIds, grantedToRouters_append, List.append_assoc]

theorem grant (h : s.Kept n base) (hle : s.network.nextRouterId ≤ 0xFFFFFFFF) (construction : Bool)
    (hnext : n'.nextRouterId = s.network.nextRouterId + 1)
    (hids : n'.routerIds = s.network.routerIds ++
      grantedToRouters [⟨construction, .ok (.ofNat s.network.nextRouterId)⟩]) :
    Allocation.Kept n base
      ⟨n', s.requests ++ [⟨construction, .ok (.ofNat s.network.nextRouterId)⟩]⟩ := by
  have hnow : s.network.nextRouterId = base.toNat + s.requests.length := by
    have hold := h.next
    omega
  refine h.asked ?_ (by omega) hids
  rw [idAt, if_pos (h.le_iff.1 hle), hnow]

theorem refuse (h : s.Kept n base) (hlt : 0xFFFFFFFF < s.network.nextRouterId)
    (construction : Bool) :
    Allocation.Kept n base
      ⟨s.network, s.requests ++ [⟨construction, .error .routerIdsExhausted⟩]⟩ := by
  have hused : ¬ base.toNat + s.requests.length ≤ 0xFFFFFFFF :=
    mt h.le_iff.2 (Nat.not_le_of_lt hlt)
  refine h.asked (if_neg hused).symm ?_ ?_
  · have hold := h.next
    omega
  · cases construction <;> exact (List.append_nil _).symm

theorem allocateRouterId (h : s.Kept n base) : (s.call .allocateRouterId).Kept n base := by
  by_cases hle : s.network.nextRouterId ≤ 0xFFFFFFFF
  · rw [call, allocateRouterId_of_le hle]
    exact h.grant hle false rfl (List.append_nil _).symm
  · have hlt := Nat.lt_of_not_le hle
    rw [call, allocateRouterId_of_lt hlt]
    exact h.refuse hlt false

theorem newRouter (h : s.Kept n base) (k : NodeId) (overrides : ConfigOverrides) :
    (s.call (.newRouter k overrides)).Kept n base := by
  rw [call]
  cases hc : Config.make overrides with
  | error f =>
    obtain ⟨field, text, rfl⟩ := Config.make_eq_error hc
    have hf : Fault.configuredCost field text ≠ .routerIdsExhausted := nofun
    rw [newRouter_of_error hc, constructed_of_error hf, List.append_nil]
    exact h
  | ok config =>
    by_cases hle : s.network.nextRouterId ≤ 0xFFFFFFFF
    · obtain ⟨hnext, hids⟩ := newRouter_of_le (k := k) hc hle
      rw [constructed_of_append hids]
      exact h.grant hle true hnext hids
    · have hlt := Nat.lt_of_not_le hle
      rw [newRouter_of_lt hc hlt, constructed_of_exhausted]
      exact h.refuse hlt true

theorem other (h : s.Kept n base) (x : NetworkM Unit)
    (same : ∀ n, SameRouterIds n (exec x n).2) : (s.call (.other x same)).Kept n base := by
  obtain ⟨hnext, hids⟩ := same s.network
  exact ⟨hnext.trans h.next, h.answers, hids.trans h.routerIds⟩

theorem answer_eq (h : s.Kept n base) {r : IdRequest} (hr : s.requests[i]? = some r) :
    r.answer = idAt base i := by
  have hi := congrArg (·[i]?) h.answers
  have hlt : i < s.requests.length := (List.getElem?_eq_some_iff.1 hr).1
  simp only [List.getElem?_map, hr, List.getElem?_range hlt, Option.map_some] at hi
  exact Option.some.inj hi

theorem nodup_granted (h : s.Kept n base) : (granted s.requests).Nodup := by
  have heq : granted s.requests =
      (List.range s.requests.length).filterMap fun i => (idAt base i).toOption := by
    have hmap := congrArg (List.filterMap Except.toOption) h.answers
    rw [List.filterMap_map, List.filterMap_map] at hmap
    exact hmap
  rw [heq]
  refine List.nodup_range.filterMap fun i j a hi hj => ?_
  have hival := toNat_of_idAt (Search.toOption_eq_some_iff.1 hi)
  have hjval := toNat_of_idAt (Search.toOption_eq_some_iff.1 hj)
  omega

/-- The routers made since the reset have IDs of their own. -/
theorem own (h : s.Kept n base) {r r' : Nat} (hr : n.routers.size ≤ r) (hr' : n.routers.size ≤ r')
    (hlt : r < s.network.routers.size) (hlt' : r' < s.network.routers.size)
    (hid : (s.network.router r).id = (s.network.router r').id) : r = r' := by
  have hnodup : (grantedToRouters s.requests).Nodup :=
    h.nodup_granted.sublist (List.filter_sublist.filterMap _)
  have hnew {q : Nat} (hq : n.routers.size ≤ q) (hqlt : q < s.network.routers.size) :
      (grantedToRouters s.requests)[q - n.routers.size]? = some (s.network.router q).id := by
    rw [← getElem?_routerIds hqlt, h.routerIds, List.getElem?_append_right, length_routerIds]
    exact length_routerIds ▸ hq
  have hbound := (List.getElem?_eq_some_iff.1 (hnew hr hlt)).1
  have hsame := (hnew hr hlt).trans ((congrArg some hid).trans (hnew hr' hlt').symm)
  have heq := (List.getElem?_inj hbound hnodup).1 hsame
  omega

end Allocation.Kept

theorem kept_afterRouterCalls (n : Network) (base : Address) (calls : List RouterCall) :
    (afterRouterCalls n base calls).Kept n base := by
  induction calls using List.reverseRecOn with
  | nil => exact .reset n base
  | append_singleton calls c ih =>
    rw [afterRouterCalls_append_singleton]
    cases c with
    | allocateRouterId => exact ih.allocateRouterId
    | newRouter k overrides => exact ih.newRouter k overrides
    | other x same => exact ih.other x same

structure Allocation.Numbered (n : Network) (base : Address) (s : Allocation) : Prop where
  granted : ∀ i r, s.requests[i]? = some r → base.toNat + i ≤ 0xFFFFFFFF →
    ∃ a, r.answer = .ok a ∧ a.toNat = base.toNat + i
  refused : ∀ i r, s.requests[i]? = some r → 0xFFFFFFFF < base.toNat + i →
    r.answer = .error .routerIdsExhausted
  distinct : (Network.granted s.requests).Nodup
  /-- Once the IDs are used up, callers and routers with a valid configuration get none, and nothing
  changes. -/
  exhausted : 0xFFFFFFFF < base.toNat + s.requests.length →
    exec allocateRouterId s.network = (.error .routerIdsExhausted, s.network) ∧
      ∀ k overrides config, Config.make overrides = .ok config →
        exec (newRouter k overrides) s.network = (.error .routerIdsExhausted, s.network)
  routerIds : s.network.routerIds = n.routerIds ++ grantedToRouters s.requests
  /-- Of the routers made since, no two have one ID. -/
  own : ∀ r r', n.routers.size ≤ r → n.routers.size ≤ r' → r < s.network.routers.size →
    r' < s.network.routers.size → (s.network.router r).id = (s.network.router r').id → r = r'

/-- Until the next reset the requests for IDs are granted the values from the base on, one after the
other, as long as there are any, and are refused from then on, however many routers failed to be
made. -/
theorem afterRouterCalls_numbered (n : Network) (base : Address) (calls : List RouterCall) :
    (afterRouterCalls n base calls).Numbered n base := by
  have hkept := kept_afterRouterCalls n base calls
  refine ⟨fun i r hr hle => ?_, fun i r hr hlt => ?_, hkept.nodup_granted, fun hlt => ?_,
    hkept.routerIds, fun r r' => hkept.own⟩
  · rw [hkept.answer_eq hr]
    exact idAt_of_le hle
  · rw [hkept.answer_eq hr]
    exact idAt_of_lt hlt
  · have hused := Nat.lt_of_not_le (mt hkept.le_iff.1 (Nat.not_le_of_lt hlt))
    exact ⟨allocateRouterId_of_lt hused, fun k overrides config hc => newRouter_of_lt hc hused⟩

/-- The last two addresses go to a router and to one that its node has no room for, so another node
gets no router. -/
example : (afterRouterCalls (exec (newNode "A") .empty).2 ⟨255, 255, 255, 254⟩
    [.newRouter 0 .empty, .newRouter 0 .empty, .other (discard (newNode "B")) fun _ => ⟨rfl, rfl⟩,
      .newRouter 1 .empty]).requests.map (·.answer) =
      [.ok ⟨255, 255, 255, 254⟩, .ok ⟨255, 255, 255, 255⟩, .error .routerIdsExhausted] := by
  rfl

end Network

end LinkState
