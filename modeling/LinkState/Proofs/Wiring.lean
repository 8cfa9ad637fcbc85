import LinkState.Proofs.Reachable

/-! Which interfaces are on which channels. An interface and its channel both say so, and they agree
as long as channels are changed by attaching, connecting, detaching and disconnecting alone,
whatever comes of it. -/

namespace LinkState

namespace Channel

variable {c : Channel} {i j : InterfaceId}

theorem peer?_eq_some_iff (hc : c.ends.Nodup) :
    c.peer? i = some j ↔ c.ends = [i, j] ∨ c.ends = [j, i] := by
  unfold peer?
  split
  · next x y he =>
    rw [he, List.nodup_cons, List.mem_singleton] at hc
    simp only [he, List.cons.injEq, and_true]
    split
    · next hx =>
      subst hx
      simp [Ne.symm hc.1]
    · next hx =>
      split
      · next hy => simp [hx, hy]
      · next hy => simp [hx, hy]
  · next hne =>
    constructor
    · exact nofun
    · rintro (h | h)
      · exact absurd h (hne i j)
      · exact absurd h (hne j i)

end Channel

namespace Network

variable {n n' : Network} {i j : InterfaceId} {c d : ChannelId}

def Joins (n : Network) (c : ChannelId) (i j : InterfaceId) : Prop :=
  (n.channel c).ends = [i, j] ∨ (n.channel c).ends = [j, i]

instance (n : Network) (c : ChannelId) (i j : InterfaceId) : Decidable (n.Joins c i j) :=
  inferInstanceAs (Decidable (_ ∨ _))

theorem Joins.symm (h : n.Joins c i j) : n.Joins c j i := Or.symm h

theorem Joins.mem (h : n.Joins c i j) : i ∈ (n.channel c).ends := by
  rcases h with h | h <;> simp [h]

/-- A channel with two ends is no other pair's. -/
theorem Joins.eq_or_eq (h : n.Joins c i j) {k : InterfaceId} (hk : k ∈ (n.channel c).ends) :
    k = i ∨ k = j := by
  rcases h with h | h
  · simpa [h] using hk
  · simpa [h, or_comm] using hk

theorem channel_of_le (h : n.channels.size ≤ c) : n.channel c = default := getD_of_le _ h _

/-- Only channels that exist have ends. -/
theorem Joins.lt (h : n.Joins c i j) : c < n.channels.size := by
  by_contra hc
  have hmem := h.mem
  rw [channel_of_le (Nat.le_of_not_lt hc)] at hmem
  cases hmem

instance {P : ChannelId → InterfaceId → InterfaceId → Prop} [∀ c i j, Decidable (P c i j)] :
    Decidable (∀ c i j, n.Joins c i j → P c i j) :=
  decidable_of_iff (∀ c < n.channels.size, ∀ i ∈ (n.channel c).ends, ∀ j ∈ (n.channel c).ends,
      n.Joins c i j → P c i j)
    ⟨fun h c i j hj => h c hj.lt i hj.mem j hj.symm.mem hj, fun h c _ i _ j _ => h c i j⟩

/-- An interface is on a channel exactly if it is an end of it, and then it is one once. -/
structure Wired (n : Network) : Prop where
  iff_mem : ∀ i c, (n.interface i).channel = some c ↔ i ∈ (n.channel c).ends
  nodup : ∀ c, (n.channel c).ends.Nodup

theorem wired_blank (e : Environment) : Wired (.blank e) := by
  refine ⟨fun i c => ⟨?_, ?_⟩, fun c => List.nodup_nil⟩
  · exact nofun
  · exact nofun

theorem Wired.peer?_iff (hn : n.Wired) : (n.channel c).peer? i = some j ↔ n.Joins c i j :=
  Channel.peer?_eq_some_iff (hn.nodup c)

theorem Wired.channel_eq (hn : n.Wired) (h : n.Joins c i j) : (n.interface i).channel = some c :=
  (hn.iff_mem i c).2 h.mem

/-- An interface is an end of one channel at most. -/
theorem Wired.channel_unique (hn : n.Wired) (hc : i ∈ (n.channel c).ends)
    (hd : i ∈ (n.channel d).ends) : c = d :=
  Option.some.inj (((hn.iff_mem i c).2 hc).symm.trans ((hn.iff_mem i d).2 hd))

/-! ### The same wiring -/

structure SameWiring (n n' : Network) : Prop where
  channel : ∀ i, (n'.interface i).channel = (n.interface i).channel
  ends : ∀ c, (n'.channel c).ends = (n.channel c).ends

theorem SameWiring.wired (h : SameWiring n n') (hn : n.Wired) : n'.Wired := by
  constructor
  · intro i c
    rw [h.channel, h.ends]
    exact hn.iff_mem i c
  · intro c
    rw [h.ends]
    exact hn.nodup c

theorem Logged.sameWiring (h : Logged n n') : SameWiring n n' := by
  obtain ⟨j, rfl⟩ := h
  exact ⟨fun _ => rfl, fun _ => rfl⟩

theorem interface_of_le (h : n.interfaces.size ≤ i) : n.interface i = default := getD_of_le _ h _

instance (n n' : Network) : Decidable (SameWiring n n') :=
  decidable_of_iff
    ((∀ i < max n.interfaces.size n'.interfaces.size,
        (n'.interface i).channel = (n.interface i).channel) ∧
      ∀ c < max n.channels.size n'.channels.size, (n'.channel c).ends = (n.channel c).ends) <| by
    constructor
    · rintro ⟨hi, hc⟩
      refine ⟨fun i => ?_, fun c => ?_⟩
      · rcases Nat.lt_or_ge i (max n.interfaces.size n'.interfaces.size) with h | h
        · exact hi i h
        · obtain ⟨h, h'⟩ := Nat.max_le.1 h
          rw [interface_of_le h, interface_of_le h']
      · rcases Nat.lt_or_ge c (max n.channels.size n'.channels.size) with h | h
        · exact hc c h
        · obtain ⟨h, h'⟩ := Nat.max_le.1 h
          rw [channel_of_le h, channel_of_le h']
    · exact fun h => ⟨fun i _ => h.channel i, fun c _ => h.ends c⟩

/-! ### Attaching and detaching -/

def plug (n : Network) (c : ChannelId) (i : InterfaceId) : Network :=
  { n with
    interfaces := n.interfaces.modify i fun x => { x with channel := some c }
    channels := n.channels.modify c fun x => { x with ends := x.ends ++ [i] } }

def unplug (n : Network) (c : ChannelId) (i : InterfaceId) : Network :=
  { n with
    interfaces := n.interfaces.modify i fun x => { x with channel := none }
    channels := n.channels.modify c fun x => { x with ends := x.ends.erase i } }

def vacated (n : Network) (is : List InterfaceId) : Network :=
  { n with
    interfaces := is.foldl (fun xs i => xs.modify i fun x => { x with channel := none })
      n.interfaces }

theorem channel_plug (hi : i < n.interfaces.size) (k : InterfaceId) :
    ((n.plug c i).interface k).channel = if k = i then some c else (n.interface k).channel := by
  rw [plug, interface, getD_modify]
  by_cases hk : k = i
  · rw [if_pos ⟨hk, hi⟩, if_pos hk]
  · rw [if_neg (fun h => hk h.1), if_neg hk, interface]

theorem ends_plug (hc : c < n.channels.size) (d : ChannelId) :
    ((n.plug c i).channel d).ends =
      if d = c then (n.channel c).ends ++ [i] else (n.channel d).ends := by
  rw [plug, channel, getD_modify]
  by_cases hd : d = c
  · rw [if_pos ⟨hd, hc⟩, if_pos hd, channel]
  · rw [if_neg (fun h => hd h.1), if_neg hd, channel]

theorem channel_modify_none (xs : Array Interface) (i k : InterfaceId) :
    ((xs.modify i fun x => { x with channel := none }).getD k default).channel =
      if k = i then none else (xs.getD k default).channel := by
  rw [getD_modify]
  by_cases hk : k = i
  · by_cases hi : i < xs.size
    · rw [if_pos ⟨hk, hi⟩, if_pos hk]
    · rw [if_neg (fun h => hi h.2), if_pos hk, hk, getD_of_le _ (Nat.le_of_not_lt hi)]
      rfl
  · rw [if_neg (fun h => hk h.1), if_neg hk]

theorem channel_unplug (k : InterfaceId) :
    ((n.unplug c i).interface k).channel = if k = i then none else (n.interface k).channel :=
  channel_modify_none n.interfaces i k

theorem ends_unplug (d : ChannelId) :
    ((n.unplug c i).channel d).ends =
      if d = c then (n.channel c).ends.erase i else (n.channel d).ends := by
  rw [unplug, channel, getD_modify]
  by_cases hd : d = c
  · by_cases hc : c < n.channels.size
    · rw [if_pos ⟨hd, hc⟩, if_pos hd, channel]
    · rw [if_neg (fun h => hc h.2), if_pos hd, channel_of_le (Nat.le_of_not_lt hc), hd,
        ← channel, channel_of_le (Nat.le_of_not_lt hc)]
      rfl
  · rw [if_neg (fun h => hd h.1), if_neg hd, channel]

theorem channel_vacated (is : List InterfaceId) (k : InterfaceId) :
    ((n.vacated is).interface k).channel = if k ∈ is then none else (n.interface k).channel := by
  induction is generalizing n with
  | nil => simp [vacated, interface]
  | cons i is ih =>
    have first := channel_modify_none n.interfaces i k
    refine (ih (n := n.vacated [i])).trans ?_
    by_cases his : k ∈ is
    · simp [his]
    · simp only [List.mem_cons, his, or_false, if_false]
      exact first

theorem size_vacated (is : List InterfaceId) :
    (n.vacated is).interfaces.size = n.interfaces.size := by
  rw [vacated]
  generalize n.interfaces = xs
  induction is generalizing xs with
  | nil => rfl
  | cons i is ih => exact (ih _).trans Array.size_modify

theorem Wired.plug (hn : n.Wired) (hc : c < n.channels.size) (hi : i < n.interfaces.size)
    (hnew : i ∉ (n.channel c).ends) (hfree : ∀ d, (n.interface i).channel = some d → d = c) :
    (n.plug c i).Wired := by
  have free (d : ChannelId) : i ∉ (n.channel d).ends := fun h => by
    obtain rfl := hfree d ((hn.iff_mem i d).2 h)
    exact hnew h
  constructor
  · intro k d
    rw [channel_plug hi, ends_plug hc]
    by_cases hk : k = i
    · by_cases hd : d = c
      · simp [hk, hd]
      · simp [hk, hd, Ne.symm hd, free d]
    · by_cases hd : d = c
      · simp [hk, hd, hn.iff_mem]
      · simp [hk, hd, hn.iff_mem]
  · intro d
    rw [ends_plug hc]
    split
    · rw [List.nodup_append]
      refine ⟨hn.nodup c, by simp, fun a ha b hb => ?_⟩
      rw [List.mem_singleton] at hb
      rintro rfl
      exact hnew (hb ▸ ha)
    · exact hn.nodup d

theorem Wired.unplug (hn : n.Wired) (hmem : i ∈ (n.channel c).ends) : (n.unplug c i).Wired := by
  constructor
  · intro k d
    rw [channel_unplug, ends_unplug]
    by_cases hk : k = i
    · -- the interface was an end of this channel alone
      have other (h : i ∈ (n.channel d).ends) : d = c := hn.channel_unique h hmem
      by_cases hd : d = c
      · simp [hk, hd, (hn.nodup c).mem_erase_iff]
      · simpa [hk, hd] using fun h => hd (other h)
    · by_cases hd : d = c
      · simp [hk, hd, hn.iff_mem, (hn.nodup c).mem_erase_iff]
      · simp [hk, hd, hn.iff_mem]
  · intro d
    rw [ends_unplug]
    split
    · exact (hn.nodup c).erase i
    · exact hn.nodup d

/-! ### What operations on channels do -/

theorem occupy_refused (hd : (n.interface i).channel = some d) (hne : d ≠ c) :
    exec (occupy i c) n =
      (.error (.interfaceOccupied (n.interface i).nodeId (n.interface i).name (n.channel d).id),
        n) := by
  rw [occupy, exec_get_bind, hd]
  dsimp only
  rw [if_pos hne]
  rfl

theorem exec_occupy (hfree : ∀ d, (n.interface i).channel = some d → d = c) :
    exec (occupy i c) n = (.ok (),
      { n with interfaces := n.interfaces.modify i fun x => { x with channel := some c } }) := by
  rw [occupy, exec_get_bind]
  cases hi : (n.interface i).channel with
  | none => rfl
  | some d =>
    dsimp only
    rw [if_neg (not_not_intro (hfree d hi))]
    rfl

/-- An interface that is attached is an end before the event is published. -/
theorem exec_attach_of_free (hnew : i ∉ (n.channel c).ends)
    (hfree : ∀ d, (n.interface i).channel = some d → d = c) :
    ∃ level source message, exec (attach c i) n =
      exec (log level source "channel:attach" message none) (n.plug c i) := by
  have start : exec (attach c i) n = exec (if i ∈ (n.channel c).ends then pure () else do
      occupy i c
      modifyChannel c fun x => { x with ends := x.ends ++ [i] }
      let n ← get
      let x := n.channel c
      let count := x.ends.length
      if count > 2 then
        warn x.id "channel:attach"
          s!"Channel {x.id}: {count} endpoints attached to a point-to-point channel"
      else
        debug x.id "channel:attach" s!"{endName (n.interface i)} attached to {x.id}") n := rfl
  rw [start, if_neg hnew, exec_bind, exec_occupy hfree]
  show ∃ level source message, exec (if _ > 2 then _ else _) (n.plug c i) = _
  split
  · exact ⟨.warn, _, _, rfl⟩
  · exact ⟨.debug, _, _, rfl⟩

theorem exec_attach_of_mem (hi : i ∈ (n.channel c).ends) : exec (attach c i) n = (.ok (), n) := by
  rw [attach, exec_get_bind, if_pos hi]
  rfl

theorem attach_refused (hd : (n.interface i).channel = some d) (hne : d ≠ c)
    (hi : i ∉ (n.channel c).ends) : exec (attach c i) n =
      (.error (.interfaceOccupied (n.interface i).nodeId (n.interface i).name (n.channel d).id),
        n) := by
  rw [attach, exec_get_bind, if_neg hi, exec_bind, occupy_refused hd hne]

/-- Attaching changes nothing, or it attaches an interface that was on no other channel. -/
theorem attach_cases (c : ChannelId) (i : InterfaceId) :
    (exec (attach c i) n).2 = n ∨
      i ∉ (n.channel c).ends ∧ (∀ d, (n.interface i).channel = some d → d = c) ∧
        Logged (n.plug c i) (exec (attach c i) n).2 := by
  by_cases hi : i ∈ (n.channel c).ends
  · exact .inl (congrArg Prod.snd (exec_attach_of_mem hi))
  · by_cases hfree : ∀ d, (n.interface i).channel = some d → d = c
    · obtain ⟨level, source, message, h⟩ := exec_attach_of_free hi hfree
      exact .inr ⟨hi, hfree, h ▸ logged_log⟩
    · simp only [not_forall] at hfree
      obtain ⟨d, hd, hne⟩ := hfree
      exact .inl (congrArg Prod.snd (attach_refused hd hne hi))

theorem detach_cases (c : ChannelId) (i : InterfaceId) :
    (exec (detach c i) n).2 = n ∨
      i ∈ (n.channel c).ends ∧ Logged (n.unplug c i) (exec (detach c i) n).2 := by
  have start : exec (detach c i) n = exec (if i ∉ (n.channel c).ends then pure false else do
      modifyChannel c fun x => { x with ends := x.ends.erase i }
      vacate i
      let n ← get
      let x := n.channel c
      debug x.id "channel:detach" s!"{endName (n.interface i)} detached from {x.id}"
      return true) n := rfl
  rw [start]
  by_cases hi : i ∈ (n.channel c).ends
  · rw [if_neg (not_not_intro hi)]
    refine .inr ⟨hi, ?_⟩
    show Logged (n.unplug c i) (exec (do log _ _ _ _ _; return true) (n.unplug c i)).2
    exact exec_bind_post logged_log fun _ n' h => h
  · rw [if_pos hi]
    exact .inl rfl

theorem exec_vacate (is : List InterfaceId) :
    exec (forIn is PUnit.unit fun i _ => do vacate i; pure (ForInStep.yield PUnit.unit)) n =
      (.ok PUnit.unit, n.vacated is) := by
  induction is generalizing n with
  | nil => rfl
  | cons i is ih =>
    rw [List.forIn_cons, bind_assoc, exec_bind]
    exact ih

/-- A channel without ends, whose ends are on no channel. -/
def cleared (n : Network) (c : ChannelId) : Network :=
  { n.vacated (n.channel c).ends with
    channels := n.channels.modify c fun x => { x with ends := [] } }

theorem logged_disconnect (c : ChannelId) : Logged (n.cleared c) (exec (disconnect c) n).2 := by
  have start : exec (disconnect c) n = exec (do
      forIn (n.channel c).ends PUnit.unit fun i _ => do vacate i; pure (ForInStep.yield PUnit.unit)
      modifyChannel c fun x => { x with ends := [] }
      let id := ((← get).channel c).id
      info id "channel:disconnect" s!"Channel {id} disconnected") n := rfl
  rw [start, exec_bind, exec_vacate]
  exact logged_log

theorem ends_cleared (d : ChannelId) :
    ((n.cleared c).channel d).ends = if d = c then [] else (n.channel d).ends := by
  rw [cleared, channel, getD_modify]
  by_cases hd : d = c
  · rw [if_pos hd]
    split
    · rfl
    · next h =>
      rw [hd, ← channel, channel_of_le (Nat.le_of_not_lt fun hc => h ⟨hd, hc⟩)]
      rfl
  · rw [if_neg (fun h => hd h.1), if_neg hd, channel]

theorem Wired.cleared (hn : n.Wired) (c : ChannelId) : (n.cleared c).Wired := by
  have channel (k : InterfaceId) : ((n.cleared c).interface k).channel =
      if k ∈ (n.channel c).ends then none else (n.interface k).channel := channel_vacated _ k
  constructor
  · intro k d
    rw [channel, ends_cleared]
    by_cases hk : k ∈ (n.channel c).ends
    · have hd (h : k ∈ (n.channel d).ends) : d = c := hn.channel_unique h hk
      by_cases he : d = c
      · simp [hk, he]
      · simpa [hk, he] using fun h => he (hd h)
    · by_cases he : d = c
      · simp [hk, he, hn.iff_mem]
      · simp [hk, he, hn.iff_mem]
  · intro d
    rw [ends_cleared]
    split
    · exact List.nodup_nil
    · exact hn.nodup d

/-! ### Networks that are wired by their channels -/

structure Rewired (n n' : Network) : Prop where
  wired : n'.Wired
  interfaces : n'.interfaces.size = n.interfaces.size
  channels : n'.channels.size = n.channels.size

theorem Wired.rewired (hn : n.Wired) : Rewired n n := ⟨hn, rfl, rfl⟩

theorem Rewired.trans {n'' : Network} (h : Rewired n n') (h' : Rewired n' n'') : Rewired n n'' :=
  ⟨h'.wired, h'.interfaces.trans h.interfaces, h'.channels.trans h.channels⟩

theorem Rewired.logged (h : Rewired n n') {n'' : Network} (hl : Logged n' n'') : Rewired n n'' := by
  obtain ⟨j, rfl⟩ := hl
  exact ⟨(Logged.sameWiring ⟨j, rfl⟩).wired h.wired, h.interfaces, h.channels⟩

theorem Wired.attach (hn : n.Wired) (hc : c < n.channels.size) (hi : i < n.interfaces.size) :
    Rewired n (exec (attach c i) n).2 := by
  rcases attach_cases (n := n) c i with h | ⟨hnew, hfree, hl⟩
  · rw [h]
    exact hn.rewired
  · exact Rewired.logged ⟨hn.plug hc hi hnew hfree, Array.size_modify, Array.size_modify⟩ hl

theorem Wired.connect (hn : n.Wired) (hc : c < n.channels.size) (hi : i < n.interfaces.size)
    (hj : j < n.interfaces.size) : Rewired n (exec (connect c i j) n).2 := by
  refine exec_bind_post (P := Rewired n) (hn.attach hc hi) fun _ n₁ h₁ => ?_
  refine exec_bind_post (P := Rewired n) ?_ fun _ n₂ h₂ => h₂.logged logged_log
  exact h₁.trans (h₁.wired.attach (h₁.channels.symm ▸ hc) (h₁.interfaces.symm ▸ hj))

theorem Wired.detach (hn : n.Wired) (c : ChannelId) (i : InterfaceId) :
    Rewired n (exec (detach c i) n).2 := by
  rcases detach_cases (n := n) c i with h | ⟨hmem, hl⟩
  · rw [h]
    exact hn.rewired
  · exact Rewired.logged ⟨hn.unplug hmem, Array.size_modify, Array.size_modify⟩ hl

theorem Wired.disconnect (hn : n.Wired) (c : ChannelId) : Rewired n (exec (disconnect c) n).2 :=
  Rewired.logged ⟨hn.cleared c, size_vacated _, Array.size_modify⟩ (logged_disconnect c)

/-- The networks that operations make when channels and interfaces that exist are attached,
connected, detached and disconnected, and all else leaves them connected as they are. -/
inductive Cabled : Network → Prop
  | blank (e : Environment) : Cabled (.blank e)
  | attach {n : Network} (h : Cabled n) (c : ChannelId) (i : InterfaceId)
      (hc : c < n.channels.size) (hi : i < n.interfaces.size) : Cabled (exec (attach c i) n).2
  | connect {n : Network} (h : Cabled n) (c : ChannelId) (i j : InterfaceId)
      (hc : c < n.channels.size) (hi : i < n.interfaces.size) (hj : j < n.interfaces.size) :
      Cabled (exec (connect c i j) n).2
  | detach {n : Network} (h : Cabled n) (c : ChannelId) (i : InterfaceId) :
      Cabled (exec (detach c i) n).2
  | disconnect {n : Network} (h : Cabled n) (c : ChannelId) : Cabled (exec (disconnect c) n).2
  | other {α : Type} {n : Network} {x : NetworkM α} (h : Cabled n) (hx : Operation x)
      (same : SameWiring n (exec x n).2) : Cabled (exec x n).2

theorem Cabled.empty : Cabled .empty := .blank .standard

theorem Cabled.reachable (h : n.Cabled) : n.Reachable := by
  induction h with
  | blank e => exact .blank e
  | attach _ c i _ _ ih => exact ih.run (.attach c i)
  | connect _ c i j _ _ _ ih => exact ih.run (.connect c i j)
  | detach _ c i ih => exact ih.run (.detach c i)
  | disconnect _ c ih => exact ih.run (.disconnect c)
  | other _ hx _ ih => exact ih.run hx

theorem Cabled.wired (h : n.Cabled) : n.Wired := by
  induction h with
  | blank e => exact wired_blank e
  | attach _ c i hc hi ih => exact (ih.attach hc hi).wired
  | connect _ c i j hc hi hj ih => exact (ih.connect hc hi hj).wired
  | detach _ c i ih => exact (ih.detach c i).wired
  | disconnect _ c ih => exact (ih.disconnect c).wired
  | other _ _ same ih => exact same.wired ih

end Network

end LinkState
