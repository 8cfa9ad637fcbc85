import LinkState.Proofs.Wiring

/-! Interfaces and channels that start apart always agree. Whatever calls attach, connect, detach
and disconnect them, those that are refused and those that a subscriber stops included, an interface
is among the ends of a channel exactly if it is on it, and two ends are each other's peers. -/

namespace LinkState

/-- A call to a channel, or a change of the subscriptions between two calls. -/
inductive ChannelCall where
  | attach (c : ChannelId) (i : InterfaceId)
  | connect (c : ChannelId) (i j : InterfaceId)
  | detach (c : ChannelId) (i : InterfaceId)
  | disconnect (c : ChannelId)
  | listen (f : Journal → Journal)

/-- Are the channel and the interfaces of the call among those of the network? -/
def ChannelCall.On (n : Network) : ChannelCall → Prop
  | attach c i => c < n.channels.size ∧ i < n.interfaces.size
  | connect c i j => c < n.channels.size ∧ i < n.interfaces.size ∧ j < n.interfaces.size
  | detach .. => True
  | disconnect _ => True
  | listen _ => True

namespace Network

variable {n n' : Network} {i j : InterfaceId} {c d : ChannelId}

def callChannel : ChannelCall → NetworkM Unit
  | .attach c i => attach c i
  | .connect c i j => connect c i j
  | .detach c i => discard (detach c i)
  | .disconnect c => disconnect c
  | .listen f => withJournal fun j => ((), f j)

def callChannels (calls : List ChannelCall) (n : Network) : Network :=
  execAll (calls.map callChannel) n

/-- Interfaces and channels tell the same story. -/
structure Agreed (n : Network) : Prop where
  mem_ends_iff : ∀ i c, i ∈ (n.channel c).ends ↔ (n.interface i).channel = some c
  nodup : ∀ c, (n.channel c).ends.Nodup
  /-- An interface is on one channel at most. -/
  once : ∀ i c d, i ∈ (n.channel c).ends → i ∈ (n.channel d).ends → c = d
  /-- To attach an interface of another channel is refused and changes nothing. -/
  refused : ∀ i c d, (n.interface i).channel = some d → d ≠ c → exec (attach c i) n =
    (.error (.interfaceOccupied (n.interface i).nodeId (n.interface i).name (n.channel d).id), n)
  /-- Each of two ends has another for its peer, and is the peer of that one. -/
  peer : ∀ c, (n.channel c).ends.length = 2 → ∀ i ∈ (n.channel c).ends, ∃ j ∈ (n.channel c).ends,
    j ≠ i ∧ (n.channel c).peer? i = some j ∧ (n.channel c).peer? j = some i
  /-- Nothing else has a peer. -/
  noPeer : ∀ c i, (n.channel c).ends.length ≠ 2 ∨ i ∉ (n.channel c).ends →
    (n.channel c).peer? i = none

theorem wired_of_unattached (hi : ∀ x ∈ n.interfaces, x.channel = none)
    (hc : ∀ x ∈ n.channels, x.ends = []) : n.Wired := by
  have free (i : InterfaceId) : (n.interface i).channel = none := forall_getD hi rfl i
  have bare (c : ChannelId) : (n.channel c).ends = [] := forall_getD hc rfl c
  refine ⟨fun i c => ?_, fun c => ?_⟩
  · simp [free, bare]
  · simp [bare]

/-- An end of two has the other for its peer. -/
theorem Wired.exists_joins (hn : n.Wired) (h : (n.channel c).ends.length = 2)
    (hi : i ∈ (n.channel c).ends) : ∃ j, j ≠ i ∧ n.Joins c i j := by
  obtain ⟨x, y, hxy⟩ := List.length_eq_two.1 h
  have hne : x ≠ y := by simpa [hxy] using hn.nodup c
  rw [hxy, List.mem_pair] at hi
  rcases hi with rfl | rfl
  · exact ⟨y, hne.symm, .inl hxy⟩
  · exact ⟨x, hne, .inr hxy⟩

theorem Joins.length (h : n.Joins c i j) : (n.channel c).ends.length = 2 := by
  rcases h with h | h <;> simp [h]

theorem Wired.agreed (hn : n.Wired) : n.Agreed where
  mem_ends_iff i c := (hn.iff_mem i c).symm
  nodup := hn.nodup
  once i c d := hn.channel_unique
  refused i c d hd hne := by
    refine attach_refused hd hne fun hi => hne ?_
    exact hn.channel_unique ((hn.iff_mem i d).1 hd) hi
  peer c hc i hi := by
    obtain ⟨j, hne, hj⟩ := hn.exists_joins hc hi
    exact ⟨j, hj.symm.mem, hne, hn.peer?_iff.2 hj, hn.peer?_iff.2 hj.symm⟩
  noPeer c i h := by
    rw [Option.eq_none_iff_forall_ne_some]
    intro j hj
    have hjoins := hn.peer?_iff.1 hj
    rcases h with h | h
    · exact h hjoins.length
    · exact h hjoins.mem

theorem Wired.callChannel (hn : n.Wired) {x : ChannelCall} (hx : x.On n) :
    Rewired n (exec (callChannel x) n).2 := by
  cases x with
  | attach c i => exact hn.attach hx.1 hx.2
  | connect c i j => exact hn.connect hx.1 hx.2.1 hx.2.2
  | detach c i =>
    rw [Network.callChannel, exec_discard]
    exact hn.detach c i
  | disconnect c => exact hn.disconnect c
  | listen f => exact hn.rewired.logged ⟨f n.journal, rfl⟩

/-- Calls add no channels and no interfaces. -/
theorem Rewired.on (h : Rewired n n') {x : ChannelCall} (hx : x.On n) : x.On n' := by
  cases x with
  | attach c i => exact ⟨h.channels.symm ▸ hx.1, h.interfaces.symm ▸ hx.2⟩
  | connect c i j =>
    exact ⟨h.channels.symm ▸ hx.1, h.interfaces.symm ▸ hx.2.1, h.interfaces.symm ▸ hx.2.2⟩
  | detach c i => trivial
  | disconnect c => trivial
  | listen f => trivial

theorem Wired.callChannels (hn : n.Wired) {calls : List ChannelCall}
    (hcalls : ∀ x ∈ calls, x.On n) : Rewired n (callChannels calls n) := by
  refine execAll_post (P := Rewired n) (fun op hop n' h => ?_) hn.rewired
  obtain ⟨x, hx, rfl⟩ := List.mem_map.1 hop
  exact h.trans (h.wired.callChannel (h.on (hcalls x hx)))

/-- Interfaces and channels that start apart agree after any calls. -/
theorem callChannels_agreed (n : Network) (calls : List ChannelCall)
    (hinterfaces : ∀ x ∈ n.interfaces, x.channel = none) (hchannels : ∀ x ∈ n.channels, x.ends = [])
    (hcalls : ∀ x ∈ calls, x.On n) : (callChannels calls n).Agreed :=
  ((wired_of_unattached hinterfaces hchannels).callChannels hcalls).wired.agreed

instance (n : Network) : (x : ChannelCall) → Decidable (x.On n)
  | .attach .. => inferInstanceAs (Decidable (_ ∧ _))
  | .connect .. => inferInstanceAs (Decidable (_ ∧ _ ∧ _))
  | .detach .. => inferInstanceAs (Decidable True)
  | .disconnect _ => inferInstanceAs (Decidable True)
  | .listen _ => inferInstanceAs (Decidable True)

def apart : Network := (exec (do
  for name in ["eth0", "eth1", "eth2"] do discard (newInterface (.make name .ethernet))
  discard (newChannel "left")
  newChannel "right") .empty).2

/-- A subscriber stops the connection when both ends are attached, an attachment is refused, and the
interface can be attached to the other channel once it is detached. -/
def switchOver : List ChannelCall :=
  [.listen fun j => (j.subscribe ⟨none, some "channel:connect", none⟩ none (some "enough")).2,
   .connect 0 0 1,
   .attach 1 1,
   .attach 1 2,
   .detach 0 1,
   .attach 1 1]

theorem callChannels_agreed_switchOver :
    (∀ x ∈ apart.interfaces, x.channel = none) ∧ (∀ x ∈ apart.channels, x.ends = []) ∧
      (∀ x ∈ switchOver, x.On apart) ∧ (callChannels switchOver apart).Agreed := by
  have hinterfaces : ∀ x ∈ apart.interfaces, x.channel = none := by decide +kernel
  have hchannels : ∀ x ∈ apart.channels, x.ends = [] := by decide +kernel
  have hcalls : ∀ x ∈ switchOver, x.On apart := by decide +kernel
  exact ⟨hinterfaces, hchannels, hcalls,
    callChannels_agreed apart switchOver hinterfaces hchannels hcalls⟩

example : (callChannels switchOver apart).channels.map (·.ends) = #[[0], [2, 1]] := by
  decide +kernel

end Network

end LinkState
