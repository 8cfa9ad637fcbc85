import LinkState.Proofs.Attachment

/-! What comes of connecting two interfaces. They are attached one after the other, and nothing is
taken back. If the first is free and the second is refused, the first stays where it was attached;
in all other cases both are attached or nothing has changed. -/

namespace LinkState

namespace Network

variable {n n' : Network} {i j : InterfaceId} {c d : ChannelId}

/-- The interface and the channel both say so. -/
def Attached (n : Network) (c : ChannelId) (i : InterfaceId) : Prop :=
  (n.interface i).channel = some c ∧ i ∈ (n.channel c).ends

/-- Connecting attaches both interfaces, or it fails and every interface stays on its channel. -/
def AllOrNothing (n : Network) (c : ChannelId) (i j : InterfaceId) : Prop :=
  (exec (connect c i j) n).1 = .ok () ∧
      (exec (connect c i j) n).2.Attached c i ∧ (exec (connect c i j) n).2.Attached c j ∨
    (∃ f, (exec (connect c i j) n).1 = .error f) ∧ SameWiring n (exec (connect c i j) n).2

/-- The first interface can be attached to the channel, and the second is on another. -/
def Halfway (n : Network) (c : ChannelId) (i j : InterfaceId) : Prop :=
  (n.interface i).channel = none ∧ ∃ d, (n.interface j).channel = some d ∧ d ≠ c

/-- The interface is on the channel, as the last of its ends, and all others are on the channels
that they were on. -/
structure Added (n : Network) (c : ChannelId) (i : InterfaceId) (n' : Network) : Prop where
  channel : ∀ k, (n'.interface k).channel = if k = i then some c else (n.interface k).channel
  ends : ∀ d, (n'.channel d).ends =
    if d = c then (n.channel c).ends ++ [i] else (n.channel d).ends

theorem SameWiring.refl (n : Network) : SameWiring n n := ⟨fun _ => rfl, fun _ => rfl⟩

theorem Added.logged (hc : c < n.channels.size) (hi : i < n.interfaces.size)
    (hl : Logged (n.plug c i) n') : n.Added c i n' := by
  constructor
  · exact fun k => (hl.sameWiring.channel k).trans (channel_plug hi k)
  · exact fun d => (hl.sameWiring.ends d).trans (ends_plug hc d)

/-! ### Attaching one -/

theorem completes_attach (hnew : i ∉ (n.channel c).ends)
    (hfree : ∀ d, (n.interface i).channel = some d → d = c) :
    Completes (attach c i) n fun _ => Logged (n.plug c i) := by
  obtain ⟨level, source, message, h⟩ := exec_attach_of_free hnew hfree
  have hlog : Completes (log level source "channel:attach" message none) (n.plug c i)
      fun _ => Logged (n.plug c i) := completes_log fun j => ⟨j, rfl⟩
  exact ⟨h ▸ (within_of_surroundings rfl : Within n (n.plug c i)).trans hlog.within,
    h ▸ hlog.result⟩

theorem Wired.attached_iff (hn : n.Wired) :
    n.Attached c i ↔ (n.interface i).channel = some c :=
  ⟨And.left, fun h => ⟨h, (hn.iff_mem i c).1 h⟩⟩

/-- An interface that is on no other channel is attached, if it is not already. -/
theorem attach_of_free (hn : n.Wired) (hq : n.Quiet) (hc : c < n.channels.size)
    (hi : i < n.interfaces.size) (hfree : ∀ d, (n.interface i).channel = some d → d = c) :
    ∃ n', exec (attach c i) n = (.ok (), n') ∧ n'.Quiet ∧ Rewired n n' ∧
      ∀ k, (n'.interface k).channel = if k = i then some c else (n.interface k).channel := by
  by_cases hmem : i ∈ (n.channel c).ends
  · refine ⟨n, exec_attach_of_mem hmem, hq, hn.rewired, fun k => ?_⟩
    split
    · next hk => exact hk ▸ (hn.iff_mem i c).2 hmem
    · rfl
  · have h := completes_attach hmem hfree
    obtain ⟨_, hok, hl⟩ := h.of_quiet hq
    exact ⟨_, Prod.ext hok rfl, h.quiet hq, hn.attach hc hi, (Added.logged hc hi hl).channel⟩

/-! ### Connecting two -/

theorem connect_of_error {f : Fault} (h : exec (attach c i) n = (.error f, n')) :
    exec (connect c i j) n = (.error f, n') := by
  rw [connect, exec_bind, h]

theorem connect_of_ok_of_error {f : Fault} {n₁ : Network}
    (hi : exec (attach c i) n = (.ok (), n₁)) (hj : exec (attach c j) n₁ = (.error f, n')) :
    exec (connect c i j) n = (.error f, n') := by
  rw [connect, exec_bind, hi]
  dsimp only
  rw [exec_bind, hj]

theorem connect_of_ok {n₁ : Network} (hi : exec (attach c i) n = (.ok (), n₁))
    (hj : exec (attach c j) n₁ = (.ok (), n')) (hq : n'.Quiet) :
    (exec (connect c i j) n).1 = .ok () ∧ Logged n' (exec (connect c i j) n).2 := by
  rw [connect, exec_bind, hi]
  dsimp only
  rw [exec_bind, hj]
  dsimp only
  rw [exec_get_bind]
  exact ⟨log_of_quiet hq, logged_log⟩

theorem connect_of_free (hn : n.Wired) (hq : n.Quiet) (hc : c < n.channels.size)
    (hi : i < n.interfaces.size) (hj : j < n.interfaces.size)
    (hifree : ∀ d, (n.interface i).channel = some d → d = c)
    (hjfree : ∀ d, (n.interface j).channel = some d → d = c) :
    (exec (connect c i j) n).1 = .ok () ∧
      (exec (connect c i j) n).2.Attached c i ∧ (exec (connect c i j) n).2.Attached c j := by
  obtain ⟨n₁, h₁, hq₁, hr₁, hchannel₁⟩ := attach_of_free hn hq hc hi hifree
  have hjfree₁ : ∀ d, (n₁.interface j).channel = some d → d = c := by
    intro d hd
    rw [hchannel₁] at hd
    split at hd
    · exact (Option.some.inj hd).symm
    · exact hjfree d hd
  obtain ⟨n₂, h₂, hq₂, hr₂, hchannel₂⟩ := attach_of_free hr₁.wired hq₁ (hr₁.channels.symm ▸ hc)
    (hr₁.interfaces.symm ▸ hj) hjfree₁
  obtain ⟨hok, hl⟩ := connect_of_ok h₁ h₂ hq₂
  have hwired := hl.sameWiring.wired hr₂.wired
  rw [hwired.attached_iff, hwired.attached_iff, hl.sameWiring.channel, hl.sameWiring.channel,
    hchannel₂, hchannel₂, if_pos rfl, hchannel₁, if_pos rfl, ite_self]
  exact ⟨hok, rfl, rfl⟩

theorem Wired.not_mem_ends (hn : n.Wired) (hd : (n.interface i).channel = some d) (hne : d ≠ c) :
    i ∉ (n.channel c).ends :=
  fun hi => hne (hn.channel_unique ((hn.iff_mem i d).1 hd) hi)

/-- The second interface is refused after the first has been attached. -/
theorem connect_of_halfway (hn : n.Wired) (hq : n.Quiet) (hc : c < n.channels.size)
    (hi : i < n.interfaces.size) (h : n.Halfway c i j) :
    (∃ f, (exec (connect c i j) n).1 = .error f) ∧ n.Added c i (exec (connect c i j) n).2 := by
  obtain ⟨hnone, d, hd, hne⟩ := h
  have hnew : i ∉ (n.channel c).ends := fun hmem => by
    cases hnone.symm.trans ((hn.iff_mem i c).2 hmem)
  have hij : j ≠ i := by
    rintro rfl
    cases hnone.symm.trans hd
  have hfree : ∀ d, (n.interface i).channel = some d → d = c := by
    rw [hnone]
    exact nofun
  obtain ⟨_, hok, hl⟩ := (completes_attach hnew hfree).of_quiet hq
  have hadded := Added.logged hc hi hl
  have hwired := (hn.attach hc hi).wired
  have hd₁ := (hadded.channel j).trans ((if_neg hij).trans hd)
  have hrefused := attach_refused hd₁ hne (hwired.not_mem_ends hd₁ hne)
  rw [connect_of_ok_of_error (Prod.ext hok rfl) hrefused]
  exact ⟨⟨_, rfl⟩, hadded⟩

/-- A refusal that does not come halfway changes nothing. -/
theorem connect_of_refused (hn : n.Wired) (hhalf : ¬ n.Halfway c i j)
    (h : ¬ ((∀ d, (n.interface i).channel = some d → d = c) ∧
      ∀ d, (n.interface j).channel = some d → d = c)) :
    ∃ f, exec (connect c i j) n = (.error f, n) := by
  cases hi : (n.interface i).channel with
  | some e =>
    by_cases he : e = c
    · obtain rfl := he
      rw [hi] at h
      obtain ⟨d, hd, hne⟩ : ∃ d, (n.interface j).channel = some d ∧ d ≠ e := by simpa using h
      exact ⟨_, connect_of_ok_of_error (exec_attach_of_mem ((hn.iff_mem i e).1 hi))
        (attach_refused hd hne (hn.not_mem_ends hd hne))⟩
    · exact ⟨_, connect_of_error (attach_refused hi he (hn.not_mem_ends hi he))⟩
  | none =>
    rw [hi] at h
    obtain ⟨d, hd, hne⟩ : ∃ d, (n.interface j).channel = some d ∧ d ≠ c := by simpa using h
    exact absurd ⟨hi, d, hd, hne⟩ hhalf

/-- Connecting is all or nothing, unless the second interface is refused after the first has been
attached: then it fails, and the first stays attached. -/
theorem connect_outcome (hn : n.Cabled) (hq : n.Quiet) (hc : c < n.channels.size)
    (hi : i < n.interfaces.size) (hj : j < n.interfaces.size) :
    (¬ n.Halfway c i j → n.AllOrNothing c i j) ∧
      (n.Halfway c i j → (∃ f, (exec (connect c i j) n).1 = .error f) ∧
        n.Added c i (exec (connect c i j) n).2) := by
  refine ⟨fun hhalf => ?_, connect_of_halfway hn.wired hq hc hi⟩
  by_cases hfree : (∀ d, (n.interface i).channel = some d → d = c) ∧
      ∀ d, (n.interface j).channel = some d → d = c
  · exact .inl (connect_of_free hn.wired hq hc hi hj hfree.1 hfree.2)
  · obtain ⟨f, hf⟩ := connect_of_refused hn.wired hhalf hfree
    rw [AllOrNothing, hf]
    exact .inr ⟨⟨f, rfl⟩, SameWiring.refl n⟩

def claimed : Network := (exec (attach 1 1) apart).2

theorem cabled_claimed : claimed.Cabled := by
  have hapart : apart.Cabled := by
    refine .other .empty ?_ (by decide +kernel)
    simp only [List.forIn_cons, List.forIn_nil, discard_eq_bind, bind_assoc, pure_bind]
    exact .bind (.newInterface _) fun _ => .bind (.newInterface _) fun _ =>
      .bind (.newInterface _) fun _ => .bind (.newChannel _) fun _ => .newChannel _
  exact .attach hapart 1 1 (by decide +kernel) (by decide +kernel)

theorem connect_outcome_claimed :
    claimed.Quiet ∧ claimed.Halfway 0 0 1 ∧ ¬ claimed.Halfway 0 0 2 ∧
      claimed.Added 0 0 (exec (connect 0 0 1) claimed).2 ∧ claimed.AllOrNothing 0 0 2 := by
  have hq : claimed.Quiet := quiet_of_nil (by decide +kernel)
  have hhalf : claimed.Halfway 0 0 1 := ⟨by decide +kernel, 1, by decide +kernel, by decide⟩
  have hfree : ¬ claimed.Halfway 0 0 2 := by
    rintro ⟨-, d, hd, -⟩
    have hnone : (claimed.interface 2).channel = none := by decide +kernel
    cases hnone.symm.trans hd
  have hc : 0 < claimed.channels.size := by decide +kernel
  have hi : 0 < claimed.interfaces.size := by decide +kernel
  exact ⟨hq, hhalf, hfree,
    ((connect_outcome cabled_claimed hq hc hi (by decide +kernel)).2 hhalf).2,
    (connect_outcome cabled_claimed hq hc hi (by decide +kernel)).1 hfree⟩

/-- What is left over halfway is neither all nor nothing. -/
theorem not_allOrNothing : ¬ ∀ (n : Network) (c : ChannelId) (i j : InterfaceId), n.Cabled →
    n.Quiet → c < n.channels.size → i < n.interfaces.size → j < n.interfaces.size →
    n.AllOrNothing c i j := by
  intro h
  have hall := h claimed 0 0 1 cabled_claimed (quiet_of_nil (by decide +kernel))
    (by decide +kernel) (by decide +kernel) (by decide +kernel)
  have herror : (exec (connect 0 0 1) claimed).1.isOk = false := by decide +kernel
  have hchanged : ¬ SameWiring claimed (exec (connect 0 0 1) claimed).2 := by decide +kernel
  rcases hall with ⟨hok, -⟩ | ⟨-, hsame⟩
  · rw [hok] at herror
    cases herror
  · exact hchanged hsame

end Network

end LinkState
