import LinkState.Network
import Mathlib

/-! How operations end. `Ends x n post` says that `x`, run on `n`, ends in what `post` describes,
unless a subscriber of the journal stops it: that may happen wherever an event is published, and
only there. Subscriptions are dropped on the way, none is added. -/

namespace LinkState

namespace Journal

variable {j : Journal} {e : Event}

theorem call_subscriptions (react : Reactions) (s : Subscription) :
    (j.call react e s).2.subscriptions ⊆ j.subscriptions := by
  rw [call, foldl_unsubscribe]
  exact List.filter_sublist.subset

theorem deliver_spec (react : Reactions) (ss : List Subscription) (j : Journal) :
    (deliver react e ss j).2.subscriptions ⊆ j.subscriptions ∧
      ∀ text, (deliver react e ss j).1 = some text →
        ∃ s ∈ ss, ∃ ds, (react s ds).stops = some text := by
  induction ss generalizing j with
  | nil => exact ⟨List.Subset.refl _, nofun⟩
  | cons s ss ih =>
    have hcall := call_subscriptions (j := j) (e := e) react s
    have hstops : (j.call react e s).1 = (react s (j.note s e).deliveries).stops := rfl
    rw [deliver]
    split
    · rcases hc : j.call react e s with ⟨_ | text, j'⟩
      · rw [hc] at hcall
        obtain ⟨hsub, hstop⟩ := ih j'
        refine ⟨List.Subset.trans hsub hcall, fun text ht => ?_⟩
        obtain ⟨x, hx, hxt⟩ := hstop text ht
        exact ⟨x, List.mem_cons_of_mem _ hx, hxt⟩
      · rw [hc] at hcall hstops
        exact ⟨hcall, fun _ ht => ⟨s, List.mem_cons_self .., _, hstops.symm.trans ht⟩⟩
    · obtain ⟨hsub, hstop⟩ := ih j
      refine ⟨hsub, fun text ht => ?_⟩
      obtain ⟨x, hx, hxt⟩ := hstop text ht
      exact ⟨x, List.mem_cons_of_mem _ hx, hxt⟩

/-- What stops a publisher is what a subscriber does. -/
theorem publishTo_spec (react : Reactions) (e : Event) (j : Journal) :
    (publishTo react e j).2.subscriptions ⊆ j.subscriptions ∧
      ∀ text, (publishTo react e j).1 = some text →
        ∃ s ∈ j.subscriptions, ∃ ds, (react s ds).stops = some text := by
  rw [publishTo]
  split
  · exact ⟨List.Subset.refl _, nofun⟩
  · exact deliver_spec react j.subscriptions (j.store e)

end Journal

namespace Network

variable {α β : Type} {n : Network}

def Logged (n n' : Network) : Prop := ∃ j, n' = { n with journal := j }

theorem Logged.refl (n : Network) : Logged n n := ⟨n.journal, rfl⟩

theorem Logged.trans {n' n'' : Network} (h : Logged n n') (h' : Logged n' n'') : Logged n n'' := by
  obtain ⟨j, rfl⟩ := h
  obtain ⟨j', rfl⟩ := h'
  exact ⟨j', rfl⟩

/-- The outcome of an operation on a network, and the network it leaves behind. -/
def exec (x : NetworkM α) (n : Network) : Except Fault α × Network := x.run.run n

theorem exec_bind (x : NetworkM α) (k : α → NetworkM β) (n : Network) :
    exec (x >>= k) n = match exec x n with
      | (.ok a, n') => exec (k a) n'
      | (.error f, n') => (.error f, n') := by
  unfold exec
  rw [ExceptT.run_bind, StateT.run_bind]
  rcases StateT.run (ExceptT.run x) n with ⟨_ | _, _⟩ <;> rfl

theorem exec_get_bind (k : Network → NetworkM β) (n : Network) :
    exec (get >>= k) n = exec (k n) n := rfl

/-- What holds after the first operation and is kept by the second holds in the end. -/
theorem exec_bind_post {x : NetworkM α} {k : α → NetworkM β} {P : Network → Prop}
    (hx : P (exec x n).2) (hk : ∀ a n', P n' → P (exec (k a) n').2) : P (exec (x >>= k) n).2 := by
  rw [exec_bind]
  revert hx
  rcases exec x n with ⟨_ | a, n'⟩
  · exact id
  · exact hk a n'

theorem discard_eq_bind (x : NetworkM α) : discard x = x >>= fun _ => pure PUnit.unit := by
  rw [discard, map_const, Function.comp_apply, map_eq_pure_bind]

/-- To drop the result of an operation is not to drop what it does. -/
theorem exec_discard (x : NetworkM α) (n : Network) :
    (exec (discard x) n).2 = (exec x n).2 := by
  rw [discard_eq_bind, exec_bind]
  rcases exec x n with ⟨_ | _, _⟩
  · rfl
  · rfl

/-- The network after all operations, one after the other, whatever comes of each. -/
def execAll (xs : List (NetworkM Unit)) (n : Network) : Network :=
  xs.foldl (fun n x => (exec x n).2) n

/-- What each operation keeps is kept by all of them. -/
theorem execAll_post {P : Network → Prop} {xs : List (NetworkM Unit)}
    (hstep : ∀ x ∈ xs, ∀ n, P n → P (exec x n).2) (h : P n) : P (execAll xs n) := by
  induction xs generalizing n with
  | nil => exact h
  | cons x xs ih =>
    rw [List.forall_mem_cons] at hstep
    exact ih hstep.2 (hstep.1 n h)

theorem exec_tryCatch (x : NetworkM α) (h : Fault → NetworkM α) (n : Network) :
    exec (tryCatch x h) n = match exec x n with
      | (.ok a, n') => (.ok a, n')
      | (.error f, n') => exec (h f) n' := by
  unfold exec
  rw [ExceptT.run_tryCatch, StateT.run_bind]
  rcases StateT.run (ExceptT.run x) n with ⟨_ | _, _⟩ <;> rfl

theorem exec_lift (e : Except Fault α) (n : Network) : exec (liftM e : NetworkM α) n = (e, n) := by
  cases e <;> rfl

/-- A subscriber stops an operation with the fault, on one delivery or another. -/
def Stops (n : Network) (f : Fault) : Prop :=
  ∃ s ∈ n.journal.subscriptions, ∃ ds text,
    (n.environment.subscribers s ds).stops = some text ∧ f = .stopped text

def Quiet (n : Network) : Prop :=
  ∀ s ∈ n.journal.subscriptions, ∀ ds, (n.environment.subscribers s ds).stops = none

theorem quiet_of_nil (h : n.journal.subscriptions = []) : n.Quiet := by
  rw [Quiet, h]
  exact nofun

theorem not_stops_of_quiet (hq : n.Quiet) (f : Fault) : ¬ n.Stops f := by
  rintro ⟨s, hs, ds, text, ht, _⟩
  rw [hq s hs] at ht
  cases ht

structure Within (n n' : Network) : Prop where
  subscriptions : n'.journal.subscriptions ⊆ n.journal.subscriptions
  environment : n'.environment = n.environment

namespace Within

variable {n' n'' : Network}

theorem refl (n : Network) : Within n n := ⟨List.Subset.refl _, rfl⟩

theorem trans (h : Within n n') (h' : Within n' n'') : Within n n'' :=
  ⟨List.Subset.trans h'.subscriptions h.subscriptions, h'.environment.trans h.environment⟩

theorem stops (h : Within n n') {f : Fault} (hf : n'.Stops f) : n.Stops f := by
  obtain ⟨s, hs, hrest⟩ := hf
  exact ⟨s, h.subscriptions hs, h.environment ▸ hrest⟩

theorem quiet (h : Within n n') (hq : n.Quiet) : n'.Quiet := fun s hs =>
  h.environment ▸ hq s (h.subscriptions hs)

end Within

/-- What an operation has a part in only by publishing. -/
def surroundings (n : Network) : Journal × Environment := (n.journal, n.environment)

theorem within_of_surroundings {n' : Network} (h : n'.surroundings = n.surroundings) :
    Within n n' := by
  obtain ⟨hj, he⟩ := Prod.mk.inj h
  exact ⟨hj ▸ List.Subset.refl _, he⟩

/-- The operation ends as described, unless a subscriber stops it. -/
structure Ends (x : NetworkM α) (n : Network) (post : Except Fault α → Network → Prop) : Prop where
  within : Within n (exec x n).2
  result : post (exec x n).1 (exec x n).2 ∨ ∃ f, (exec x n).1 = .error f ∧ n.Stops f

/-- The operation gets to a result as described, unless a subscriber stops it. -/
abbrev Completes (x : NetworkM α) (n : Network) (post : α → Network → Prop) : Prop :=
  Ends x n fun r n' => ∃ a, r = .ok a ∧ post a n'

section Rules

variable {x : NetworkM α} {post post' : Except Fault α → Network → Prop}
  {done done' : α → Network → Prop}

theorem Ends.mono (h : Ends x n post)
    (hp : ∀ r n', Within n n' → post r n' → post' r n') : Ends x n post' :=
  ⟨h.within, h.result.imp_left (hp _ _ h.within)⟩

theorem Ends.and {post' : Except Fault α → Network → Prop} (h : Ends x n post)
    (h' : Ends x n post') : Ends x n fun r n' => post r n' ∧ post' r n' := by
  refine ⟨h.within, ?_⟩
  rcases h.result with hp | hs
  · exact h'.result.imp_left fun hp' => ⟨hp, hp'⟩
  · exact .inr hs

theorem Completes.mono (h : Completes x n done) (hp : ∀ a n', done a n' → done' a n') :
    Completes x n done' := by
  refine Ends.mono h ?_
  rintro r n' - ⟨a, rfl, ha⟩
  exact ⟨a, rfl, hp a n' ha⟩

theorem Completes.ends (h : Completes x n done) (hp : ∀ a n', done a n' → post (.ok a) n') :
    Ends x n post := by
  refine Ends.mono h ?_
  rintro r n' - ⟨a, rfl, ha⟩
  exact hp a n' ha

theorem Ends.bind {k : α → NetworkM β} {post : Except Fault β → Network → Prop}
    (h : Ends x n fun r n' => match r with
      | .ok a => Ends (k a) n' post
      | .error f => post (.error f) n') : Ends (x >>= k) n post := by
  obtain ⟨hin, hres⟩ := h
  constructor
  · rw [exec_bind]
    rcases hx : exec x n with ⟨f | a, n'⟩
    · rwa [hx] at hin
    · rw [hx] at hin hres
      rcases hres with hk | ⟨f, hf, _⟩
      · exact hin.trans hk.within
      · cases hf
  · rw [exec_bind]
    rcases hx : exec x n with ⟨f | a, n'⟩
    · rw [hx] at hres
      exact hres.imp_right fun ⟨g, hg, hstop⟩ => ⟨g, congrArg _ (Except.error.inj hg), hstop⟩
    · rw [hx] at hin hres
      rcases hres with hk | ⟨f, hf, _⟩
      · exact hk.result.imp_right fun ⟨g, hg, hstop⟩ => ⟨g, hg, hin.stops hstop⟩
      · cases hf

theorem Completes.bind {k : α → NetworkM β} {post : Except Fault β → Network → Prop}
    (h : Completes x n fun a n' => Ends (k a) n' post) : Ends (x >>= k) n post := by
  refine Ends.bind (Ends.mono h ?_)
  rintro r n' - ⟨a, rfl, ha⟩
  exact ha

theorem Ends.of_quiet (h : Ends x n post) (hq : n.Quiet) :
    post (exec x n).1 (exec x n).2 := by
  rcases h.result with hp | ⟨f, -, hf⟩
  · exact hp
  · exact absurd hf (not_stops_of_quiet hq f)

theorem Ends.quiet (h : Ends x n post) (hq : n.Quiet) : (exec x n).2.Quiet := h.within.quiet hq

/-- Without subscribers that stop it the operation gets to its result. -/
theorem Completes.of_quiet (h : Completes x n done) (hq : n.Quiet) :
    ∃ a, (exec x n).1 = .ok a ∧ done a (exec x n).2 := by
  rcases h.result with hr | ⟨f, -, hf⟩
  · exact hr
  · exact absurd hf (not_stops_of_quiet hq f)

theorem ends_pure {a : α} (h : post (.ok a) n) : Ends (pure a) n post :=
  ⟨.refl n, .inl h⟩

theorem completes_pure {a : α} (h : done a n) : Completes (pure a) n done := ends_pure ⟨a, rfl, h⟩

theorem completes_get {done : Network → Network → Prop} (h : done n n) : Completes get n done :=
  ⟨.refl n, .inl ⟨n, rfl, h⟩⟩

theorem completes_modifyGet {f : Network → α × Network} (hs : (f n).2.surroundings = n.surroundings)
    (h : done (f n).1 (f n).2) : Completes (modifyGet f) n done :=
  ⟨within_of_surroundings hs, .inl ⟨_, rfl, h⟩⟩

theorem completes_modify {f : Network → Network} {done : Unit → Network → Prop}
    (hs : (f n).surroundings = n.surroundings) (h : done () (f n)) : Completes (modify f) n done :=
  ⟨within_of_surroundings hs, .inl ⟨_, rfl, h⟩⟩

theorem ends_throw {f : Fault} (h : post (.error f) n) : Ends (throw f) n post :=
  ⟨.refl n, .inl h⟩

theorem ends_lift {e : Except Fault α} (h : post e n) : Ends (liftM e : NetworkM α) n post := by
  have hexec := exec_lift e n
  exact ⟨hexec ▸ .refl n, .inl (hexec ▸ h)⟩

theorem completes_lift {a : α} {e : Except Fault α} (he : e = .ok a) (h : done a n) :
    Completes (liftM e : NetworkM α) n done := ends_lift ⟨a, he, h⟩

theorem Ends.tryCatch {h : Fault → NetworkM α}
    (hx : Ends x n fun r n' => match r with
      | .ok a => post (.ok a) n'
      | .error f => Ends (h f) n' post)
    (rethrow : ∀ text, h (.stopped text) = throw (.stopped text)) :
    Ends (tryCatch x h) n post := by
  obtain ⟨hin, hres⟩ := hx
  constructor
  · rw [exec_tryCatch]
    rcases hx : exec x n with ⟨f | a, n'⟩
    · rw [hx] at hin hres
      rcases hres with hh | ⟨g, hg, _, _, _, text, _, rfl⟩
      · exact hin.trans hh.within
      · rw [Except.error.inj hg]
        dsimp only
        rw [rethrow]
        exact hin
    · rwa [hx] at hin
  · rw [exec_tryCatch]
    rcases hx : exec x n with ⟨f | a, n'⟩
    · rw [hx] at hin hres
      rcases hres with hh | ⟨g, hg, s, hs, ds, text, ht, rfl⟩
      · exact hh.result.imp_right fun ⟨g, hg, hstop⟩ => ⟨g, hg, hin.stops hstop⟩
      · rw [Except.error.inj hg]
        dsimp only
        rw [rethrow]
        exact .inr ⟨_, rfl, s, hs, ds, text, ht, rfl⟩
    · rw [hx] at hres
      exact hres.imp_right nofun

theorem exec_log (level : Level) (source name message : String) (data : Option Datum)
    (n : Network) : exec (log level source name message data) n =
      match Journal.publishTo n.environment.subscribers ⟨level, source, name, message, data⟩
          n.journal with
      | (none, j) => (.ok (), { n with journal := j })
      | (some text, j) => (.error (.stopped text), { n with journal := j }) := by
  have hwith (react : Reactions) (e : Event) : exec (withJournal (Journal.publishTo react e)) n =
      (.ok (Journal.publishTo react e n.journal).1,
        { n with journal := (Journal.publishTo react e n.journal).2 }) := rfl
  rw [log, exec_get_bind, exec_bind, hwith]
  rcases Journal.publishTo n.environment.subscribers ⟨level, source, name, message, data⟩
    n.journal with ⟨_ | text, j⟩
  · rfl
  · rfl

theorem completes_log {level : Level} {source name message : String} {data : Option Datum}
    {done : Unit → Network → Prop} (h : ∀ j, done () { n with journal := j }) :
    Completes (log level source name message data) n done := by
  let react := n.environment.subscribers
  let e : Event := ⟨level, source, name, message, data⟩
  obtain ⟨hsub, hstop⟩ := Journal.publishTo_spec react e n.journal
  rcases hp : Journal.publishTo react e n.journal with ⟨_ | text, j⟩
  · rw [hp] at hsub
    have hexec : exec (log level source name message data) n =
        (.ok (), { n with journal := j }) := by
      rw [exec_log, hp]
    exact ⟨hexec ▸ ⟨hsub, rfl⟩, .inl ⟨(), hexec ▸ rfl, hexec ▸ h j⟩⟩
  · rw [hp] at hsub hstop
    have hexec : exec (log level source name message data) n =
        (.error (.stopped text), { n with journal := j }) := by
      rw [exec_log, hp]
    obtain ⟨s, hs, ds, ht⟩ := hstop text rfl
    exact ⟨hexec ▸ ⟨hsub, rfl⟩, .inr ⟨_, hexec ▸ rfl, s, hs, ds, text, ht, rfl⟩⟩

theorem log_of_quiet {level : Level} {source name message : String} {data : Option Datum}
    (hq : n.Quiet) : (exec (log level source name message data) n).1 = .ok () := by
  have h : Completes (log level source name message data) n fun _ _ => True :=
    completes_log fun _ => trivial
  obtain ⟨_, hok, -⟩ := h.of_quiet hq
  exact hok

theorem logged_log {level : Level} {source name message : String} {data : Option Datum} :
    Logged n (exec (log level source name message data) n).2 := by
  rw [exec_log]
  split
  · exact ⟨_, rfl⟩
  · exact ⟨_, rfl⟩

/-- A fold whose steps have the outcomes of `f` has the outcome of the fold of `f`. The invariant
may depend on the elements that are left; there are some only where a step fails. -/
theorem ends_foldlM {step : β → α → NetworkM β} {f : β → α → Except Fault β}
    (inv : List α → Network → Prop)
    (hstep : ∀ a l b n, inv (a :: l) n → Ends (step b a) n fun r n' => r = f b a ∧ inv l n')
    (l : List α) (b : β) (h : inv l n) :
    Ends (l.foldlM step b) n fun r n' => r = l.foldlM f b ∧
      ∃ rest, inv rest n' ∧ ∀ b', r = .ok b' → rest = [] := by
  induction l generalizing b n with
  | nil => exact ends_pure ⟨rfl, [], h, fun _ _ => rfl⟩
  | cons a l ih =>
    rw [List.foldlM_cons, List.foldlM_cons]
    refine Ends.bind ((hstep a l b n h).mono ?_)
    rintro r n' - ⟨rfl, h'⟩
    cases f b a with
    | error e => exact ⟨rfl, l, h', nofun⟩
    | ok b' => exact ih b' h'

theorem completes_forIn {step : α → NetworkM PUnit} (inv : List α → Network → Prop)
    (hstep : ∀ a l n, inv (a :: l) n → Completes (step a) n fun _ => inv l) (l : List α)
    (h : inv l n) :
    Completes (forIn l PUnit.unit fun a _ => do step a; pure (ForInStep.yield PUnit.unit)) n
      fun _ => inv [] := by
  induction l generalizing n with
  | nil => exact completes_pure h
  | cons a l ih =>
    rw [List.forIn_cons, bind_assoc]
    refine Completes.bind (Completes.mono (hstep a l n h) fun _ n' h' => ?_)
    rw [pure_bind]
    exact ih h'

/-! ### What a stop leaves behind -/

theorem Ends.of_ok {a : α} (h : Ends x n post) (ha : (exec x n).1 = .ok a) :
    post (.ok a) (exec x n).2 := by
  rcases h.result with hp | ⟨f, hf, -⟩
  · rwa [ha] at hp
  · rw [ha] at hf
    cases hf

theorem Completes.of_ok {a : α} (h : Completes x n done) (ha : (exec x n).1 = .ok a) :
    done a (exec x n).2 := by
  obtain ⟨b, hb, hd⟩ := Ends.of_ok h ha
  obtain rfl := Except.ok.inj hb
  exact hd

/-- An operation that gets to a result otherwise ends in an error only where it is stopped. -/
theorem Completes.stops {f : Fault} (h : Completes x n done) (hf : (exec x n).1 = .error f) :
    n.Stops f := by
  rcases h.result with ⟨a, ha, -⟩ | ⟨g, hg, hstop⟩
  · cases hf.symm.trans ha
  · rwa [Except.error.inj (hf.symm.trans hg)]

/-- The operation gets to a result as described, or a subscriber stops it and leaves the network as
described. -/
structure CompletesOr (x : NetworkM α) (n : Network) (done : α → Network → Prop)
    (halt : Network → Prop) : Prop where
  completes : Completes x n done
  halts : ∀ f, (exec x n).1 = .error f → halt (exec x n).2

variable {halt halt' : Network → Prop}

theorem Completes.or (h : Completes x n done) (hh : halt (exec x n).2) :
    CompletesOr x n done halt := ⟨h, fun _ _ => hh⟩

theorem CompletesOr.mono (h : CompletesOr x n done halt) (hd : ∀ a n', done a n' → done' a n')
    (hh : ∀ n', halt n' → halt' n') : CompletesOr x n done' halt' :=
  ⟨h.completes.mono hd, fun f hf => hh _ (h.halts f hf)⟩

theorem CompletesOr.bind {k : α → NetworkM β} {done : β → Network → Prop}
    (h : CompletesOr x n (fun a n' => CompletesOr (k a) n' done halt) halt) :
    CompletesOr (x >>= k) n done halt := by
  obtain ⟨hc, hh⟩ := h
  refine ⟨Completes.bind (hc.mono fun _ _ h => h.completes), fun f => ?_⟩
  have hok (a : α) (ha : (exec x n).1 = .ok a) := hc.of_ok ha
  rw [exec_bind]
  revert hh hok
  rcases exec x n with ⟨g | a, n'⟩
  · exact fun hh _ _ => hh g rfl
  · exact fun _ hok => (hok a rfl).halts f

theorem completesOr_foldlM {step : β → α → NetworkM β} (inv : List α → β → Network → Prop)
    (hstep : ∀ a l b n, inv (a :: l) b n → CompletesOr (step b a) n (inv l) halt) (l : List α)
    (b : β) (h : inv l b n) : CompletesOr (l.foldlM step b) n (inv []) halt := by
  induction l generalizing b n with
  | nil => exact ⟨completes_pure h, nofun⟩
  | cons a l ih =>
    rw [List.foldlM_cons]
    exact CompletesOr.bind ((hstep a l b n h).mono (fun b' n' h' => ih b' h') fun _ => id)

theorem exec_forIn_post {step : α → NetworkM PUnit} {P : Network → Prop}
    (hstep : ∀ a n, P n → P (exec (step a) n).2) (l : List α) (h : P n) :
    P (exec (forIn l PUnit.unit fun a _ => do step a; pure (ForInStep.yield PUnit.unit)) n).2 := by
  induction l generalizing n with
  | nil => exact h
  | cons a l ih =>
    rw [List.forIn_cons, bind_assoc]
    refine exec_bind_post (hstep a n h) fun _ n' h' => ?_
    rw [pure_bind]
    exact ih h'

end Rules

end Network

end LinkState
