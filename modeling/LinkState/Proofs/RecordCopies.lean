import LinkState.Network.Databases
import LinkState.Proofs.Operation
import LinkState.Proofs.Topology

/-! Copying the records of one advertisement to another. The walk over them meets what it appends,
so it ends in all cases but one: an advertisement with records that is copied onto itself. Where it
ends, the records have been appended in their order and nothing else has changed; where it does not
end, it comes to no result with any fuel. -/

namespace LinkState

namespace Network

variable {n n' : Network} {t s : AdvertisementId} {i fuel : Nat} {r : LinkRecord}

def appendRecords (n : Network) (t : AdvertisementId) (rs : List LinkRecord) : Network :=
  { n with
    advertisements := n.advertisements.modify t fun a => { a with records := a.records ++ rs } }

theorem advertisement_appendRecords (n : Network) (t a : AdvertisementId) (rs : List LinkRecord) :
    (n.appendRecords t rs).advertisement a =
      if a = t ∧ t < n.advertisements.size then
        { n.advertisement t with records := (n.advertisement t).records ++ rs }
      else n.advertisement a := getD_modify ..

theorem advertisement_appendRecords_of_ne (rs : List LinkRecord) (h : t ≠ s) :
    (n.appendRecords t rs).advertisement s = n.advertisement s := by
  rw [advertisement_appendRecords, if_neg]
  exact fun hs => h hs.1.symm

theorem appendRecords_nil (n : Network) (t : AdvertisementId) : n.appendRecords t [] = n := by
  have hmodify : n.advertisements.modify t (fun a => { a with records := a.records ++ [] }) =
      n.advertisements := by
    refine Array.ext Array.size_modify fun j _ _ => ?_
    rw [Array.getElem_modify]
    split
    · simp
    · rfl
  rw [appendRecords, hmodify]

theorem appendRecords_append (n : Network) (t : AdvertisementId) (rs rs' : List LinkRecord) :
    (n.appendRecords t rs).appendRecords t rs' = n.appendRecords t (rs ++ rs') := by
  have hmodify : (n.advertisements.modify t fun a => { a with records := a.records ++ rs }).modify t
      (fun a => { a with records := a.records ++ rs' }) =
        n.advertisements.modify t fun a => { a with records := a.records ++ (rs ++ rs') } := by
    refine Array.ext (by simp only [Array.size_modify]) fun j _ _ => ?_
    rw [Array.getElem_modify, Array.getElem_modify, Array.getElem_modify]
    split
    · simp only [List.append_assoc]
    · rfl
  rw [appendRecords, appendRecords, hmodify, appendRecords]

/-- The walk over the records of `s` from number `i` on ends with the network `n'`. -/
inductive Copies (t s : AdvertisementId) : Nat → Network → Network → Prop
  | stop {i : Nat} {n : Network} (h : (n.advertisement s).records[i]? = none) : Copies t s i n n
  | turn {i : Nat} {n n' : Network} {r : LinkRecord}
      (h : (n.advertisement s).records[i]? = some r)
      (rest : Copies t s (i + 1) (n.appendRecords t [r]) n') : Copies t s i n n'

/-! ### Fuel -/

theorem copyWalk_of_none (h : (n.advertisement s).records[i]? = none) :
    exec (copyWalk t s (fuel + 1) i) n = (.ok (), n) := by
  rw [copyWalk, exec_get_bind, h]
  rfl

theorem copyWalk_of_some (h : (n.advertisement s).records[i]? = some r) :
    exec (copyWalk t s (fuel + 1) i) n =
      exec (copyWalk t s fuel (i + 1)) (n.appendRecords t [r]) := by
  rw [copyWalk, exec_get_bind, h]
  rfl

theorem copies_of_copyWalk (h : exec (copyWalk t s fuel i) n = (.ok (), n')) :
    Copies t s i n n' := by
  induction fuel generalizing i n with
  | zero => cases h
  | succ fuel ih =>
    cases hr : (n.advertisement s).records[i]? with
    | none =>
      rw [copyWalk_of_none hr, Prod.mk.injEq] at h
      exact h.2 ▸ .stop hr
    | some r =>
      rw [copyWalk_of_some hr] at h
      exact .turn hr (ih h)

/-- Some fuel is enough exactly where the walk ends. -/
theorem copies_iff_exists_fuel :
    Copies t s i n n' ↔ ∃ fuel, exec (copyWalk t s fuel i) n = (.ok (), n') := by
  refine ⟨fun h => ?_, fun ⟨_, h⟩ => copies_of_copyWalk h⟩
  induction h with
  | stop hr => exact ⟨1, copyWalk_of_none hr⟩
  | turn hr _ ih =>
    obtain ⟨fuel, hfuel⟩ := ih
    exact ⟨fuel + 1, (copyWalk_of_some hr).trans hfuel⟩

/-- Without enough fuel the walk comes to no result. -/
theorem copyWalk_cases (t s : AdvertisementId) (fuel i : Nat) (n : Network) :
    (exec (copyWalk t s fuel i) n).1 = .ok () ∨
      (exec (copyWalk t s fuel i) n).1 = .error .endlessCopy := by
  induction fuel generalizing i n with
  | zero => exact .inr rfl
  | succ fuel ih =>
    cases hr : (n.advertisement s).records[i]? with
    | none => exact .inl (congrArg Prod.fst (copyWalk_of_none hr))
    | some r =>
      rw [copyWalk_of_some hr]
      exact ih (i + 1) _

/-! ### Two advertisements, and one -/

/-- What is appended to another advertisement does not come up. -/
theorem copyWalk_of_ne (h : t ≠ s) (hfuel : (n.advertisement s).records.length - i < fuel) :
    exec (copyWalk t s fuel i) n =
      (.ok (), n.appendRecords t ((n.advertisement s).records.drop i)) := by
  induction fuel generalizing i n with
  | zero => omega
  | succ fuel ih =>
    cases hr : (n.advertisement s).records[i]? with
    | none =>
      rw [copyWalk_of_none hr, List.drop_eq_nil_of_le (List.getElem?_eq_none_iff.1 hr),
        appendRecords_nil]
    | some r =>
      obtain ⟨hi, hget⟩ := List.getElem?_eq_some_iff.1 hr
      have hsource := advertisement_appendRecords_of_ne (n := n) [r] h
      rw [copyWalk_of_some hr, ih (by rw [hsource]; omega), hsource, appendRecords_append,
        List.drop_eq_getElem_cons hi, hget, List.singleton_append]

/-- Each turn appends a record, so that there is always one more. -/
theorem not_copies_self (ht : t < n.advertisements.size)
    (hi : i < (n.advertisement t).records.length) : ¬ Copies t t i n n' := by
  intro h
  induction h with
  | stop hr =>
    rw [List.getElem?_eq_none_iff] at hr
    omega
  | @turn i n n' r hr rest ih =>
    -- number `i + 1` is within the records again, which are one more
    refine ih ?_ ?_
    · exact ht.trans_eq Array.size_modify.symm
    · rw [advertisement_appendRecords, if_pos ⟨rfl, ht⟩]
      simpa using hi

structure Extended (n : Network) (t : AdvertisementId) (rs : List LinkRecord) (n' : Network) :
    Prop where
  target : n'.advertisement t =
    { n.advertisement t with records := (n.advertisement t).records ++ rs }
  others : ∀ a ≠ t, n'.advertisement a = n.advertisement a
  rest : { n' with advertisements := n.advertisements } = n

theorem extended_appendRecords (ht : t < n.advertisements.size) (rs : List LinkRecord) :
    Extended n t rs (n.appendRecords t rs) where
  target := (advertisement_appendRecords n t t rs).trans (if_pos ⟨rfl, ht⟩)
  others _ ha := advertisement_appendRecords_of_ne rs ha.symm
  rest := rfl

/-- What is copied to another advertisement, or is nothing, is appended. -/
theorem exec_copyRecords (h : t ≠ s ∨ (n.advertisement s).records = []) :
    exec (copyRecords t s) n = (.ok (), n.appendRecords t (n.advertisement s).records) := by
  have hwalk : exec (copyRecords t s) n =
      exec (copyWalk t s ((n.advertisement s).records.length + 1) 0) n := rfl
  rw [hwalk]
  rcases h with hne | hnil
  · exact copyWalk_of_ne hne (Nat.lt_succ_self _)
  · rw [hnil, appendRecords_nil, copyWalk_of_none (by rw [hnil]; rfl)]

/-- Copying appends the records of the one advertisement to the other, in their order. Only an
advertisement with records that is copied onto itself gets more and more of them without an end. -/
theorem copyRecords_outcome (ht : t < n.advertisements.size) :
    (t ≠ s ∨ (n.advertisement s).records = [] → ∃ n', exec (copyRecords t s) n = (.ok (), n') ∧
      Copies t s 0 n n' ∧ Extended n t (n.advertisement s).records n') ∧
    (t = s → (n.advertisement s).records ≠ [] →
      (exec (copyRecords t s) n).1 = .error .endlessCopy ∧ ∀ n', ¬ Copies t s 0 n n') := by
  refine ⟨fun h => ?_, ?_⟩
  · have hexec := exec_copyRecords h
    exact ⟨_, hexec, copies_iff_exists_fuel.2 ⟨_, hexec⟩, extended_appendRecords ht _⟩
  · rintro rfl hne
    have hendless (n' : Network) : ¬ Copies t t 0 n n' :=
      not_copies_self ht (List.length_pos_iff.2 hne)
    refine ⟨(copyWalk_cases t t _ 0 n).resolve_left fun hok => ?_, hendless⟩
    exact hendless _ (copies_iff_exists_fuel.2 ⟨_, Prod.ext hok rfl⟩)

def linkAndBlank : Network := (exec (do
  let a ← newAdvertisement (.ofRouter ⟨0, 0, 0, 1⟩)
  modifyAdvertisement a (·.add ⟨.pointToPoint, ⟨0, 0, 0, 2⟩, ⟨10, 0, 0, 1⟩, .zero⟩)
  newAdvertisement (.ofRouter ⟨0, 0, 0, 2⟩)) .empty).2

theorem copyRecords_outcome_linkAndBlank :
    (∃ n', exec (copyRecords 1 0) linkAndBlank = (.ok (), n') ∧
      Extended linkAndBlank 1 (linkAndBlank.advertisement 0).records n') ∧
    (exec (copyRecords 0 0) linkAndBlank).1 = .error .endlessCopy := by
  obtain ⟨n', hn', -, hextended⟩ :=
    (copyRecords_outcome (n := linkAndBlank) (t := 1) (s := 0) (by decide)).1 (.inl (by decide))
  have hself := (copyRecords_outcome (n := linkAndBlank) (t := 0) (s := 0) (by decide)).2 rfl
    (by decide +kernel)
  exact ⟨⟨n', hn', hextended⟩, hself.1⟩

/-- Not every copy comes to an end. -/
theorem not_all_copied : ¬ ∀ (n : Network) (t s : AdvertisementId), t < n.advertisements.size →
    s < n.advertisements.size →
      ∃ n', Copies t s 0 n n' ∧ Extended n t (n.advertisement s).records n' := by
  intro h
  obtain ⟨n', hn', -⟩ := h linkAndBlank 0 0 (by decide) (by decide)
  have hsize : 0 < linkAndBlank.advertisements.size := by decide
  exact not_copies_self hsize (by decide +kernel) hn'

end Network

end LinkState
