import LinkState.Spf.Routes
import Mathlib

/-! The order of hops. Names of one place in the order are one name, and so the least of some hops
depends on which hops there are, not on how they are listed. -/

namespace LinkState

namespace Hop

variable {names : NameOrder} {a b : Hop}

theorem compare_eq (names : NameOrder) : Hop.compare names =
    compareLex (compareOn fun h => h.address.toNat)
      fun a b => names.compare a.interface b.interface := by
  funext a b
  rw [compare, Address.compare, compareLex, compareOn]

instance : Std.TransCmp fun a b : Hop => names.compare a.interface b.interface where
  eq_swap := Std.OrientedCmp.eq_swap
  isLE_trans := Std.TransCmp.isLE_trans

instance : Std.TransCmp (Hop.compare names) := by
  rw [compare_eq]
  infer_instance

@[simp]
theorem compare_self (a : Hop) : a.compare names a = .eq := Std.ReflCmp.compare_self

theorem compare_swap (a b : Hop) : a.compare names b = (b.compare names a).swap :=
  Std.OrientedCmp.eq_swap

theorem eq_of_compare (h : a.compare names b = .eq) : a = b := by
  rw [compare, Ordering.then_eq_eq] at h
  cases a
  cases b
  simp only [mk.injEq]
  exact ⟨Address.toNat_inj.1 (Std.LawfulEqOrd.eq_of_compare h.1), Std.LawfulEqCmp.eq_of_compare h.2⟩

theorem eq_of_isLE (h : (a.compare names b).isLE) (h' : (b.compare names a).isLE) : a = b :=
  eq_of_compare (Std.OrientedCmp.isLE_antisymm h h')

theorem foldl_isLE (hs : List Hop) (b : Hop) : ∀ x ∈ b :: hs,
    ((hs.foldl (fun best h => if h.compare names best = .lt then h else best) b).compare
      names x).isLE := by
  induction hs generalizing b with
  | nil => simp
  | cons y hs ih =>
    -- what the fold starts from is no higher than either of the two
    have hstart : ((if y.compare names b = .lt then y else b).compare names b).isLE ∧
        ((if y.compare names b = .lt then y else b).compare names y).isLE := by
      split
      · next h => simp [h]
      · next h =>
        refine ⟨by simp, ?_⟩
        rw [Hop.compare_swap]
        cases hc : y.compare names b <;> simp_all
    have hbest := ih (if y.compare names b = .lt then y else b)
    have hfirst := hbest _ (List.mem_cons_self ..)
    intro x hx
    rw [List.foldl_cons]
    simp only [List.mem_cons] at hx
    rcases hx with rfl | rfl | hx
    · exact Std.TransCmp.isLE_trans hfirst hstart.1
    · exact Std.TransCmp.isLE_trans hfirst hstart.2
    · exact hbest x (List.mem_cons_of_mem _ hx)

theorem foldl_mem (hs : List Hop) (b : Hop) :
    hs.foldl (fun best h => if h.compare names best = .lt then h else best) b ∈ b :: hs := by
  induction hs generalizing b with
  | nil => exact List.mem_cons_self ..
  | cons x hs ih =>
    rw [List.foldl_cons]
    rcases List.mem_cons.1 (ih (if x.compare names b = .lt then x else b)) with h | h
    · rw [h]
      split <;> simp
    · exact List.mem_cons_of_mem _ (List.mem_cons_of_mem _ h)

theorem least?_eq_none {hs : List Hop} : least? names hs = none ↔ hs = [] := by
  cases hs <;> simp [least?]

/-- There is one least hop, whatever order the hops are listed in. -/
theorem least?_eq_some_iff {hs : List Hop} {h : Hop} :
    least? names hs = some h ↔ h ∈ hs ∧ ∀ x ∈ hs, (h.compare names x).isLE := by
  cases hs with
  | nil => simp [least?]
  | cons y hs =>
    rw [least?, Option.some.injEq]
    constructor
    · rintro rfl
      exact ⟨foldl_mem hs y, foldl_isLE hs y⟩
    · rintro ⟨hmem, hle⟩
      exact eq_of_isLE (foldl_isLE hs y h hmem) (hle _ (foldl_mem hs y))

end Hop

end LinkState
