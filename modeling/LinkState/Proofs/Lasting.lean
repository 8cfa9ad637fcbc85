import Mathlib

/-! What lasts in a list of events: it is there, and nothing after it undoes it. -/

namespace LinkState

variable {α : Type} {undoes : α → Prop} {a b : α} {l : List α}

/-- The event `a` is in the list, and no event after it undoes it. -/
def Lasting (undoes : α → Prop) (a : α) (l : List α) : Prop :=
  ∃ before after, l = before ++ a :: after ∧ ∀ b ∈ after, ¬ undoes b

theorem not_lasting_nil : ¬ Lasting undoes a [] := by
  rintro ⟨before, after, h, -⟩
  simp at h

/-- The next event is it, or does not undo it. -/
theorem lasting_append_singleton :
    Lasting undoes a (l ++ [b]) ↔ b = a ∨ ¬ undoes b ∧ Lasting undoes a l := by
  constructor
  · rintro ⟨before, after, hl, hafter⟩
    rcases List.eq_nil_or_concat' after with rfl | ⟨after, c, rfl⟩
    · exact .inl (List.singleton_inj.1 (List.append_inj_right' hl rfl))
    · rw [← List.cons_append, ← List.append_assoc] at hl
      obtain ⟨rfl, hbc⟩ := List.append_inj' hl rfl
      obtain rfl := List.singleton_inj.1 hbc
      rw [List.forall_mem_append, List.forall_mem_singleton] at hafter
      exact .inr ⟨hafter.2, before, after, rfl, hafter.1⟩
  · rintro (rfl | ⟨hb, before, after, rfl, hafter⟩)
    · exact ⟨l, [], rfl, List.forall_mem_nil _⟩
    · refine ⟨before, after ++ [b], by rw [List.append_assoc, List.cons_append], ?_⟩
      rw [List.forall_mem_append, List.forall_mem_singleton]
      exact ⟨hafter, hb⟩

theorem lasting_iff_getElem? : Lasting undoes a l ↔
    ∃ i < l.length, l[i]? = some a ∧ ∀ b ∈ l.drop (i + 1), ¬ undoes b := by
  constructor
  · rintro ⟨before, after, rfl, hafter⟩
    exact ⟨before.length, by simp, by simp, by simpa using hafter⟩
  · rintro ⟨i, -, ha, hafter⟩
    obtain ⟨hi, ha⟩ := List.getElem?_eq_some_iff.1 ha
    refine ⟨l.take i, l.drop (i + 1), ?_, hafter⟩
    rw [← ha, ← List.drop_eq_getElem_cons, List.take_append_drop]

instance [DecidableEq α] [DecidablePred undoes] : Decidable (Lasting undoes a l) :=
  decidable_of_iff' _ lasting_iff_getElem?

end LinkState
