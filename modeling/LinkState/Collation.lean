/-!
The order of the names of interfaces. It is that of the place where the network runs, of which no
more is known than that it is total. For names in printable ASCII there is one here: blanks and
punctuation before the digits, these before the letters regardless of case, and a name before its
continuations. Names that differ in case alone are ordered by the first difference, lower case
first.
-/

namespace LinkState

/-- A total order of names. -/
structure NameOrder where
  compare : String → String → Ordering
  trans : Std.TransCmp compare
  lawful : Std.LawfulEqCmp compare

attribute [instance] NameOrder.trans NameOrder.lawful

namespace Collation

/-- Blanks, punctuation and symbols in their order. -/
def punctuation : List Char := " _-,;:!?.'\"()[]\x7b\x7d@*/\\&#%`^+<=>|~$".toList

/-- Where a character stands when case does not count. -/
def rank (c : Char) : Nat :=
  if c ∈ punctuation then punctuation.idxOf c
  else punctuation.length +
    if c.isDigit then c.toNat - '0'.toNat
    else if c.isAlpha then 10 + (c.toLower.toNat - 'a'.toNat)
    else 36 + c.toNat

def caseRank (c : Char) : Nat := if c.isUpper then 1 else 0

/-- The order of words given by the ranks of their letters. -/
def compareBy (rank : Char → Nat) : List Char → List Char → Ordering
  | [], [] => .eq
  | [], _ :: _ => .lt
  | _ :: _, [] => .gt
  | a :: as, b :: bs => (compare (rank a) (rank b)).then (compareBy rank as bs)

def compareNames (x y : String) : Ordering :=
  (compareBy rank x.toList y.toList).then (compareBy caseRank x.toList y.toList)

theorem isUpper_iff {c : Char} : c.isUpper ↔ 65 ≤ c.toNat ∧ c.toNat ≤ 90 := decide_eq_true_iff

theorem isLower_iff {c : Char} : c.isLower ↔ 97 ≤ c.toNat ∧ c.toNat ≤ 122 :=
  Bool.and_eq_true_iff.trans (and_congr decide_eq_true_iff decide_eq_true_iff)

theorem isAlpha_iff {c : Char} : c.isAlpha ↔ c.isUpper ∨ c.isLower := Bool.or_eq_true_iff

theorem isDigit_iff {c : Char} : c.isDigit ↔ 48 ≤ c.toNat ∧ c.toNat ≤ 57 :=
  Bool.and_eq_true_iff.trans (and_congr decide_eq_true_iff decide_eq_true_iff)

theorem toNat_toLower {c : Char} :
    c.toLower.toNat = if c.isUpper then c.toNat + 32 else c.toNat := by
  by_cases hc : c.isUpper
  · have hval : c.toLower.val = c.val + 32 := congrArg Char.val (dif_pos (of_decide_eq_true hc))
    have hle := (isUpper_iff.1 hc).2
    rw [if_pos hc]
    calc c.toLower.toNat
        = (c.val + 32).toNat := congrArg UInt32.toNat hval
      _ = (c.toNat + 32) % 2 ^ 32 := UInt32.toNat_add ..
      _ = c.toNat + 32 := Nat.mod_eq_of_lt (by omega)
  · have hval : c.toLower = c := dif_neg fun h => hc (decide_eq_true h)
    rw [if_neg hc, hval]

theorem rank_of_mem {c : Char} (h : c ∈ punctuation) : rank c = punctuation.idxOf c := if_pos h

/-- Where any other character stands, by its code. -/
theorem rank_of_not_mem {c : Char} (h : c ∉ punctuation) : rank c = punctuation.length +
    if 48 ≤ c.toNat ∧ c.toNat ≤ 57 then c.toNat - 48
    else if 65 ≤ c.toNat ∧ c.toNat ≤ 90 then c.toNat - 55
    else if 97 ≤ c.toNat ∧ c.toNat ≤ 122 then c.toNat - 87
    else 36 + c.toNat := by
  rw [rank, if_neg h]
  simp only [isDigit_iff, isAlpha_iff, isUpper_iff, isLower_iff, toNat_toLower,
    show '0'.toNat = 48 from rfl, show 'a'.toNat = 97 from rfl]
  repeat' split
  all_goals omega

theorem rank_lt_length_iff {c : Char} : rank c < punctuation.length ↔ c ∈ punctuation := by
  constructor
  · intro hlt
    rw [rank] at hlt
    split at hlt
    · assumption
    · omega
  · intro hc
    rw [rank_of_mem hc]
    exact List.idxOf_lt_length_of_mem hc

/-- A character is known by its place and its case. -/
theorem eq_of_ranks {c d : Char} (h : rank c = rank d) (h' : caseRank c = caseRank d) : c = d := by
  have hmem : c ∈ punctuation ↔ d ∈ punctuation := by
    rw [← rank_lt_length_iff, h, rank_lt_length_iff]
  by_cases hc : c ∈ punctuation
  · have hd := hmem.1 hc
    rw [rank_of_mem hc, rank_of_mem hd] at h
    rw [← List.getElem_idxOf (List.idxOf_lt_length_of_mem hc),
      ← List.getElem_idxOf (List.idxOf_lt_length_of_mem hd)]
    simp only [h]
  · rw [rank_of_not_mem hc, rank_of_not_mem fun hd => hc (hmem.2 hd)] at h
    simp only [caseRank, isUpper_iff] at h'
    apply Char.toNat_inj.1
    repeat' split at h
    all_goals
      repeat' split at h'
      all_goals omega

theorem compareBy_eq (f : Char → Nat) (xs ys : List Char) :
    compareBy f xs ys = Ord.compare (xs.map f) (ys.map f) := by
  induction xs generalizing ys with
  | nil => cases ys <;> simp [compareBy]
  | cons x xs ih =>
    cases ys with
    | nil => simp [compareBy]
    | cons y ys => simp [compareBy, ih, List.compare_cons_cons]

theorem eq_of_map_ranks {xs ys : List Char} (h : xs.map rank = ys.map rank)
    (h' : xs.map caseRank = ys.map caseRank) : xs = ys := by
  induction xs generalizing ys with
  | nil => simpa using h.symm
  | cons x xs ih =>
    cases ys with
    | nil => cases h
    | cons y ys =>
      simp only [List.map_cons, List.cons.injEq] at h h'
      rw [eq_of_ranks h.1 h'.1, ih h.2 h'.2]

/-- The letters of a name by the one rank or the other. -/
def ranksBy (f : Char → Nat) (s : String) : List Nat := s.toList.map f

theorem compareNames_eq : compareNames =
    compareLex (compareOn (ranksBy rank)) (compareOn (ranksBy caseRank)) := by
  funext x y
  rw [compareNames, compareBy_eq, compareBy_eq]
  rfl

instance : Std.TransCmp compareNames := by
  rw [compareNames_eq]
  infer_instance

/-- Names of one place in the order are one name. -/
theorem eq_of_compareNames {x y : String} (h : compareNames x y = .eq) : x = y := by
  rw [compareNames_eq, compareLex_eq_eq] at h
  exact String.toList_inj.1 (eq_of_map_ranks (Std.LawfulEqOrd.eq_of_compare h.1)
    (Std.LawfulEqOrd.eq_of_compare h.2))

instance : Std.LawfulEqCmp compareNames := ⟨eq_of_compareNames⟩

end Collation

/-- The order of names in printable ASCII. -/
def NameOrder.plain : NameOrder := ⟨Collation.compareNames, inferInstance, inferInstance⟩

end LinkState
