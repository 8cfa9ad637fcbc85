/-!
Dotted notation: a text is cut at its points, and each field stands for the integer it begins
with. `join` and `split` are inverse on fields without points.
-/

namespace LinkState

namespace Dotted

def splitChars : List Char → List (List Char)
  | [] => [[]]
  | c :: rest =>
    if c = '.' then [] :: splitChars rest
    else match splitChars rest with
      | [] => [[c]]
      | field :: fields => (c :: field) :: fields

/-- The fields between the points; a text without a point is one field. -/
def split (s : String) : List String := (splitChars s.toList).map String.ofList

def join (fields : List String) : String := String.intercalate "." fields

theorem splitChars_of_not_mem {s : List Char} (h : '.' ∉ s) : splitChars s = [s] := by
  induction s with
  | nil => rfl
  | cons c rest ih =>
    rw [List.mem_cons, not_or] at h
    simp [splitChars, ih h.2, Ne.symm h.1]

/-- The first point ends the first field. -/
theorem splitChars_append_point {s : List Char} (h : '.' ∉ s) (rest : List Char) :
    splitChars (s ++ '.' :: rest) = s :: splitChars rest := by
  induction s with
  | nil => simp [splitChars]
  | cons c s ih =>
    rw [List.mem_cons, not_or] at h
    simp [splitChars, ih h.2, Ne.symm h.1]

/-- White space that may stand before an integer: tabs and line ends, the spaces of every width,
the no-break spaces and the byte order mark. -/
def isBlank (c : Char) : Bool :=
  c ∈ ['\t', '\n', '\x0b', '\x0c', '\r', ' ', '\u00a0', '\u1680', '\u2028', '\u2029', '\u202f',
    '\u205f', '\u3000', '\ufeff'] || ('\u2000' ≤ c && c ≤ '\u200a')

def digitsValue (digits : List Char) : Nat :=
  digits.foldl (fun n c => 10 * n + (c.toNat - '0'.toNat)) 0

/-- The digits at the start, if there are any. -/
def leadingNatural? (s : List Char) : Option Nat :=
  let digits := s.takeWhile Char.isDigit
  if digits.isEmpty then none else some (digitsValue digits)

/-- The integer at the start, after blanks and with one sign or none. What follows it is ignored. -/
def leadingInteger? (s : String) : Option Int :=
  match s.toList.dropWhile isBlank with
  | '-' :: rest => (leadingNatural? rest).map fun n => -(n : Int)
  | '+' :: rest => (leadingNatural? rest).map Int.ofNat
  | rest => (leadingNatural? rest).map Int.ofNat

end Dotted

end LinkState
