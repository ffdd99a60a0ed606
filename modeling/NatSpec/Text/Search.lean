/-!
Finding and replacing a piece of text. Everything is read off one function, `cut?`, which splits
a text around the first occurrence of the piece.
-/

namespace NatSpec.Text

/-- What stands before and after the first occurrence of a piece in a list. -/
def cut? {α : Type} [BEq α] (piece : List α) : List α → Option (List α × List α)
  | [] => if piece.isEmpty then some ([], []) else none
  | c :: cs =>
    if piece.isPrefixOf (c :: cs) then some ([], (c :: cs).drop piece.length)
    else (cut? piece cs).map fun (before, after) => (c :: before, after)

/-- The parts of a text before and after the first occurrence of a piece. -/
def splitFirst? (piece text : String) : Option (String × String) :=
  (cut? piece.toList text.toList).map fun (before, after) =>
    (String.ofList before, String.ofList after)

def occurs (piece text : String) : Bool :=
  (cut? piece.toList text.toList).isSome

/-- Replaces the first occurrence of a piece. -/
def replaceFirst (piece replacement text : String) : String :=
  match splitFirst? piece text with
  | none => text
  | some (before, after) => before ++ replacement ++ after

/-- Replaces each occurrence of a two-character piece, from left to right. -/
def replacePairs (a b : Char) (replacement : List Char) : List Char → List Char
  | x :: y :: rest =>
    if x = a ∧ y = b then replacement ++ replacePairs a b replacement rest
    else x :: replacePairs a b replacement (y :: rest)
  | short => short

/-- The parts between the occurrences of a separator; there is always at least one. -/
def splitOn (separator : Char) : List Char → List (List Char)
  | [] => [[]]
  | c :: cs =>
    if c = separator then [] :: splitOn separator cs
    else match splitOn separator cs with
      | [] => [[c]]
      | part :: parts => (c :: part) :: parts

def startsWith (text start : String) : Bool :=
  start.toList.isPrefixOf text.toList

def endsWith (text ending : String) : Bool :=
  ending.toList.isSuffixOf text.toList

theorem cut?_eq_append {α : Type} [BEq α] [LawfulBEq α] {piece text before after : List α}
    (h : cut? piece text = some (before, after)) : text = before ++ piece ++ after := by
  induction text generalizing before with
  | nil =>
    simp only [cut?] at h
    split at h <;> simp_all
  | cons c cs ih =>
    simp only [cut?] at h
    split at h
    · rename_i hp
      obtain ⟨rfl, rfl⟩ := by simpa using h
      obtain ⟨rest, hr⟩ := List.isPrefixOf_iff_prefix.1 hp
      simp [← hr]
    · obtain ⟨⟨b, a⟩, hb, he⟩ := Option.map_eq_some_iff.1 h
      obtain ⟨rfl, rfl⟩ := by simpa using he
      simp [ih hb]

end NatSpec.Text
