import Mathlib.Tactic.FinCases
import NatSpec.Bundle.Markup

/-!
What a page shows of its pieces. An escaped text holds none of the characters that begin or end a
tag or the value of an attribute, and replacing its entities gives the text back.
-/

namespace NatSpec.Markup

/-- The characters that begin or end a tag or the value of an attribute. -/
def marks : List Char :=
  ['<', '>', '\x22', '\x27']

theorem escapeChar_plain {c : Char} (h : c ∉ '&' :: marks) : escapeChar c = [c] := by
  simp only [marks, List.mem_cons, not_or] at h
  simp [escapeChar, h]

/-- The entity of a character begins with `&` and ends with `;`. -/
theorem escapeChar_free (c : Char) : ∀ d ∈ marks, d ∉ escapeChar c := by
  by_cases h : c ∈ '&' :: marks
  · fin_cases h <;> simp [marks, escapeChar]
  · rw [escapeChar_plain h]
    rintro d hd hmem
    rw [List.mem_singleton] at hmem
    exact h (List.mem_cons_of_mem _ (hmem ▸ hd))

theorem escape_free (s : String) : ∀ d ∈ marks, d ∉ (escape s).toList := by
  intro d hd hmem
  rw [escape, String.toList_ofList] at hmem
  obtain ⟨c, -, hc⟩ := List.mem_flatMap.1 hmem
  exact escapeChar_free c d hd hc

/-! ### Entities -/

/-- A text with each entity replaced by the character it stands for. -/
def unescapeChars : List Char → List Char
  | '&' :: 'a' :: 'm' :: 'p' :: ';' :: rest => '&' :: unescapeChars rest
  | '&' :: 'l' :: 't' :: ';' :: rest => '<' :: unescapeChars rest
  | '&' :: 'g' :: 't' :: ';' :: rest => '>' :: unescapeChars rest
  | '&' :: '#' :: '3' :: '9' :: ';' :: rest => '\x27' :: unescapeChars rest
  | '&' :: '#' :: '3' :: '4' :: ';' :: rest => '\x22' :: unescapeChars rest
  | c :: rest => c :: unescapeChars rest
  | [] => []

/-- The text that stands in a page in its escaped form. -/
def unescape (s : String) : String :=
  String.ofList (unescapeChars s.toList)

theorem unescapeChars_escapeChar (c : Char) (rest : List Char) :
    unescapeChars (escapeChar c ++ rest) = c :: unescapeChars rest := by
  by_cases h : c ∈ '&' :: marks
  · fin_cases h <;> rfl
  · rw [escapeChar_plain h, List.singleton_append]
    have hc : c ≠ '&' := fun hc => h (hc ▸ List.mem_cons_self)
    simp [unescapeChars, hc]

/-- Replacing the entities of an escaped text gives the text. -/
theorem unescape_escape (s : String) : unescape (escape s) = s := by
  have hchars : ∀ cs : List Char, unescapeChars (cs.flatMap escapeChar) = cs := by
    intro cs
    induction cs with
    | nil => rfl
    | cons c cs ih => rw [List.flatMap_cons, unescapeChars_escapeChar, ih]
  rw [unescape, escape, String.toList_ofList, hchars, String.ofList_toList]

/-! ### Pages -/

theorem render_nil : render [] = "" := rfl

theorem render_append (ps qs : List Piece) : render (ps ++ qs) = render ps ++ render qs := by
  simp [render, String.join_append]

theorem render_cons (p : Piece) (ps : List Piece) :
    render (p :: ps) = pieceText p ++ render ps := by
  simp [render, String.join_cons]

end NatSpec.Markup
