import NatSpec.Text.Search

/-!
Where the first occurrence of a piece stands. A piece at the start of a text is found there, a piece
of one character is found at the first place of that character, and one that cannot begin in some
text is found behind it. Splitting at all occurrences of a character is splitting a list; a text
split at line feeds is a list of lines.
-/

namespace NatSpec.Text

theorem cut?_append_self (piece rest : List Char) :
    cut? piece (piece ++ rest) = some ([], rest) := by
  cases piece with
  | nil => cases rest <;> simp [cut?]
  | cons c piece => simp [cut?]

/-- A character is found behind a text without it. -/
theorem cut?_singleton_append {c : Char} {before : List Char} (rest : List Char)
    (h : c ∉ before) : cut? [c] (before ++ c :: rest) = some (before, rest) := by
  induction before with
  | nil => exact cut?_append_self [c] rest
  | cons d before ih =>
      rw [List.mem_cons, not_or] at h
      rw [List.cons_append, cut?, if_neg (by simpa using h.1), ih h.2]
      rfl

/-- Splitting around a character finds the one split whose first part is free of it. -/
theorem cut?_singleton_eq_some_iff {c : Char} {text before after : List Char} :
    cut? [c] text = some (before, after) ↔ c ∉ before ∧ text = before ++ c :: after := by
  constructor
  · intro h
    have hmem : c ∈ text := by
      rw [cut?_eq_append h]
      simp
    obtain ⟨first, rest, htext, hfirst⟩ := List.eq_append_cons_of_mem hmem
    have hcut := cut?_singleton_append rest hfirst
    rw [← htext, h] at hcut
    obtain ⟨rfl, rfl⟩ := Prod.mk.inj (Option.some.inj hcut)
    exact ⟨hfirst, htext⟩
  · rintro ⟨hbefore, rfl⟩
    exact cut?_singleton_append after hbefore

/-- A text that starts with a piece has it replaced there. -/
theorem replaceFirst_append (piece replacement rest : String) :
    replaceFirst piece replacement (piece ++ rest) = replacement ++ rest := by
  simp [replaceFirst, splitFirst?, String.toList_append, cut?_append_self]

theorem occurs_append (piece rest : String) : occurs piece (piece ++ rest) = true := by
  simp [occurs, String.toList_append, cut?_append_self]

theorem isSome_cut?_iff {α : Type} [BEq α] [LawfulBEq α] {piece text : List α} :
    (cut? piece text).isSome = true ↔ piece <:+: text := by
  constructor
  · intro h
    obtain ⟨⟨before, after⟩, hcut⟩ := Option.isSome_iff_exists.1 h
    exact ⟨before, after, (cut?_eq_append hcut).symm⟩
  · intro h
    induction text with
    | nil => simp [cut?, List.infix_nil.1 h]
    | cons c cs ih =>
        rw [cut?]
        split
        · rfl
        · rename_i hstart
          rw [List.infix_cons_iff, ← List.isPrefixOf_iff_prefix] at h
          simpa using ih (h.resolve_left hstart)

/-- A piece occurs in a text exactly if it is a part of it. -/
theorem occurs_iff {piece text : String} :
    occurs piece text = true ↔ piece.toList <:+: text.toList :=
  isSome_cut?_iff

theorem splitOn_eq (separator : Char) (text : List Char) :
    splitOn separator text = text.splitOn separator := by
  induction text with
  | nil => rfl
  | cons c text ih =>
      have hcons : (c :: text).splitOn separator =
          if c == separator then [] :: text.splitOn separator
          else (text.splitOn separator).modifyHead (List.cons c) :=
        List.splitOnP_cons_eq_if_modifyHead ..
      rw [splitOn, hcons]
      by_cases hsep : c = separator
      · rw [if_pos hsep, if_pos (beq_iff_eq.2 hsep), ih]
      · rw [if_neg hsep, if_neg (by simpa using hsep), ih]
        cases hrest : text.splitOn separator with
        | nil => exact absurd hrest (List.splitOn_ne_nil separator text)
        | cons part parts => rfl

/-! ### Texts in which a piece cannot begin -/

/-- Whether no occurrence of a piece can begin in a text, whatever stands behind the text. -/
def misses (piece : List Char) : List Char → Bool
  | [] => true
  | c :: cs => !piece.isPrefixOf (c :: cs) && !(c :: cs).isPrefixOf piece && misses piece cs

variable {piece text more : List Char} {c : Char}

theorem misses_cons_iff :
    misses piece (c :: text) = true ↔
      (¬piece <+: c :: text ∧ ¬c :: text <+: piece) ∧ misses piece text = true := by
  rw [misses, Bool.and_eq_true, Bool.and_eq_true, Bool.not_eq_true', Bool.not_eq_true',
    Bool.eq_false_iff, Bool.eq_false_iff, Ne, Ne, List.isPrefixOf_iff_prefix,
    List.isPrefixOf_iff_prefix]

/-- Where one of two texts would have to begin the other, no occurrence begins. -/
theorem not_prefix_append (h : ¬piece <+: text ∧ ¬text <+: piece) (rest : List Char) :
    ¬piece <+: text ++ rest := by
  intro hprefix
  rcases List.prefix_or_prefix_of_prefix hprefix (List.prefix_append text rest) with hbegins | hends
  · exact h.1 hbegins
  · exact h.2 hends

theorem misses_append (h : misses piece text = true) (hmore : misses piece more = true) :
    misses piece (text ++ more) = true := by
  induction text with
  | nil => exact hmore
  | cons c cs ih =>
      obtain ⟨hnot, hrest⟩ := misses_cons_iff.1 h
      exact misses_cons_iff.2 ⟨⟨not_prefix_append hnot more,
        fun hprefix => hnot.2 ((List.prefix_append (c :: cs) more).trans hprefix)⟩, ih hrest⟩

/-- A longer piece begins in no more texts. -/
theorem misses_longer (h : misses piece text = true) (behind : List Char) :
    misses (piece ++ behind) text = true := by
  induction text with
  | nil => rfl
  | cons c cs ih =>
      obtain ⟨hnot, hrest⟩ := misses_cons_iff.1 h
      exact misses_cons_iff.2
        ⟨⟨fun hprefix => hnot.1 ((List.prefix_append piece behind).trans hprefix),
          not_prefix_append hnot.symm behind⟩, ih hrest⟩

/-- A piece begins in no text without its first character. -/
theorem misses_of_not_mem (h : c ∉ text) : misses (c :: piece) text = true := by
  induction text with
  | nil => rfl
  | cons d cs ih =>
      rw [List.mem_cons, not_or] at h
      refine misses_cons_iff.2 ⟨⟨fun hprefix => ?_, fun hprefix => ?_⟩, ih h.2⟩
      · exact h.1 (List.cons_prefix_cons.1 hprefix).1
      · exact h.1 (List.cons_prefix_cons.1 hprefix).1.symm

/-- A text that is written out is searched by its characters. -/
theorem misses_literal {s : String} (hs : s = String.ofList text) (h : misses piece text = true) :
    misses piece s.toList = true := by
  rwa [hs, String.toList_ofList]

theorem misses_intercalate {lines : List String} (hfeed : misses piece ['\n'] = true)
    (h : ∀ line ∈ lines, misses piece line.toList = true) :
    misses piece ("\n".intercalate lines).toList = true := by
  induction lines with
  | nil => simpa using misses_literal (s := "") rfl rfl
  | cons line rest ih =>
      have hline := h line List.mem_cons_self
      have hrest := ih fun other hother => h other (List.mem_cons_of_mem _ hother)
      cases rest with
      | nil => simpa using hline
      | cons next rest =>
          rw [String.intercalate_cons_cons, String.toList_append, String.toList_append]
          exact misses_append (misses_append hline (misses_literal rfl hfeed)) hrest

/-- The first occurrence of a piece is behind a text in which it cannot begin. -/
theorem cut?_append_of_misses (h : misses piece text = true) (rest : List Char) :
    cut? piece (text ++ rest) =
      (cut? piece rest).map fun split => (text ++ split.1, split.2) := by
  induction text with
  | nil => simp
  | cons c cs ih =>
      obtain ⟨hnot, hrest⟩ := misses_cons_iff.1 h
      have hstart := not_prefix_append hnot rest
      rw [← List.isPrefixOf_iff_prefix, List.cons_append] at hstart
      rw [List.cons_append, cut?, if_neg hstart, ih hrest, Option.map_map]
      rfl

/-- A piece behind a text in which it cannot begin occurs there first. -/
theorem cut?_append_append (h : misses piece text = true) (rest : List Char) :
    cut? piece (text ++ (piece ++ rest)) = some (text, rest) := by
  rw [cut?_append_of_misses h, cut?_append_self]
  simp

/-! ### Lines -/

def lines (text : String) : List String :=
  (splitOn '\n' text.toList).map String.ofList

theorem lines_append (text rest : String) :
    lines (text ++ "\n" ++ rest) = lines text ++ lines rest := by
  have hlist : (text ++ "\n" ++ rest).toList = text.toList ++ '\n' :: rest.toList := by
    simp [String.toList_append]
  rw [lines, hlist, splitOn_eq, List.splitOn_append_cons_self, List.map_append, lines, lines,
    splitOn_eq, splitOn_eq]

theorem lines_of_not_mem {text : String} (h : '\n' ∉ text.toList) : lines text = [text] := by
  rw [lines, splitOn_eq, List.splitOn_eq_singleton h]
  simp

theorem lines_line {line : String} (h : '\n' ∉ line.toList) (rest : String) :
    lines (line ++ "\n" ++ rest) = line :: lines rest := by
  rw [lines_append, lines_of_not_mem h, List.singleton_append]

theorem lines_intercalate {texts : List String} (hne : texts ≠ []) :
    lines ("\n".intercalate texts) = texts.flatMap lines := by
  induction texts with
  | nil => exact absurd rfl hne
  | cons text rest ih =>
      cases rest with
      | nil => simp
      | cons next rest =>
          rw [String.intercalate_cons_cons, lines_append, ih (List.cons_ne_nil _ _),
            List.flatMap_cons (x := text)]

theorem flatMap_lines {texts : List String} (h : ∀ text ∈ texts, '\n' ∉ text.toList) :
    texts.flatMap lines = texts := by
  induction texts with
  | nil => rfl
  | cons text rest ih =>
      rw [List.flatMap_cons, lines_of_not_mem (h text List.mem_cons_self),
        ih fun other hother => h other (List.mem_cons_of_mem _ hother), List.singleton_append]

end NatSpec.Text
