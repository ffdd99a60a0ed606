import NatSpec.Proofs.Bundle.Data
import NatSpec.Proofs.Bundle.Index
import NatSpec.Proofs.Text.Search

/-!
Data inside a script. A `<` before a slash occurs in strings only, and there the backslash that is
put between the two makes an escape of the slash that stands for the slash. So the guarded data
spell the same value, and no end of a script occurs in them.
-/

namespace NatSpec

open Text (replacePairs)

namespace Markup

/-- Data with a backslash behind each `<` that a slash follows. -/
abbrev guarded (cs : List Char) : List Char :=
  replacePairs '<' '/' ['<', '\\', '/'] cs

theorem guarded_pair (cs : List Char) :
    guarded ('<' :: '/' :: cs) = '<' :: '\\' :: '/' :: guarded cs := by
  simp [guarded, replacePairs]

theorem guarded_cons {c : Char} {cs : List Char} (h : c = '<' → cs.head? ≠ some '/') :
    guarded (c :: cs) = c :: guarded cs := by
  cases cs with
  | nil => rfl
  | cons d cs =>
      have hnot : ¬(c = '<' ∧ d = '/') := fun ⟨hc, hd⟩ => h hc (congrArg some hd)
      rw [guarded, replacePairs, if_neg hnot]

theorem head?_guarded (cs : List Char) : (guarded cs).head? = cs.head? := by
  cases cs with
  | nil => rfl
  | cons c cs =>
      by_cases h : c = '<' ∧ cs.head? = some '/'
      · obtain ⟨rfl, hslash⟩ := h
        obtain ⟨cs, rfl⟩ : ∃ rest, cs = '/' :: rest := by
          cases cs <;> simp_all
        rw [guarded_pair]
        rfl
      · rw [guarded_cons fun hc hslash => h ⟨hc, hslash⟩]
        rfl

theorem guarded_append_of_not_mem {cs : List Char} (h : '<' ∉ cs) (ds : List Char) :
    guarded (cs ++ ds) = cs ++ guarded ds := by
  induction cs with
  | nil => rfl
  | cons c cs ih =>
      rw [List.mem_cons, not_or] at h
      rw [List.cons_append, guarded_cons fun hc => absurd hc.symm h.1, ih h.2, List.cons_append]

theorem guarded_of_not_mem {cs : List Char} (h : '<' ∉ cs) : guarded cs = cs := by
  have hself := guarded_append_of_not_mem h []
  rwa [List.append_nil, show guarded [] = [] from rfl, List.append_nil] at hself

theorem guarded_append {ds : List Char} (h : ds.head? ≠ some '/') (cs : List Char) :
    guarded (cs ++ ds) = guarded cs ++ guarded ds := by
  induction cs using Text.replacePairs.induct '<' '/' with
  | case1 x y cs hpair ih =>
      obtain ⟨rfl, rfl⟩ := hpair
      rw [List.cons_append, List.cons_append, guarded_pair, guarded_pair, ih]
      rfl
  | case2 x y cs hnot ih =>
      have hx : x = '<' → (y :: cs).head? ≠ some '/' := fun hx hy =>
        hnot ⟨hx, Option.some.inj hy⟩
      have hx' : x = '<' → (y :: cs ++ ds).head? ≠ some '/' := hx
      rw [List.cons_append, guarded_cons hx', guarded_cons hx, ih, List.cons_append]
  | case3 cs hshort =>
      match cs with
      | [] => rfl
      | [c] => exact guarded_cons fun _ => h
      | c :: d :: rest => exact absurd rfl (hshort c d rest)

/-- No end of a script occurs in guarded data. -/
theorem not_infix_guarded (cs : List Char) : ¬['<', '/'] <:+: guarded cs := by
  induction cs using Text.replacePairs.induct '<' '/' with
  | case1 x y cs hpair ih =>
      obtain ⟨rfl, rfl⟩ := hpair
      simp [guarded_pair, List.infix_cons_iff, ih]
  | case2 x y cs hnot ih =>
      have hx : x = '<' → (y :: cs).head? ≠ some '/' := fun hx hy =>
        hnot ⟨hx, Option.some.inj hy⟩
      rw [guarded_cons hx, List.infix_cons_iff, not_or]
      refine ⟨fun hprefix => ?_, ih⟩
      obtain ⟨rest, hrest⟩ := hprefix
      obtain ⟨rfl, htail⟩ := List.cons.inj hrest
      have hhead := head?_guarded (y :: cs)
      rw [← htail] at hhead
      exact hx rfl hhead.symm
  | case3 cs hshort =>
      match cs with
      | [] => decide
      | [c] =>
          intro hinfix
          have hlength := hinfix.length_le
          simp [guarded, replacePairs] at hlength
      | c :: d :: rest => exact absurd rfl (hshort c d rest)

theorem occurs_guardScript (s : String) : Text.occurs "</" (guardScript s) = false := by
  rw [← Bool.not_eq_true, Text.occurs_iff, guardScript]
  simp only [String.toList_ofList]
  exact not_infix_guarded s.toList

end Markup

/-! ### What guarded data spell -/

namespace Json

open Markup (guarded guarded_pair guarded_cons guarded_append guarded_append_of_not_mem
  guarded_of_not_mem)

theorem not_mem_of_spellsUnits {cs : List Char} {us : List UInt16} (h : SpellsUnits cs us)
    (hc : ∀ c, cs ≠ [c]) : '<' ∉ cs := by
  have hnone : Text.hexValue? '<' = none := by decide
  cases h with
  | plain => exact absurd rfl (hc _)
  | @short e c hshort =>
      have he : '<' ≠ e := by
        rintro rfl
        simp [Reader.shortEscape?] at hshort
      simp [he]
  | number hnumber =>
      have hdigits := fun hmem => Text.hexValue?_ne_none_of_mem hnumber hmem hnone
      simpa using hdigits

theorem spellsText_slash {text : List Char} {found : List UInt16}
    (h : SpellsText ('/' :: text) found) :
    ∃ rest, found = Text.charUnits '/' ++ rest ∧ SpellsText text rest := by
  generalize hcs : '/' :: text = cs at h
  cases h with
  | nil => cases hcs
  | cons hunits htext =>
      cases hunits with
      | plain _ _ _ =>
          obtain ⟨rfl, rfl⟩ := List.cons.inj hcs
          exact ⟨_, rfl, htext⟩
      | short _ => cases (List.cons.inj hcs).1
      | number _ => cases (List.cons.inj hcs).1

theorem spellsText_guarded {text : List Char} {found : List UInt16} (h : SpellsText text found) :
    SpellsText (guarded text) found := by
  induction h with
  | nil => exact .nil
  | @cons cs text us rest hunits htext ih =>
      by_cases hplain : ∃ c, cs = [c]
      · obtain ⟨c, rfl⟩ := hplain
        by_cases hpair : c = '<' ∧ text.head? = some '/'
        · obtain ⟨rfl, hslash⟩ := hpair
          obtain ⟨text, rfl⟩ : ∃ more, text = '/' :: more := by
            cases text <;> simp_all
          rw [guarded_cons (by simp)] at ih
          obtain ⟨rest, rfl, hmore⟩ := spellsText_slash ih
          rw [List.singleton_append, guarded_pair]
          exact .cons hunits (.cons (.short rfl) hmore)
        · rw [List.singleton_append, guarded_cons fun hc hslash => hpair ⟨hc, hslash⟩]
          exact .cons hunits ih
      · rw [guarded_append_of_not_mem (not_mem_of_spellsUnits hunits fun c hc => hplain ⟨c, hc⟩)]
        exact .cons hunits ih

theorem spellsString_guarded {cs : List Char} {s : String} (h : SpellsString cs s) :
    SpellsString (guarded cs) s := by
  cases h with
  | @quoted text s htext =>
      rw [List.cons_append, guarded_cons (by simp), guarded_append (by simp)]
      exact .quoted (spellsText_guarded htext)

theorem not_mem_blanks {blanks : List Char} (h : Blanks blanks) : '<' ∉ blanks := by
  intro hmem
  rcases h '<' hmem with h | h | h | h <;> cases h

/-- Blanks and what ends a value are no part of a pair that is guarded. -/
theorem guarded_append_blanks (cs : List Char) {blanks : List Char} (h : Blanks blanks) {c : Char}
    (hc : c ≠ '/' ∧ c ≠ '<') (rest : List Char) :
    guarded (cs ++ (blanks ++ c :: rest)) = guarded cs ++ (blanks ++ c :: guarded rest) := by
  have hhead : (blanks ++ c :: rest).head? ≠ some '/' := by
    cases blanks with
    | nil => simpa using hc.1
    | cons d blanks =>
        intro hd
        obtain rfl := Option.some.inj hd
        rcases h '/' List.mem_cons_self with h | h | h | h <;> cases h
  rw [guarded_append hhead, guarded_append_of_not_mem (not_mem_blanks h),
    guarded_cons fun heq => absurd heq hc.2]

theorem not_mem_int (i : Int) : '<' ∉ (Text.signedDecimal i).toList := by
  rw [toList_signedDecimal, List.mem_append, not_or]
  refine ⟨fun hmem => absurd (mem_sign hmem) (by decide), fun hmem => ?_⟩
  exact absurd ((Text.isDigits_decimalDigits _).digits _ hmem) (by decide)

theorem not_mem_float {cs : List Char} {x : Binary64} (h : SpellsFloat cs x) : '<' ∉ cs := by
  intro hmem
  rcases h.mem hmem with h | h <;> revert h <;> decide

mutual

/-- Guarded data spell the same value. -/
theorem spells_guarded {cs : List Char} {v : Json} (h : Spells cs v) : Spells (guarded cs) v := by
  match h with
  | .null => exact .null
  | .true => exact .true
  | .false => exact .false
  | .int i =>
      rw [guarded_of_not_mem (not_mem_int i)]
      exact .int i
  | .float hx =>
      rw [guarded_of_not_mem (not_mem_float hx)]
      exact .float hx
  | .str hs => exact .str (spellsString_guarded hs)
  | .noItems hinside =>
      rw [List.cons_append, guarded_cons (by simp),
        guarded_append_of_not_mem (not_mem_blanks hinside)]
      exact .noItems hinside
  | .arr hstart hitems =>
      rw [List.cons_append, guarded_cons (by simp),
        guarded_append_of_not_mem (not_mem_blanks hstart)]
      exact .arr hstart (spellsItems_guarded hitems)
  | .noFields hinside =>
      rw [List.cons_append, guarded_cons (by simp),
        guarded_append_of_not_mem (not_mem_blanks hinside)]
      exact .noFields hinside
  | .obj hstart hentries =>
      rw [List.cons_append, guarded_cons (by simp),
        guarded_append_of_not_mem (not_mem_blanks hstart)]
      exact .obj hstart (spellsEntries_guarded hentries)

theorem spellsItems_guarded {cs : List Char} {vs : List Json} (h : SpellsItems cs vs) :
    SpellsItems (guarded cs) vs := by
  match h with
  | .last hv hbehind =>
      rw [List.append_assoc, guarded_append_blanks _ hbehind (by decide), ← List.append_assoc]
      exact .last (spells_guarded hv) hbehind
  | .more hv hbehind hbefore hmore =>
      have hspells := SpellsItems.more (spells_guarded hv) hbehind hbefore
        (spellsItems_guarded hmore)
      simp only [List.append_assoc, List.cons_append] at hspells ⊢
      rwa [guarded_append_blanks _ hbehind (by decide),
        guarded_append_of_not_mem (not_mem_blanks hbefore)]

theorem spellsEntries_guarded {cs : List Char} {fields : Fields} (h : SpellsEntries cs fields) :
    SpellsEntries (guarded cs) fields := by
  match h with
  | .last hname hbetween haround hv hbehind =>
      have hspells := SpellsEntries.last (spellsString_guarded hname) hbetween haround
        (spells_guarded hv) hbehind
      simp only [List.append_assoc, List.cons_append] at hspells ⊢
      rwa [guarded_append_blanks _ hbetween (by decide),
        guarded_append_of_not_mem (not_mem_blanks haround),
        guarded_append_blanks _ hbehind (by decide)]
  | .more hname hbetween haround hv hbehind hbefore hmore =>
      have hspells := SpellsEntries.more (spellsString_guarded hname) hbetween haround
        (spells_guarded hv) hbehind hbefore (spellsEntries_guarded hmore)
      simp only [List.append_assoc, List.cons_append] at hspells ⊢
      rwa [guarded_append_blanks _ hbetween (by decide),
        guarded_append_of_not_mem (not_mem_blanks haround),
        guarded_append_blanks _ hbehind (by decide),
        guarded_append_of_not_mem (not_mem_blanks hbefore)]

end

end Json

/-! ### The data of the index page -/

namespace Index

open Json.Reader (maxNesting)

/-- The script of the index page holds the data with no end of a script in them, and they are read
as the data file is, however that one is indented and however deep a reader allows them to be
nested. -/
theorem read_guardScript {docs : Docs} (hdocs : docs.IsStandard) :
    let data := Markup.guardScript docs.data.text
    Text.occurs "</" data = false ∧
    (∀ fuel room, data.length ≤ fuel → docs.data.text.length ≤ fuel →
      (Json.Reader.value fuel room data.toList : Except Json.Reader.Stop (Json × List Char)) =
        Json.Reader.value fuel room docs.data.text.toList) ∧
    (Json.read data : Except Json.Refusal Json) = Json.read docs.data.text ∧
    Json.read data =
      (if docs.data.depth ≤ maxNesting then .ok docs.data else .error .deepNesting) ∧
    (∀ indent : Json, indent = .null ∨ (∃ n, indent = .int n) →
      ∃ text, Bundle.dataText docs indent = .ok text ∧
        (Json.read text : Except Json.Refusal Json) = Json.read data) ∧
    ∀ pages page, render docs pages = .ok page →
      ∃ before, page = before ++ footer ++ data ++ closing := by
  intro data
  have hdata : docs.data.Standard := hdocs.sorted.toJson
  have hspells : Json.Spells docs.data.text.toList docs.data := by
    have h := Json.spells_value Json.isPlain_compact hdata 0
    rwa [Json.named_of_standard hdata, ← String.toList_ofList (l := Json.Writer.value _ _ _)] at h
  have hguarded : Json.Spells data.toList docs.data := by
    have h := Json.spells_guarded hspells
    rwa [← String.toList_ofList (l := Markup.guarded _)] at h
  have hread : ∀ {text : String}, Json.Spells text.toList docs.data → Json.read text =
      if docs.data.depth ≤ maxNesting then .ok docs.data else .error .deepNesting := by
    intro text h
    rw [← Json.accepted_of_standard hdata]
    refine Json.read_of_spells ?_ Json.blanks_nil h Json.blanks_nil
    simp
  have hvalue : ∀ {text : String}, Json.Spells text.toList docs.data → ∀ fuel room,
      text.length ≤ fuel → Json.Reader.value fuel room text.toList =
        (Json.accept room docs.data >>= fun v => .ok (v, [])) := by
    intro text h fuel room hfuel
    rw [← String.length_toList] at hfuel
    simpa using Json.value_of_spells h room hfuel (Json.ends_blanks Json.blanks_nil)
  refine ⟨?_, fun fuel room hlong hshort => ?_, ?_, hread hguarded, fun indent hindent => ?_,
    fun pages page hpage => ?_⟩
  · exact Markup.occurs_guardScript docs.data.text
  · rw [hvalue hguarded fuel room hlong, hvalue hspells fuel room hshort]
  · rw [hread hguarded, hread hspells]
  · obtain ⟨l, hplain, -, htext⟩ := Bundle.exists_dataText docs hindent
    refine ⟨_, htext, ?_⟩
    rw [Json.read_write hplain (hdata.mono fun _ => Json.TextNames.distinctTexts)
      (by simp [Json.Blanks, Json.IsBlank]), Json.named_of_standard hdata, hread hguarded]
  · obtain ⟨sections, -, rfl⟩ := render_eq_ok hpage
    refine ⟨Markup.render (.markup opening :: (placeholder docs ++ sections.flatten)), ?_⟩
    simp [Markup.render_append, Markup.render_cons, Markup.render_nil, Markup.pieceText, data,
      String.append_assoc]

/-- A text of the contracts would end the script. -/
theorem read_guardScript_sample :
    Bundle.unordered.IsStandard ∧
    Text.occurs "</" (Markup.guardScript Bundle.unordered.data.text) = false ∧
    Json.read (Markup.guardScript Bundle.unordered.data.text) = .ok Bundle.unordered.data := by
  obtain ⟨hsafe, -, -, hread, -⟩ := read_guardScript Bundle.isStandard_unordered
  exact ⟨Bundle.isStandard_unordered, hsafe,
    hread.trans (if_pos (Bundle.depth_unordered Bundle.unordered.sorted_perm))⟩

end Index

end NatSpec
