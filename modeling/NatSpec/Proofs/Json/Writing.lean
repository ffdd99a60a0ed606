import NatSpec.Proofs.Json.Floats
import NatSpec.Proofs.Json.Valid

/-!
What is written spells the value, in every layout that separates the parts of a value by no more
than blanks around its commas and colons. The names of fields become texts.
-/

namespace NatSpec.Json

open Writer (unitEscape stringUnit keyText)

variable {τ : Type} [IsText τ]

/-! ### Strings -/

theorem spellsUnits_unitEscape (u : UInt16) : SpellsUnits (unitEscape u.toNat) [u] := by
  have hread := Text.hexNumber?_hexDigits 4 u.toNat
  rw [Nat.mod_eq_of_lt (by have := u.toNat_lt; omega)] at hread
  have hspells := SpellsUnits.number hread
  rwa [UInt16.ofNat_toNat] at hspells

/-- A character that is no replacement for half a pair has the unit that it is read from. -/
theorem charUnits_of_character {u : UInt16} {c : Char} (h : Text.character u.toNat = c)
    (hc : c ≠ Text.replacement) : Text.charUnits c = [u] := by
  have hunit := u.toNat_lt
  unfold Text.character at h
  split at h
  · exact absurd h.symm hc
  · rename_i hwhole
    have hvalid : u.toNat.isValidChar := by
      rw [Nat.isValidChar]
      omega
    have hnumber : c.toNat = u.toNat := by
      rw [← h, Char.ofNat, dif_pos hvalid]
      rfl
    rw [Text.charUnits, if_pos (by omega), hnumber, UInt16.ofNat_toNat]

theorem spellsUnits_stringUnit (u : UInt16) : SpellsUnits (stringUnit u) [u] := by
  have hshort {e c : Char} (hc : Text.character u.toNat = c) (hne : c ≠ Text.replacement)
      (he : Reader.shortEscape? e = some c) : SpellsUnits ['\\', e] [u] := by
    have hspells := SpellsUnits.short he
    rwa [charUnits_of_character hc hne] at hspells
  unfold stringUnit
  dsimp only
  split_ifs with hquote hescape hline hreturn htab hfeed hback hplain
  · exact hshort hquote (by decide) rfl
  · exact hshort hescape (by decide) rfl
  · exact hshort hline (by decide) rfl
  · exact hshort hreturn (by decide) rfl
  · exact hshort htab (by decide) rfl
  · exact hshort hfeed (by decide) rfl
  · exact hshort hback (by decide) rfl
  · have hne : Text.character u.toNat ≠ Text.replacement := by
      intro heq
      rw [heq] at hplain
      exact absurd hplain.2 (by decide)
    have hspells := SpellsUnits.plain hquote hescape hplain.1
    rwa [charUnits_of_character rfl hne] at hspells
  · exact spellsUnits_unitEscape u

theorem spellsText_flatMap (units : List UInt16) : SpellsText (units.flatMap stringUnit) units := by
  induction units with
  | nil => exact .nil
  | cons u units ih => exact .cons (spellsUnits_stringUnit u) ih

theorem spellsString_string (s : τ) : SpellsString (Writer.string s) s :=
  .quoted (spellsText_flatMap (IsText.units s))

/-! ### Values -/

mutual

/-- A value whose names are texts: what is left of a value when it is written. -/
def named : Json τ → Json τ
  | .arr vs => .arr (namedItems vs)
  | .obj fields => .obj (namedFields fields)
  | .null => .null
  | .bool b => .bool b
  | .int i => .int i
  | .float x => .float x
  | .str s => .str s

def namedItems : List (Json τ) → List (Json τ)
  | [] => []
  | v :: rest => named v :: namedItems rest

def namedFields : List (Key τ × Json τ) → List (Key τ × Json τ)
  | [] => []
  | (k, v) :: rest => (.text (keyText k), named v) :: namedFields rest

end

/-- A layout that puts blanks only around its commas and colons. -/
structure Layout.IsPlain (l : Layout) : Prop where
  items : ∃ blanks, l.betweenItems = ',' :: blanks ∧ Blanks blanks
  name : ∃ blanks, l.afterName = ':' :: blanks ∧ Blanks blanks
  indent : ∀ unit, l.indent = some unit → Blanks unit

theorem blanks_append {cs ds : List Char} (hcs : Blanks cs) (hds : Blanks ds) :
    Blanks (cs ++ ds) := by
  intro c hc
  exact (List.mem_append.1 hc).elim (hcs c) (hds c)

theorem Layout.IsPlain.lineStart {l : Layout} (h : l.IsPlain) (level : Nat) :
    Blanks (l.lineStart level) := by
  unfold Layout.lineStart
  cases hindent : l.indent with
  | none => exact nofun
  | some unit =>
      intro c hc
      rcases List.mem_cons.1 hc with rfl | hc
      · simp [IsBlank]
      · obtain ⟨part, hpart, hmem⟩ := List.mem_flatten.1 hc
        rw [List.eq_of_mem_replicate hpart] at hmem
        exact h.indent unit hindent c hmem

theorem blanks_nil : Blanks [] := by
  simp [Blanks]

theorem spells_items {l : Layout} (hl : l.IsPlain) (level : Nat) {item : Json τ} {rest : List (Json τ)}
    (h : ∀ v ∈ item :: rest, Spells (Writer.value l (level + 1) v) v.named) :
    SpellsItems (Writer.value l (level + 1) item ++ Writer.items l (level + 1) rest ++
      l.lineStart level ++ [']']) (namedItems (item :: rest)) := by
  have hitem := h item List.mem_cons_self
  induction rest generalizing item with
  | nil =>
      rw [Writer.items, List.append_nil]
      exact .last hitem (hl.lineStart level)
  | cons next rest ih =>
      obtain ⟨blanks, hbetween, hblanks⟩ := hl.items
      have hmore := ih (fun v hv => h v (List.mem_cons_of_mem item hv))
        (h next (List.mem_cons_of_mem item List.mem_cons_self))
      have hspells := SpellsItems.more hitem blanks_nil
        (blanks_append hblanks (hl.lineStart (level + 1))) hmore
      simpa only [Writer.items, hbetween, namedItems, List.append_assoc, List.cons_append,
        List.nil_append] using hspells

theorem spells_entries {l : Layout} (hl : l.IsPlain) (level : Nat) {entry : Key τ × Json τ}
    {rest : List (Key τ × Json τ)}
    (h : ∀ e ∈ entry :: rest, Spells (Writer.value l (level + 1) e.2) e.2.named) :
    SpellsEntries (Writer.key entry.1 ++ l.afterName ++ Writer.value l (level + 1) entry.2 ++
      Writer.entries l (level + 1) rest ++ l.lineStart level ++ ['\x7d'])
      (namedFields (entry :: rest)) := by
  have hvalue := h entry List.mem_cons_self
  have hname := spellsString_string (keyText entry.1)
  obtain ⟨around, hafter, haround⟩ := hl.name
  induction rest generalizing entry with
  | nil =>
      have hspells := SpellsEntries.last hname blanks_nil haround hvalue (hl.lineStart level)
      simpa only [Writer.entries, Writer.key, hafter, namedFields, List.append_assoc,
        List.cons_append, List.nil_append, List.append_nil] using hspells
  | cons next rest ih =>
      obtain ⟨blanks, hbetween, hblanks⟩ := hl.items
      have hmore := ih (fun e he => h e (List.mem_cons_of_mem entry he))
        (h next (List.mem_cons_of_mem entry List.mem_cons_self)) (spellsString_string _)
      have hspells := SpellsEntries.more hname blanks_nil haround hvalue blanks_nil
        (blanks_append hblanks (hl.lineStart (level + 1))) hmore
      simpa only [Writer.entries, Writer.key, hbetween, hafter, namedFields, List.append_assoc,
        List.cons_append, List.nil_append] using hspells

/-- A written value spells the value with its names as texts. -/
theorem spells_value {l : Layout} (hl : l.IsPlain) {P : List (Key τ) → Prop} {v : Json τ}
    (h : Valid P v) (level : Nat) : Spells (Writer.value l level v) v.named := by
  induction h generalizing level with
  | null => exact .null
  | bool b =>
      cases b with
      | true => exact .true
      | false => exact .false
  | int _ => exact .int _
  | float hx => exact .float (spellsFloat_float hx)
  | str s => exact .str (spellsString_string s)
  | @arr vs _ ih =>
      cases vs with
      | nil => exact .noItems blanks_nil
      | cons item rest =>
          have hspells := Spells.arr (hl.lineStart (level + 1))
            (spells_items hl level fun v hv => ih v hv (level + 1))
          simpa only [Writer.value, named, List.append_assoc, List.cons_append] using hspells
  | @obj fields _ _ ih =>
      cases fields with
      | nil => exact .noFields blanks_nil
      | cons entry rest =>
          have hspells := Spells.obj (hl.lineStart (level + 1))
            (spells_entries hl level fun e he => ih e he (level + 1))
          simpa only [Writer.value, named, List.append_assoc, List.cons_append] using hspells

/-! ### Layouts -/

theorem isPlain_compact : Layout.compact.IsPlain where
  items := ⟨[' '], rfl, by simp [Blanks, IsBlank]⟩
  name := ⟨[' '], rfl, by simp [Blanks, IsBlank]⟩
  indent := nofun

theorem isPlain_tight : Layout.tight.IsPlain where
  items := ⟨[], rfl, blanks_nil⟩
  name := ⟨[], rfl, blanks_nil⟩
  indent := nofun

theorem isPlain_spaces (n : Int) : (Layout.spaces n).IsPlain where
  items := ⟨[], rfl, blanks_nil⟩
  name := ⟨[' '], rfl, by simp [Blanks, IsBlank]⟩
  indent := by
    intro unit hunit c hc
    obtain rfl := Option.some.inj hunit
    exact .inl (List.eq_of_mem_replicate hc)

section

variable [DecidableEq τ]

/-- Reading what was written, with blanks behind it, gives what the reader accepts of the value. -/
theorem read_append_of_value {l : Layout} (hl : l.IsPlain) {P : List (Key τ) → Prop} {v : Json τ}
    (h : Valid P v) {behind : String} (hbehind : Blanks behind.toList) :
    read (v.write l ++ behind) = accepted v.named := by
  refine read_of_spells ?_ blanks_nil (spells_value hl h 0) hbehind
  rw [String.toList_append, write, String.toList_ofList, List.nil_append]

end

/-! ### Names -/

theorem namedItems_eq (vs : List (Json τ)) : namedItems vs = vs.map named := by
  induction vs with
  | nil => rfl
  | cons v vs ih => rw [namedItems, ih, List.map_cons]

theorem namedFields_eq (fields : Fields τ) :
    namedFields fields = fields.map fun e => (.text (keyText e.1), e.2.named) := by
  induction fields with
  | nil => rfl
  | cons e fields ih => rw [namedFields, ih, List.map_cons]

theorem keys_namedFields (fields : Fields τ) :
    Table.keys (namedFields fields) = (Table.keys fields).map fun k => .text (keyText k) := by
  simp [namedFields_eq, Table.keys]

/-- Names whose texts stand once. -/
def DistinctTexts (keys : List (Key τ)) : Prop :=
  (keys.map keyText).Nodup

theorem TextNames.distinctTexts {keys : List (Key τ)} (h : TextNames keys) : DistinctTexts keys := by
  obtain ⟨names, hnames, rfl⟩ := h
  rw [DistinctTexts, List.map_map]
  exact hnames.map fun _ _ heq => heq

theorem standard_named {v : Json τ} (h : Valid DistinctTexts v) : v.named.Standard := by
  induction h with
  | null => exact .null
  | bool b => exact .bool b
  | int hi => exact .int hi
  | float hx => exact .float hx
  | str s => exact .str s
  | arr _ ih =>
      rw [named, namedItems_eq]
      exact .arr (List.forall_mem_map.2 ih)
  | @obj fields hkeys _ ih =>
      refine .obj ⟨(Table.keys fields).map keyText, hkeys, ?_⟩ ?_
      · rw [keys_namedFields, List.map_map]
        rfl
      · rw [namedFields_eq]
        exact List.forall_mem_map.2 ih

theorem named_of_standard {v : Json τ} (h : v.Standard) : v.named = v := by
  induction h with
  | null | bool _ | int _ | float _ | str _ => rfl
  | arr _ ih => rw [named, namedItems_eq, List.map_congr_left ih, List.map_id']
  | @obj fields hkeys _ ih =>
      obtain ⟨names, -, hnames⟩ := hkeys
      have hsame : ∀ e ∈ fields, (Key.text (keyText e.1), e.2.named) = e := by
        intro e he
        have hmem : e.1 ∈ Table.keys fields := Table.mem_keys_of_mem he
        rw [hnames] at hmem
        obtain ⟨name, -, hname⟩ := List.mem_map.1 hmem
        rw [ih e he, ← hname, keyText, hname]
      rw [named, namedFields_eq, List.map_congr_left hsame, List.map_id']

mutual

theorem depth_named (v : Json τ) : v.named.depth = v.depth := by
  match v with
  | .arr vs => rw [named, depth, depth, depthItems_named vs]
  | .obj fields => rw [named, depth, depth, depthFields_named fields]
  | .null | .bool _ | .int _ | .float _ | .str _ => rfl

theorem depthItems_named (vs : List (Json τ)) : depthItems (namedItems vs) = depthItems vs := by
  match vs with
  | [] => rfl
  | v :: rest => rw [namedItems, depthItems, depthItems, depth_named v, depthItems_named rest]

theorem depthFields_named (fields : List (Key τ × Json τ)) :
    depthFields (namedFields fields) = depthFields fields := by
  match fields with
  | [] => rfl
  | (_, v) :: rest =>
      rw [namedFields, depthFields, depthFields, depth_named v, depthFields_named rest]

end

variable [DecidableEq τ]

/-- With any allowance for its depth a written value is read as itself with its names as texts, or
refused. -/
theorem value_write {l : Layout} (hl : l.IsPlain) {v : Json τ} (h : Valid DistinctTexts v)
    {behind : String} (hbehind : Blanks behind.toList) {fuel : Nat} (room : Nat)
    (hfuel : (v.write l ++ behind).length ≤ fuel) :
    Reader.value fuel room (v.write l ++ behind).toList =
      if v.depth ≤ room then .ok (v.named, behind.toList) else .error .deepNesting := by
  rw [← String.length_toList] at hfuel
  simp only [String.toList_append, List.length_append, write, String.toList_ofList] at hfuel ⊢
  rw [value_of_spells (spells_value hl h 0) room (by omega) (ends_blanks hbehind),
    accept_of_standard (standard_named h), depth_named]
  split <;> rfl

/-- The reader's own allowance is one of them. -/
theorem read_write {l : Layout} (hl : l.IsPlain) {v : Json τ} (h : Valid DistinctTexts v)
    {behind : String} (hbehind : Blanks behind.toList) :
    read (v.write l ++ behind) =
      if v.depth ≤ Reader.maxNesting then .ok v.named else .error .deepNesting := by
  rw [read_append_of_value hl h hbehind, accepted_of_standard (standard_named h), depth_named]

end NatSpec.Json
