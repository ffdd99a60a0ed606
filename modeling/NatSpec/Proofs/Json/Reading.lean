import NatSpec.Proofs.Json.Scanning

/-!
Reading values. What a text spells is read back, however it is spelled: `accept` says what the
reader makes of a value, by its limits and by the rule for repeated names alone. The induction is
over the spelling, with any text behind the value at which a number is at an end.
-/

namespace NatSpec.Json

open Reader
open Text (IsWhole decimalDigits signedDecimal)

variable {τ : Type}

/-! ### What is accepted -/

section

variable [DecidableEq τ]

mutual

/-- What the reader makes of a spelled value: it refuses whole numbers that are too long, and arrays
and objects for which there is no room. -/
def accept : Nat → Json τ → Except Stop (Json τ)
  | _, .int i => acceptInt i
  | 0, .arr _ => .error .deepNesting
  | room + 1, .arr vs => do .ok (.arr (← acceptItems room vs))
  | 0, .obj _ => .error .deepNesting
  | room + 1, .obj fields => do .ok (.obj (Table.ofList (← acceptEntries room fields)))
  | _, .null => .ok .null
  | _, .bool b => .ok (.bool b)
  | _, .float x => .ok (.float x)
  | _, .str s => .ok (.str s)

def acceptItems (room : Nat) : List (Json τ) → Except Stop (List (Json τ))
  | [] => .ok []
  | v :: rest => do .ok ((← accept room v) :: (← acceptItems room rest))

def acceptEntries (room : Nat) : List (Key τ × Json τ) → Except Stop (List (Key τ × Json τ))
  | [] => .ok []
  | (k, v) :: rest => do .ok ((k, ← accept room v) :: (← acceptEntries room rest))

end

mutual

theorem accept_error {room : Nat} {v : Json τ} {e : Stop} (h : accept room v = .error e) :
    e = .longNumber ∨ e = .deepNesting := by
  match room, v with
  | _, .int i =>
      rw [accept, acceptInt] at h
      split at h <;> cases h
      exact .inl rfl
  | 0, .arr _ => cases h; exact .inr rfl
  | 0, .obj _ => cases h; exact .inr rfl
  | room + 1, .arr vs =>
      rw [accept] at h
      rcases bind_eq_error_iff.1 h with h | ⟨_, -, ⟨⟩⟩
      exact acceptItems_error h
  | room + 1, .obj fields =>
      rw [accept] at h
      rcases bind_eq_error_iff.1 h with h | ⟨_, -, ⟨⟩⟩
      exact acceptEntries_error h
  | _, .null | _, .bool _ | _, .float _ | _, .str _ => cases h

theorem acceptItems_error {room : Nat} {vs : List (Json τ)} {e : Stop}
    (h : acceptItems room vs = .error e) : e = .longNumber ∨ e = .deepNesting := by
  match vs with
  | [] => cases h
  | v :: rest =>
      rw [acceptItems] at h
      rcases bind_eq_error_iff.1 h with h | ⟨_, -, h⟩
      · exact accept_error h
      · rcases bind_eq_error_iff.1 h with h | ⟨_, -, ⟨⟩⟩
        exact acceptItems_error h

theorem acceptEntries_error {room : Nat} {fields : List (Key τ × Json τ)} {e : Stop}
    (h : acceptEntries room fields = .error e) : e = .longNumber ∨ e = .deepNesting := by
  match fields with
  | [] => cases h
  | (k, v) :: rest =>
      rw [acceptEntries] at h
      rcases bind_eq_error_iff.1 h with h | ⟨_, -, h⟩
      · exact accept_error h
      · rcases bind_eq_error_iff.1 h with h | ⟨_, -, ⟨⟩⟩
        exact acceptEntries_error h

end

end

/-! ### Blanks and starts -/

theorem skipSpace_blanks {blanks : List Char} (h : Blanks blanks) (rest : List Char) :
    skipSpace (blanks ++ rest) = skipSpace rest := by
  induction blanks with
  | nil => rfl
  | cons c blanks ih =>
      have hc : IsBlank c := h c List.mem_cons_self
      rw [List.cons_append, skipSpace]
      exact (if_pos hc).trans (ih fun d hd => h d (List.mem_cons_of_mem c hd))

theorem skipSpace_cons {c : Char} (h : ¬IsBlank c) (rest : List Char) :
    skipSpace (c :: rest) = c :: rest := by
  rw [skipSpace]
  exact if_neg h

theorem skipSpace_before {blanks : List Char} (h : Blanks blanks) {c : Char} (hc : ¬IsBlank c)
    (rest : List Char) : skipSpace (blanks ++ c :: rest) = c :: rest := by
  rw [skipSpace_blanks h, skipSpace_cons hc]

theorem ends_of_blank {c : Char} (h : IsBlank c ∨ c = ',' ∨ c = ']' ∨ c = '\x7d')
    (rest : List Char) : Ends (c :: rest) := by
  intro d hd
  obtain rfl := Option.some.inj hd
  rcases h with (rfl | rfl | rfl | rfl) | rfl | rfl | rfl <;> decide

theorem ends_before {blanks : List Char} (h : Blanks blanks) {c : Char}
    (hc : c = ',' ∨ c = ']' ∨ c = '\x7d') (rest : List Char) : Ends (blanks ++ c :: rest) := by
  cases blanks with
  | nil => exact ends_of_blank (.inr hc) rest
  | cons d blanks => exact ends_of_blank (.inl (h d List.mem_cons_self)) _

/-- How a value starts: with no blank, no end of an array or object and no byte order mark. -/
def Starts (cs : List Char) : Prop :=
  ∃ c rest, cs = c :: rest ∧ ¬IsBlank c ∧ c ≠ ']' ∧ c ≠ '\x7d' ∧ c ≠ '\uFEFF'

def StartsNumber (cs : List Char) : Prop :=
  ∃ c rest, cs = c :: rest ∧ (c.isDigit = true ∨ c = '-' ∨ c = 'N' ∨ c = 'I')

theorem StartsNumber.starts {cs : List Char} (h : StartsNumber cs) : Starts cs := by
  obtain ⟨c, rest, rfl, hc⟩ := h
  refine ⟨c, rest, rfl, ?_, ?_, ?_, ?_⟩
  · rintro (rfl | rfl | rfl | rfl) <;> simp at hc
  all_goals (rintro rfl; simp at hc)

theorem StartsNumber.append {cs : List Char} (h : StartsNumber cs) (rest : List Char) :
    StartsNumber (cs ++ rest) := by
  obtain ⟨c, more, rfl, hc⟩ := h
  exact ⟨c, more ++ rest, rfl, hc⟩

theorem startsNumber_whole {whole : List Char} (h : IsWhole whole) (negative : Bool) :
    StartsNumber (sign negative ++ whole) := by
  obtain ⟨d, more, rfl⟩ := List.exists_cons_of_ne_nil h.nonempty
  cases negative with
  | true => exact ⟨'-', _, rfl, .inr (.inl rfl)⟩
  | false => exact ⟨d, _, rfl, .inl (h.digits d List.mem_cons_self)⟩

theorem startsNumber_int (i : Int) : StartsNumber (signedDecimal i).toList := by
  rw [toList_signedDecimal]
  exact startsNumber_whole (Text.isWhole_decimalDigits _) _

theorem startsNumber_float {cs : List Char} {x : Binary64} (h : SpellsFloat cs x) :
    StartsNumber cs := by
  cases h with
  | nan => exact ⟨_, _, rfl, by simp⟩
  | infinity negative => cases negative <;> exact ⟨_, _, rfl, by simp⟩
  | finite negative hn =>
      rw [Scientific.chars, List.append_assoc, ← List.append_assoc]
      exact (startsNumber_whole hn.whole negative).append _

variable [IsText τ]

theorem starts_of_spells {cs : List Char} {v : Json τ} (h : Spells cs v) : Starts cs := by
  cases h with
  | int i => exact (startsNumber_int i).starts
  | float hx => exact (startsNumber_float hx).starts
  | str hs =>
      cases hs with
      | quoted => exact ⟨_, _, rfl, by simp [IsBlank]⟩
  | _ => exact ⟨_, _, rfl, by simp [IsBlank]⟩

theorem starts_append {cs : List Char} (h : Starts cs) (rest : List Char) :
    Starts (cs ++ rest) := by
  obtain ⟨c, more, rfl, hc⟩ := h
  exact ⟨c, more ++ rest, rfl, hc⟩

theorem skipSpace_starts {cs : List Char} (h : Starts cs) {blanks : List Char}
    (hblanks : Blanks blanks) : skipSpace (blanks ++ cs) = cs := by
  obtain ⟨c, rest, rfl, hc, -⟩ := h
  exact skipSpace_before hblanks hc rest

theorem starts_of_spellsItems {cs : List Char} {vs : List (Json τ)} (h : SpellsItems cs vs) :
    Starts cs := by
  cases h with
  | last hv _ =>
      rw [List.append_assoc]
      exact starts_append (starts_of_spells hv) _
  | more hv _ _ _ =>
      rw [List.append_assoc, List.append_assoc]
      exact starts_append (starts_of_spells hv) _

theorem exists_quote_of_spellsEntries {cs : List Char} {fields : Fields τ}
    (h : SpellsEntries cs fields) : ∃ rest, cs = '\x22' :: rest := by
  cases h with
  | last hname => cases hname; exact ⟨_, rfl⟩
  | more hname => cases hname; exact ⟨_, rfl⟩

/-! ### Values -/

variable [DecidableEq τ]

theorem value_number {cs : List Char} (h : StartsNumber cs) (fuel room : Nat) :
    value (fuel + 1) room cs = (scalar cs : Except Stop (Json τ × List Char)) := by
  obtain ⟨c, rest, rfl, hc⟩ := h
  have hne : c ≠ '\x22' ∧ c ≠ '[' ∧ c ≠ '\x7b' := by
    refine ⟨?_, ?_, ?_⟩ <;> (rintro rfl; simp at hc)
  rw [value]
  all_goals simp [hne]

theorem value_string {text : List Char} {s : τ} (h : SpellsText text (IsText.units s))
    (fuel room : Nat) (rest : List Char) :
    value (fuel + 1) room ('\x22' :: text ++ ['\x22'] ++ rest) = .ok (.str s, rest) := by
  have hread := stringBody_of_spells h
  simp [value, hread, ok_bind, IsText.ofUnits_units]

theorem value_arr {start inside : List Char} (hstart : Blanks start) (hinside : Starts inside)
    (fuel room : Nat) :
    value (fuel + 1) (room + 1) ('[' :: (start ++ inside)) = (do
      let (vs, after) ← items fuel room inside
      .ok ((.arr vs : Json τ), after)) := by
  have hskip := skipSpace_starts hinside hstart
  obtain ⟨c, more, rfl, -, hclose, -⟩ := hinside
  rw [value, hskip]
  simp [hclose]

theorem value_obj {start inside : List Char} (hstart : Blanks start)
    (hinside : ∃ rest, inside = '\x22' :: rest) (fuel room : Nat) :
    value (fuel + 1) (room + 1) ('\x7b' :: (start ++ inside)) = (do
      let (fields, after) ← entries fuel room inside
      .ok ((.obj (Table.ofList fields) : Json τ), after)) := by
  obtain ⟨more, rfl⟩ := hinside
  have hquote : ¬IsBlank '\x22' := by simp [IsBlank]
  rw [value, skipSpace_before hstart hquote]
  simp

theorem not_isBlank_bracket : ¬IsBlank ']' := by
  simp [IsBlank]

theorem not_isBlank_brace : ¬IsBlank '\x7d' := by
  simp [IsBlank]

theorem not_isBlank_comma : ¬IsBlank ',' := by
  simp [IsBlank]

theorem entries_named {name between around inside : List Char} {key : τ}
    (hname : SpellsString name key) (hbetween : Blanks between) (haround : Blanks around)
    (hinside : Starts inside) (fuel room : Nat) :
    entries (fuel + 1) room (name ++ (between ++ ':' :: (around ++ inside))) = (do
      let (v, rest) ← value fuel room inside
      match skipSpace rest with
      | '\x7d' :: after => .ok ([(.text key, v)], after)
      | ',' :: more => do
        let (others, after) ← entries fuel room (skipSpace more)
        .ok ((.text key, v) :: others, after)
      | other => .error (.complaint .expectingComma other)) := by
  cases hname with
  | @quoted text s htext =>
      have hcolon : ¬IsBlank ':' := by simp [IsBlank]
      rw [List.cons_append, List.cons_append, entries, List.append_assoc, List.singleton_append,
        stringBody_of_spells htext]
      simp only [ok_bind, skipSpace_before hbetween hcolon, skipSpace_starts hinside haround]
      generalize hfound : (IsText.ofUnits (IsText.units key) : τ) = found
      obtain rfl : found = key := hfound.symm.trans (IsText.ofUnits_units key)
      rfl

mutual

/-- A spelled value is read as what the reader accepts of it. -/
theorem value_of_spells {cs : List Char} {v : Json τ} (h : Spells cs v) {fuel : Nat} (room : Nat)
    (hfuel : cs.length ≤ fuel) {rest : List Char} (hrest : Ends rest) :
    value fuel room (cs ++ rest) = (do
      let v ← accept room v
      .ok (v, rest)) := by
  obtain ⟨fuel, rfl⟩ : ∃ n, fuel = n + 1 := by
    obtain ⟨c, more, rfl, -⟩ := starts_of_spells h
    exact Nat.exists_eq_succ_of_ne_zero (by simp at hfuel; omega)
  match h with
  | .null => rfl
  | .true => rfl
  | .false => rfl
  | .int i =>
      rw [value_number ((startsNumber_int i).append rest), scalar_int i hrest, accept]
  | .float hx =>
      rw [value_number ((startsNumber_float hx).append rest), scalar_float hx hrest, accept]
      rfl
  | .str hs =>
      cases hs with
      | quoted htext => exact value_string htext fuel room rest
  | .noItems hinside =>
      cases room with
      | zero => rfl
      | succ room =>
          simp only [List.cons_append, List.append_assoc, List.nil_append]
          rw [value, skipSpace_before hinside not_isBlank_bracket]
          rfl
  | .noFields hinside =>
      cases room with
      | zero => rfl
      | succ room =>
          simp only [List.cons_append, List.append_assoc, List.nil_append]
          rw [value, skipSpace_before hinside not_isBlank_brace]
          rfl
  | .arr hstart hitems =>
      cases room with
      | zero => rfl
      | succ room =>
          simp only [List.length_cons, List.length_append] at hfuel
          rw [List.cons_append, List.cons_append, List.append_assoc,
            value_arr hstart (starts_append (starts_of_spellsItems hitems) rest),
            items_of_spells hitems room (by omega) rest]
          simp only [accept, bind_assoc, ok_bind]
  | .obj hstart hentries =>
      cases room with
      | zero => rfl
      | succ room =>
          simp only [List.length_cons, List.length_append] at hfuel
          obtain ⟨more, hquote⟩ := exists_quote_of_spellsEntries hentries
          rw [List.cons_append, List.cons_append, List.append_assoc,
            value_obj hstart ⟨more ++ rest, by rw [hquote]; rfl⟩,
            entries_of_spells hentries room (by omega) rest]
          simp only [accept, bind_assoc, ok_bind]

theorem items_of_spells {cs : List Char} {vs : List (Json τ)} (h : SpellsItems cs vs) {fuel : Nat}
    (room : Nat) (hfuel : cs.length ≤ fuel) (rest : List Char) :
    items fuel room (cs ++ rest) = (do
      let vs ← acceptItems room vs
      .ok (vs, rest)) := by
  match h with
  | @SpellsItems.last _ _ cs behind v hv hbehind =>
      simp only [List.length_append, List.length_singleton] at hfuel
      obtain ⟨fuel, rfl⟩ : ∃ n, fuel = n + 1 := Nat.exists_eq_succ_of_ne_zero (by omega)
      have hends : Ends (behind ++ ']' :: rest) := ends_before hbehind (by simp) rest
      simp only [List.append_assoc, List.singleton_append]
      rw [items, value_of_spells hv room (by omega) hends]
      simp only [acceptItems, bind_assoc, ok_bind, skipSpace_before hbehind not_isBlank_bracket]
  | @SpellsItems.more _ _ cs behind before more v vs hv hbehind hbefore hmore =>
      simp only [List.length_append, List.length_cons] at hfuel
      obtain ⟨fuel, rfl⟩ : ∃ n, fuel = n + 1 := Nat.exists_eq_succ_of_ne_zero (by omega)
      have hends : Ends (behind ++ ',' :: (before ++ (more ++ rest))) :=
        ends_before hbehind (by simp) _
      have hskip : skipSpace (before ++ (more ++ rest)) = more ++ rest :=
        skipSpace_starts (starts_append (starts_of_spellsItems hmore) rest) hbefore
      simp only [List.append_assoc, List.cons_append]
      rw [items, value_of_spells hv room (by omega) hends]
      simp only [acceptItems, bind_assoc, ok_bind, skipSpace_before hbehind not_isBlank_comma,
        hskip, items_of_spells hmore room (by omega : more.length ≤ fuel) rest]

theorem entries_of_spells {cs : List Char} {fields : Fields τ} (h : SpellsEntries cs fields)
    {fuel : Nat} (room : Nat) (hfuel : cs.length ≤ fuel) (rest : List Char) :
    entries fuel room (cs ++ rest) = (do
      let fields ← acceptEntries room fields
      .ok (fields, rest)) := by
  match h with
  | @SpellsEntries.last _ _ name between around cs behind key v hname hbetween haround hv hbehind =>
      simp only [List.length_append, List.length_cons] at hfuel
      obtain ⟨fuel, rfl⟩ : ∃ n, fuel = n + 1 := Nat.exists_eq_succ_of_ne_zero (by omega)
      have hends : Ends (behind ++ '}' :: rest) := ends_before hbehind (by simp) rest
      have hstarts := starts_append (starts_of_spells hv) (behind ++ '}' :: rest)
      simp only [List.append_assoc, List.cons_append, List.nil_append]
      rw [entries_named hname hbetween haround hstarts, value_of_spells hv room (by omega) hends]
      simp only [acceptEntries, bind_assoc, ok_bind, skipSpace_before hbehind not_isBlank_brace]
  | @SpellsEntries.more _ _ name between around cs behind before more key v fields hname hbetween
      haround hv hbehind hbefore hmore =>
      simp only [List.length_append, List.length_cons] at hfuel
      obtain ⟨fuel, rfl⟩ : ∃ n, fuel = n + 1 := Nat.exists_eq_succ_of_ne_zero (by omega)
      have hends : Ends (behind ++ ',' :: (before ++ (more ++ rest))) :=
        ends_before hbehind (by simp) _
      have hstarts := starts_append (starts_of_spells hv)
        (behind ++ ',' :: (before ++ (more ++ rest)))
      have hskip : skipSpace (before ++ (more ++ rest)) = more ++ rest := by
        obtain ⟨inside, hquote⟩ := exists_quote_of_spellsEntries hmore
        rw [hquote, List.cons_append]
        exact skipSpace_before hbefore (by simp [IsBlank]) _
      simp only [List.append_assoc, List.cons_append]
      rw [entries_named hname hbetween haround hstarts, value_of_spells hv room (by omega) hends]
      simp only [acceptEntries, bind_assoc, ok_bind, skipSpace_before hbehind not_isBlank_comma,
        hskip, entries_of_spells hmore room (by omega : more.length ≤ fuel) rest]

end

/-! ### Texts -/

theorem ends_blanks {blanks : List Char} (h : Blanks blanks) : Ends blanks := by
  cases blanks with
  | nil => simp [Ends]
  | cons c blanks => exact ends_of_blank (.inl (h c List.mem_cons_self)) blanks

theorem document_of_spells {before cs behind : List Char} {v : Json τ} (hbefore : Blanks before)
    (h : Spells cs v) (hbehind : Blanks behind) :
    document (before ++ (cs ++ behind)) = accept maxNesting v := by
  have hstarts := starts_append (starts_of_spells h) behind
  have hskip : skipSpace (before ++ (cs ++ behind)) = cs ++ behind :=
    skipSpace_starts hstarts hbefore
  have hnothing : skipSpace behind = [] := by
    have := skipSpace_blanks hbehind []
    rwa [List.append_nil] at this
  have hmark : ∀ rest, before ++ (cs ++ behind) ≠ '\uFEFF' :: rest := by
    intro rest heq
    cases before with
    | nil =>
        obtain ⟨c, more, hcs, -, -, -, hc⟩ := hstarts
        rw [List.nil_append, hcs] at heq
        exact hc (List.cons.inj heq).1
    | cons c before =>
        have hc := hbefore c List.mem_cons_self
        rw [(List.cons.inj heq).1] at hc
        simp [IsBlank] at hc
  rw [document]
  · rw [hskip, value_of_spells h maxNesting (by simp; omega) (ends_blanks hbehind)]
    cases accept maxNesting v with
    | error e => rfl
    | ok v => simp only [ok_bind, hnothing]
  · exact hmark

/-- What reading makes of a text that spells a value. -/
def accepted (v : Json τ) : Except Refusal (Json τ) :=
  match accept maxNesting v with
  | .ok v => .ok v
  | .error .longNumber => .error .longNumber
  | .error _ => .error .deepNesting

/-- A text that spells a value, with blanks around it, is read as what the reader accepts of the
value, however it is spelled. -/
theorem read_of_spells {text : String} {before cs behind : List Char} {v : Json τ}
    (htext : text.toList = before ++ (cs ++ behind)) (hbefore : Blanks before) (h : Spells cs v)
    (hbehind : Blanks behind) : read text = accepted v := by
  have hread := document_of_spells hbefore h hbehind
  rw [← htext] at hread
  rw [read, accepted, hread]
  cases haccept : accept maxNesting v with
  | ok v => rfl
  | error e => rcases accept_error haccept with rfl | rfl <;> rfl

end NatSpec.Json
