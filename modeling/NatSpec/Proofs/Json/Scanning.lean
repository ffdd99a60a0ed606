import NatSpec.Proofs.Except
import NatSpec.Proofs.Json.Spelling

/-!
Reading strings and numbers. A spelled string is read as its characters. A spelled number is read as
itself if nothing follows that could be a part of it; a whole number may be too long to be read.
-/

namespace NatSpec.Json

open Reader
open Text (IsDigits IsWhole hexNumber? decimalNumber decimalDigits signedDecimal)

/-! ### Strings -/

/-- Some units are read off a string. An escape by number needs a character behind it. -/
theorem stringBody_step {cs : List Char} {us : List UInt16} (h : SpellsUnits cs us)
    (opened : List Char) (next : Char) (rest : List Char) :
    stringBody opened (cs ++ next :: rest) = (do
      let (found, after) ← stringBody opened (next :: rest)
      .ok (us ++ found, after)) := by
  cases h with
  | @plain c hquote hescape hcontrol =>
      have hnot : ¬c.toNat < 0x20 := by omega
      rw [List.singleton_append, stringBody, if_neg hnot]
      all_goals simp [hquote, hescape]
  | @short e c hshort =>
      have hu : e ≠ 'u' := by
        rintro rfl
        cases hshort
      rw [List.cons_append, List.singleton_append, stringBody, hshort]
      all_goals simp [hu]
  | number hnumber =>
      simp only [List.cons_append, List.nil_append]
      rw [stringBody, hnumber]

theorem stringBody_of_spells {text : List Char} {units : List UInt16} (h : SpellsText text units)
    (opened rest : List Char) :
    stringBody opened (text ++ '\x22' :: rest) = .ok (units, rest) := by
  induction h with
  | nil => rw [List.nil_append, stringBody]
  | @cons cs text us units hunits _ ih =>
      obtain ⟨next, after, hnext⟩ : ∃ next after, text ++ '\x22' :: rest = next :: after := by
        cases text <;> simp
      rw [List.append_assoc, hnext, stringBody_step hunits, ← hnext, ih]
      rfl

/-! ### Numbers -/

/-- What follows a value, so that the value is at an end there. -/
def Ends (rest : List Char) : Prop :=
  ∀ c, rest.head? = some c → c.isDigit = false ∧ c ≠ '.' ∧ c ≠ 'e' ∧ c ≠ 'E'

theorem digits_append {ds rest : List Char} (hdigits : ∀ d ∈ ds, d.isDigit = true)
    (hrest : ∀ c, rest.head? = some c → c.isDigit = false) : digits (ds ++ rest) = (ds, rest) := by
  have hnone : rest.takeWhile Char.isDigit = [] ∧ rest.dropWhile Char.isDigit = rest := by
    cases rest with
    | nil => simp
    | cons c rest => simp [hrest c rfl]
  rw [digits, List.takeWhile_append_of_pos hdigits, List.dropWhile_append_of_pos hdigits, hnone.1,
    hnone.2, List.append_nil]

theorem fraction_none {rest : List Char} (h : ∀ c, rest.head? = some c → c ≠ '.') :
    fraction rest = ([], rest) := by
  cases rest with
  | nil => rfl
  | cons c rest =>
      have hne : c ≠ '.' := h c rfl
      rw [fraction]
      simp [hne]

theorem fraction_point {ds rest : List Char} (hdigits : ∀ d ∈ ds, d.isDigit = true)
    (hrest : ∀ c, rest.head? = some c → c.isDigit = false ∧ c ≠ '.') :
    fraction (Scientific.point ds ++ rest) = (ds, rest) := by
  cases ds with
  | nil => exact fraction_none fun c hc => (hrest c hc).2
  | cons d ds =>
      rw [Scientific.point, List.cons_append, fraction,
        digits_append hdigits fun c hc => (hrest c hc).1]
      simp

/-- The power of ten that is read. -/
def Scientific.shownPower (n : Scientific) : Option Int :=
  n.power.map fun p => if p.1 then -(decimalNumber p.2 : Int) else decimalNumber p.2

theorem power_tail {n : Scientific} (h : n.WellFormed) {rest : List Char} (hrest : Ends rest) :
    power (Scientific.tail n.power ++ rest) = (n.shownPower, rest) := by
  cases hpower : n.power with
  | none =>
      cases rest with
      | nil => simp [Scientific.tail, Scientific.shownPower, power, hpower]
      | cons c rest =>
          obtain ⟨-, -, he, hE⟩ := hrest c rfl
          simp [Scientific.tail, Scientific.shownPower, power, hpower, he, hE]
  | some p =>
      obtain ⟨negative, ds⟩ := p
      have hds := h.power _ hpower
      obtain ⟨d, more, rfl⟩ := List.exists_cons_of_ne_nil hds.nonempty
      have hread := digits_append hds.digits fun c hc => (hrest c hc).1
      rw [List.cons_append] at hread
      cases negative with
      | true => simp [Scientific.tail, Scientific.shownPower, power, hpower, hread]
      | false => simp [Scientific.tail, Scientific.shownPower, power, hpower, hread]

theorem Scientific.tail_head (n : Scientific) {rest : List Char}
    (hrest : Ends rest) (c : Char) (hc : (tail n.power ++ rest).head? = some c) :
    c.isDigit = false ∧ c ≠ '.' := by
  cases hpower : n.power with
  | none =>
      rw [hpower] at hc
      exact ⟨(hrest c hc).1, (hrest c hc).2.1⟩
  | some p =>
      rw [hpower] at hc
      obtain rfl := Option.some.inj hc
      decide

variable {τ : Type}

theorem numberFrom_scientific {n : Scientific} (h : n.WellFormed) (negative : Bool)
    {rest : List Char} (hrest : Ends rest) :
    numberFrom negative n.whole (Scientific.point n.decimals ++ (Scientific.tail n.power ++ rest)) =
      .ok ((.float (n.value negative) : Json τ), rest) := by
  have hmarked : ¬(n.decimals = [] ∧ n.shownPower = none) := by
    rintro ⟨hdecimals, hpower⟩
    rcases h.marked with hne | hne
    · exact hne hdecimals
    · exact hne (Option.map_eq_none_iff.1 hpower)
  have hexponent : n.shownPower.getD 0 - n.decimals.length = n.exponent := by
    unfold Scientific.shownPower Scientific.exponent
    cases n.power with
    | none => rfl
    | some p =>
        obtain ⟨negative, ds⟩ := p
        cases negative <;> rfl
  simp only [numberFrom, fraction_point h.decimals (n.tail_head hrest), power_tail h hrest]
  rw [if_neg hmarked, hexponent]
  rfl

theorem numberFrom_whole (negative : Bool) (whole : List Char) {rest : List Char}
    (hrest : Ends rest) :
    numberFrom negative whole rest =
      if maxDigits < whole.length then .error .longNumber
      else
        .ok ((.int (if negative then -(decimalNumber whole : Int) else decimalNumber whole) : Json τ),
          rest) := by
  have hfraction := fraction_none fun c hc => (hrest c hc).2.1
  have hpower : power rest = (none, rest) := by
    cases rest with
    | nil => rfl
    | cons c rest =>
        obtain ⟨-, -, he, hE⟩ := hrest c rfl
        simp [power, he, hE]
  simp [numberFrom, hfraction, hpower]

/-- No other value starts with a digit. -/
theorem digit_ne {d : Char} (h : d.isDigit = true) :
    d ≠ 'n' ∧ d ≠ 't' ∧ d ≠ 'f' ∧ d ≠ 'N' ∧ d ≠ 'I' ∧ d ≠ '-' := by
  refine ⟨?_, ?_, ?_, ?_, ?_, ?_⟩ <;> (rintro rfl; cases h)

theorem unsignedNumber_whole {whole : List Char} (h : IsWhole whole) (start : List Char)
    (negative : Bool) {rest : List Char} (hrest : ∀ c, rest.head? = some c → c.isDigit = false) :
    unsignedNumber start negative (whole ++ rest) =
      (numberFrom negative whole rest : Except Stop (Json τ × List Char)) := by
  obtain ⟨d, more, rfl⟩ := List.exists_cons_of_ne_nil h.nonempty
  by_cases hzero : d = '0'
  · obtain ⟨-, rfl⟩ := List.cons.inj (h.noZero (congrArg some hzero))
    rw [hzero]
    rfl
  · have hd := h.digits d List.mem_cons_self
    have hmore := digits_append (fun e he => h.digits e (List.mem_cons_of_mem d he)) hrest
    rw [List.cons_append, unsignedNumber, if_pos hd, hmore]
    simpa using hzero

theorem scalar_negative {d : Char} (h : d.isDigit = true) (rest : List Char) :
    scalar ('-' :: d :: rest) =
      (unsignedNumber ('-' :: d :: rest) true (d :: rest) : Except Stop (Json τ × List Char)) := by
  rw [scalar]
  simp [digit_ne h]

theorem scalar_positive {d : Char} (h : d.isDigit = true) (rest : List Char) :
    scalar (d :: rest) =
      (unsignedNumber (d :: rest) false (d :: rest) : Except Stop (Json τ × List Char)) := by
  rw [scalar]
  all_goals simp [digit_ne h]

theorem scalar_number {whole : List Char} (h : IsWhole whole) (negative : Bool) {rest : List Char}
    (hrest : ∀ c, rest.head? = some c → c.isDigit = false) :
    scalar (sign negative ++ (whole ++ rest)) =
      (numberFrom negative whole rest : Except Stop (Json τ × List Char)) := by
  have hread := fun start => @unsignedNumber_whole τ _ h start negative _ hrest
  obtain ⟨d, more, rfl⟩ := List.exists_cons_of_ne_nil h.nonempty
  have hd := h.digits d List.mem_cons_self
  rw [List.cons_append] at hread ⊢
  cases negative with
  | true => exact (scalar_negative hd _).trans (hread _)
  | false => exact (scalar_positive hd _).trans (hread _)

theorem toList_signedDecimal (i : Int) :
    (signedDecimal i).toList = sign (decide (i < 0)) ++ decimalDigits i.natAbs := by
  cases i with
  | ofNat n => simp [signedDecimal, sign]
  | negSucc n => simp [signedDecimal, sign]

/-- A whole number within the limit of the reader. -/
def acceptInt (i : Int) : Except Stop (Json τ) :=
  if maxDigits < (decimalDigits i.natAbs).length then .error .longNumber else .ok (.int i)

theorem scalar_int (i : Int) {rest : List Char} (hrest : Ends rest) :
    scalar ((signedDecimal i).toList ++ rest) = (do
      let v : Json τ ← acceptInt i
      .ok (v, rest)) := by
  have hvalue : (if decide (i < 0) = true then
      -(decimalNumber (decimalDigits i.natAbs) : Int)
      else decimalNumber (decimalDigits i.natAbs)) = i := by
    rw [Text.decimalNumber_decimalDigits]
    simp only [decide_eq_true_eq]
    omega
  rw [toList_signedDecimal, List.append_assoc,
    scalar_number (Text.isWhole_decimalDigits _) _ fun c hc => (hrest c hc).1,
    numberFrom_whole _ _ hrest, hvalue, acceptInt]
  split
  · rfl
  · rfl

theorem scalar_float {cs : List Char} {x : Binary64} (h : SpellsFloat cs x) {rest : List Char}
    (hrest : Ends rest) : scalar (cs ++ rest) = .ok ((.float x : Json τ), rest) := by
  cases h with
  | nan => rfl
  | infinity negative => cases negative <;> rfl
  | @finite negative n hn =>
      have hnext : ∀ c, (Scientific.point n.decimals ++ (Scientific.tail n.power ++ rest)).head? =
          some c → c.isDigit = false := by
        intro c hc
        cases hdecimals : n.decimals with
        | nil =>
            rw [hdecimals] at hc
            exact (n.tail_head hrest c hc).1
        | cons d ds =>
            rw [hdecimals] at hc
            obtain rfl := Option.some.inj hc
            rfl
      rw [Scientific.chars, List.append_assoc, List.append_assoc, List.append_assoc,
        scalar_number hn.whole negative hnext, numberFrom_scientific hn negative hrest]

end NatSpec.Json
