import NatSpec.Json.Writer
import NatSpec.Proofs.Decimal.Shortest
import NatSpec.Proofs.Json.Spelling

/-!
The text of a number that is not written as a whole one. However it is laid out, positionally or
with an exponent, it spells the number itself.
-/

namespace NatSpec

open Text (IsDigits IsWhole decimalNumber decimalDigits)

namespace Json.Scientific

theorem point_of_ne_nil {ds : List Char} (h : ds ≠ []) : point ds = '.' :: ds := by
  cases ds with
  | nil => exact absurd rfl h
  | cons d ds => rfl

/-- The rational number that is shown, without its sign. -/
def shown (n : Scientific) : ℚ :=
  decimalNumber (n.whole ++ n.decimals) * 10 ^ n.exponent

end Json.Scientific

namespace Binary64

open Json (Scientific)

section

variable {ds : List Char} (hds : IsDigits ds) (hhead : ds.head? ≠ some '0')
include hds

/-- Below one the decimals start with zeros. -/
theorem exists_scientific_small {point exponent : Int}
    (hpoint : point = ds.length + exponent) (hsmall : point ≤ 0) :
    ∃ n : Scientific, n.WellFormed ∧
      n.chars = '0' :: '.' :: List.replicate (-point).toNat '0' ++ ds ∧
      n.shown = decimalNumber ds * 10 ^ exponent := by
  have hdecimals : List.replicate (-point).toNat '0' ++ ds ≠ [] := by simp [hds.nonempty]
  refine ⟨⟨['0'], List.replicate (-point).toNat '0' ++ ds, none⟩, ⟨?_, ?_, ?_, .inl hdecimals⟩,
    ?_, ?_⟩
  · exact Text.isWhole_decimalDigits 0
  · intro d hd
    rcases List.mem_append.1 hd with hd | hd
    · rw [List.eq_of_mem_replicate hd]
      rfl
    · exact hds.digits d hd
  · rintro p ⟨⟩
  · simp [Scientific.chars, Scientific.point_of_ne_nil hdecimals, Scientific.tail]
  · have hzeros : decimalNumber (['0'] ++ (List.replicate (-point).toNat '0' ++ ds)) =
        decimalNumber ds := by
      rw [← List.append_assoc, ← List.replicate_one, ← List.replicate_add,
        Text.decimalNumber_append, Text.decimalNumber_zeros, mul_zero, zero_add]
    have hexponent : (0 : Int) - (List.replicate (-point).toNat '0' ++ ds).length = exponent := by
      rw [List.length_append, List.length_replicate]
      omega
    simp only [Scientific.shown, Scientific.exponent, hzeros, hexponent]

include hhead

/-- A whole number ends with zeros. -/
theorem exists_scientific_large {exponent : Int} (hexponent : 0 ≤ exponent) :
    ∃ n : Scientific, n.WellFormed ∧
      n.chars = ds ++ List.replicate exponent.toNat '0' ++ ['.', '0'] ∧
      n.shown = decimalNumber ds * 10 ^ exponent := by
  obtain ⟨k, rfl⟩ := Int.eq_ofNat_of_zero_le hexponent
  refine ⟨⟨ds ++ List.replicate k '0', ['0'], none⟩, ⟨⟨⟨?_, ?_⟩, ?_⟩, ?_, ?_, ?_⟩, ?_, ?_⟩
  · simp [hds.nonempty]
  · intro d hd
    rcases List.mem_append.1 hd with hd | hd
    · exact hds.digits d hd
    · rw [List.eq_of_mem_replicate hd]
      rfl
  · intro h
    rw [List.head?_append_of_ne_nil _ hds.nonempty] at h
    exact absurd h hhead
  · simp
  · rintro p ⟨⟩
  · simp
  · simp [Scientific.chars, Scientific.point, Scientific.tail]
  · have hnumber : decimalNumber (ds ++ List.replicate k '0' ++ ['0']) =
        10 ^ (k + 1) * decimalNumber ds := by
      rw [List.append_assoc, ← List.replicate_succ', Text.decimalNumber_append,
        Text.decimalNumber_zeros, List.length_replicate, add_zero]
    simp only [Scientific.shown, Scientific.exponent, hnumber]
    push_cast
    simp
    ring

/-- A number with digits on both sides of its point. -/
theorem exists_scientific_between {point exponent : Int} (hpoint : point = ds.length + exponent)
    (hpositive : 0 < point) (hexponent : exponent < 0) :
    ∃ n : Scientific, n.WellFormed ∧
      n.chars = ds.take point.toNat ++ '.' :: ds.drop point.toNat ∧
      n.shown = decimalNumber ds * 10 ^ exponent := by
  have hdecimals : ds.drop point.toNat ≠ [] := by
    rw [ne_eq, List.drop_eq_nil_iff]
    omega
  refine ⟨⟨ds.take point.toNat, ds.drop point.toNat, none⟩, ⟨⟨⟨?_, ?_⟩, ?_⟩, ?_, ?_, .inl hdecimals⟩,
    ?_, ?_⟩
  · rw [ne_eq, List.take_eq_nil_iff]
    simp [hds.nonempty]
    omega
  · exact fun d hd => hds.digits d (List.mem_of_mem_take hd)
  · intro h
    rw [List.head?_take, if_neg (by omega)] at h
    exact absurd h hhead
  · exact fun d hd => hds.digits d (List.mem_of_mem_drop hd)
  · rintro p ⟨⟩
  · simp [Scientific.chars, Scientific.point_of_ne_nil hdecimals, Scientific.tail]
  · have hlength : (0 : Int) - (ds.drop point.toNat).length = exponent := by
      rw [List.length_drop]
      omega
    simp only [Scientific.shown, Scientific.exponent, List.take_append_drop, hlength]

end

/-- The digits of a power of ten, of which there are at least two. -/
def powerDigits (power : Int) : List Char :=
  if (decimalDigits power.natAbs).length < 2 then '0' :: decimalDigits power.natAbs
  else decimalDigits power.natAbs

theorem isDigits_powerDigits (power : Int) : IsDigits (powerDigits power) := by
  have hds := Text.isDigits_decimalDigits power.natAbs
  unfold powerDigits
  split
  · exact ⟨List.cons_ne_nil _ _, fun d hd => (List.mem_cons.1 hd).elim (· ▸ rfl) (hds.digits d)⟩
  · exact hds

theorem decimalNumber_powerDigits (power : Int) :
    decimalNumber (powerDigits power) = power.natAbs := by
  have hnumber := Text.decimalNumber_decimalDigits power.natAbs
  unfold powerDigits
  split
  · have hzero : decimalNumber ['0'] = 0 := rfl
    rw [← List.singleton_append, Text.decimalNumber_append, hnumber, hzero, mul_zero, zero_add]
  · exact hnumber

/-- A number with one digit in front of its point, and a power of ten. -/
theorem exists_scientific_power {d : Char} {rest : List Char} (hds : IsDigits (d :: rest))
    (hhead : (d :: rest).head? ≠ some '0') (power : Int) :
    ∃ n : Scientific, n.WellFormed ∧
      n.chars = d :: Scientific.point rest ++ 'e' :: (if power < 0 then '-' else '+') ::
        powerDigits power ∧
      n.shown = decimalNumber (d :: rest) * 10 ^ (power - rest.length) := by
  refine ⟨⟨[d], rest, some (decide (power < 0), powerDigits power)⟩, ⟨⟨⟨?_, ?_⟩, ?_⟩, ?_, ?_, ?_⟩,
    ?_, ?_⟩
  · simp
  · intro e he
    exact hds.digits e (by simp_all)
  · exact fun h => absurd h hhead
  · exact fun e he => hds.digits e (List.mem_cons_of_mem d he)
  · rintro p hp
    obtain rfl := Option.some.inj hp
    exact isDigits_powerDigits power
  · simp
  · simp [Scientific.chars, Scientific.tail]
  · have hnumber := decimalNumber_powerDigits power
    have hexponent : Scientific.exponent ⟨[d], rest, some (decide (power < 0), powerDigits power)⟩ =
        power - rest.length := by
      unfold Scientific.exponent
      by_cases hnegative : power < 0
      · simp only [hnegative, decide_true, hnumber]
        omega
      · simp only [hnegative, decide_false, hnumber]
        omega
    rw [Scientific.shown, hexponent]
    rfl

/-- A number is laid out in some way of showing it. -/
theorem Style.exists_scientific (style : Style) {digits : Nat} (hdigits : digits ≠ 0)
    (exponent : Int) :
    ∃ n : Scientific, n.WellFormed ∧ n.chars = style.write (decimalDigits digits) exponent ∧
      n.shown = digits * 10 ^ exponent := by
  have hds := Text.isDigits_decimalDigits digits
  have hhead := Text.head?_decimalDigits hdigits
  have hnumber := Text.decimalNumber_decimalDigits digits
  generalize decimalDigits digits = ds at *
  rw [← hnumber]
  unfold write
  dsimp only
  split
  · split
    · exact exists_scientific_small hds rfl (by assumption)
    · split
      · exact exists_scientific_large hds hhead (by assumption)
      · exact exists_scientific_between hds hhead rfl (by omega) (by omega)
  · obtain ⟨d, rest, rfl⟩ := List.exists_cons_of_ne_nil hds.nonempty
    have hpower : ((d :: rest).length : Int) + exponent - 1 - rest.length = exponent := by
      rw [List.length_cons]
      omega
    have hshown := exists_scientific_power hds hhead ((d :: rest).length + exponent - 1)
    rw [hpower] at hshown
    cases rest with
    | nil => exact hshown
    | cons e rest => exact hshown

theorem Rounds.pos {m : Nat} {q : Int} {v : ℚ} (h : Rounds m q v) (hm : m ≠ 0) : 0 < v := by
  have hone : (1 : ℚ) ≤ m := by exact_mod_cast Nat.one_le_iff_ne_zero.2 hm
  have hgap := gapBelow_le m q
  have hlow : 0 < ((m : ℚ) - gapBelow m q) * 2 ^ q := mul_pos (by linarith) (by positivity)
  exact hlow.trans_le h.low

/-- What shows a quotient that is rounded to a number is read as this number. -/
theorem value_of_shown {n : Scientific} {m : Nat} {q : Int} (hm : m ≠ 0) (hnormal : Normal m q)
    (h : Rounds m q n.shown) (negative : Bool) : n.value negative = finite negative m q := by
  have hnumber : decimalNumber (n.whole ++ n.decimals) ≠ 0 := by
    intro hzero
    have hpos := h.pos hm
    rw [Scientific.shown, hzero, Nat.cast_zero, zero_mul] at hpos
    exact hpos.false
  exact ofDecimal_eq hm hnumber hnormal h negative

end Binary64

namespace Json

open Binary64 (IsNormal shortest dropZeros minExponent)

theorem toList_float (negative : Bool) (m : Nat) (q : Int) :
    Writer.float (.finite negative m q) = sign negative ++
      if m = 0 then ['0', '.', '0']
      else Binary64.plainStyle.write
        (decimalDigits (dropZeros 20 (shortest m q).1 (shortest m q).2).1)
        (dropZeros 20 (shortest m q).1 (shortest m q).2).2 := by
  cases negative with
  | true => simp [Writer.float, Binary64.toText, sign]
  | false => simp [Writer.float, Binary64.toText, sign]

/-- The text of a number spells the number. -/
theorem spellsFloat_float {x : Binary64} (h : x.IsNormal) : SpellsFloat (Writer.float x) x := by
  match x with
  | .nan => exact .nan
  | .infinity true => exact .infinity true
  | .infinity false => exact .infinity false
  | .finite negative m q =>
      rw [toList_float]
      split
      · rename_i hm
        have hq : q = minExponent := by
          rcases h.full with hfull | hq
          · omega
          · exact hq
        have hzero := SpellsFloat.finite negative (n := ⟨['0'], ['0'], none⟩)
          ⟨Text.isWhole_decimalDigits 0, by simp, by simp, by simp⟩
        rw [hm, hq]
        exact hzero
      · rename_i hm
        have hrounds : Binary64.Rounds m q _ := Binary64.rounds_shortest hm h.below
        rw [← Binary64.dropZeros_eq 20] at hrounds
        generalize (dropZeros 20 (shortest m q).1 (shortest m q).2).1 = digits at *
        generalize (dropZeros 20 (shortest m q).1 (shortest m q).2).2 = exponent at *
        have hdigits : digits ≠ 0 := by
          rintro rfl
          have hpos := hrounds.pos hm
          rw [Nat.cast_zero, zero_mul] at hpos
          exact hpos.false
        obtain ⟨n, hn, hchars, hshown⟩ :=
          Binary64.plainStyle.exists_scientific hdigits exponent
        rw [← hshown] at hrounds
        have hspells := SpellsFloat.finite negative hn
        rwa [hchars, Binary64.value_of_shown hm h hrounds] at hspells

end Json

end NatSpec
