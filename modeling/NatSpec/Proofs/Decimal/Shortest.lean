import NatSpec.Decimal.Shortest
import NatSpec.Proofs.Decimal.Rounding

/-!
The shortest decimal reads back. The interval of a number holds the decimals that are rounded to it,
and a grid of seventeen digits has a point in it, so that the search always ends with a hit.
-/

namespace NatSpec.Binary64

theorem ten_zpow_eq (exponent : Int) :
    (10 : ℚ) ^ exponent = tenTo exponent.toNat / tenTo (-exponent).toNat := by
  rcases Int.eq_nat_or_neg exponent with ⟨n, rfl | rfl⟩
  · simp [tenTo_eq]
  · simp [tenTo_eq]

/-! ### Intervals -/

/-- A quotient and a decimal, after both are multiplied by their denominators. -/
theorem common_denominator (num : Nat) {den : Nat} (hden : 0 < den) (digits : Nat)
    (exponent : Int) :
    ∃ scale : ℚ, 0 < scale ∧ (num : ℚ) / den * scale = (num * tenTo (-exponent).toNat : Nat) ∧
      digits * 10 ^ exponent * scale = (digits * tenTo exponent.toNat * den : Nat) := by
  have hunit : ((tenTo (-exponent).toNat : Nat) : ℚ) ≠ 0 := by
    exact_mod_cast (tenTo_pos _).ne'
  have hden' : (den : ℚ) ≠ 0 := by exact_mod_cast hden.ne'
  refine ⟨den * tenTo (-exponent).toNat, ?_, ?_, ?_⟩
  · exact_mod_cast Nat.mul_pos hden (tenTo_pos _)
  · push_cast
    field_simp
  · rw [ten_zpow_eq]
    push_cast
    field_simp

theorem quotient_le_decimal_iff (num : Nat) {den : Nat} (hden : 0 < den) (digits : Nat)
    (exponent : Int) :
    (num : ℚ) / den ≤ digits * 10 ^ exponent ↔
      num * tenTo (-exponent).toNat ≤ digits * tenTo exponent.toNat * den := by
  obtain ⟨scale, hscale, hnum, hpoint⟩ := common_denominator num hden digits exponent
  rw [← mul_le_mul_iff_of_pos_right hscale, hnum, hpoint, Nat.cast_le]

theorem decimal_le_quotient_iff (num : Nat) {den : Nat} (hden : 0 < den) (digits : Nat)
    (exponent : Int) :
    digits * 10 ^ exponent ≤ (num : ℚ) / den ↔
      digits * tenTo exponent.toNat * den ≤ num * tenTo (-exponent).toNat := by
  obtain ⟨scale, hscale, hnum, hpoint⟩ := common_denominator num hden digits exponent
  rw [← mul_le_mul_iff_of_pos_right hscale, hnum, hpoint, Nat.cast_le]

theorem Interval.holds_iff {i : Interval} (hden : 0 < i.den) (digits : Nat) (exponent : Int) :
    i.holds digits exponent = true ↔
      (i.low : ℚ) / i.den ≤ digits * 10 ^ exponent ∧ digits * 10 ^ exponent ≤ (i.high : ℚ) / i.den ∧
      (i.closed = false → (i.low : ℚ) / i.den < digits * 10 ^ exponent ∧
        digits * 10 ^ exponent < (i.high : ℚ) / i.den) := by
  rw [← not_le (b := (i.low : ℚ) / i.den), ← not_le (a := (i.high : ℚ) / i.den),
    quotient_le_decimal_iff _ hden, decimal_le_quotient_iff _ hden, quotient_le_decimal_iff _ hden,
    decimal_le_quotient_iff _ hden]
  unfold holds
  cases i.closed with
  | true => simp
  | false =>
      simp only [Bool.false_eq_true, if_false, Bool.and_eq_true, decide_eq_true_eq, forall_const]
      omega

theorem Interval.around_den_pos (m : Nat) (q : Int) : 0 < (around m q).den := by
  unfold around
  dsimp only
  split
  · exact one_pos
  · exact Nat.two_pow_pos _

/-- The ends of the interval of a number, and the number itself, in units of its last place. -/
theorem Interval.around_eq {m : Nat} (hm : m ≠ 0) (q : Int) :
    ((around m q).low : ℚ) / (around m q).den = (m - gapBelow m q) * 2 ^ q ∧
      ((around m q).value : ℚ) / (around m q).den = m * 2 ^ q ∧
      ((around m q).high : ℚ) / (around m q).den = (m + 1 / 2) * 2 ^ q := by
  have hscale : (((if 2 ≤ q then twoTo (q - 2).toNat else 1 : Nat)) : ℚ) /
      (if 2 ≤ q then 1 else twoTo (2 - q).toNat : Nat) = 2 ^ q / 4 := by
    split
    · rename_i hq
      obtain ⟨n, rfl⟩ : ∃ n : Nat, q = n + 2 := ⟨(q - 2).toNat, by omega⟩
      simp [twoTo_eq, zpow_add₀]
      norm_num
    · rename_i hq
      obtain ⟨n, rfl⟩ : ∃ n : Nat, q = 2 - n := ⟨(2 - q).toNat, by omega⟩
      simp [twoTo_eq, zpow_sub₀]
      field_simp
      norm_num
  have hgap : ((4 * m - (if m = twoTo 52 ∧ minExponent < q then 1 else 2) : Nat) : ℚ) =
      4 * (m - gapBelow m q) := by
    rw [Nat.cast_sub (by split <;> omega)]
    unfold gapBelow
    rw [twoTo_eq]
    split
    · push_cast
      ring
    · push_cast
      ring
  have hsplit : ∀ a scale den : ℚ, scale / den = 2 ^ q / 4 → a * scale / den = a / 4 * 2 ^ q := by
    intro a scale den h
    rw [mul_div_assoc, h]
    ring
  unfold around
  dsimp only
  simp only [Nat.cast_mul]
  rw [hsplit _ _ _ hscale, hsplit _ _ _ hscale, hsplit _ _ _ hscale, hgap]
  push_cast
  refine ⟨?_, ?_, ?_⟩ <;> ring

theorem Interval.holds_around_iff {m : Nat} (hm : m ≠ 0) (q : Int) (digits : Nat)
    (exponent : Int) :
    (around m q).holds digits exponent = true ↔ Rounds m q (digits * 10 ^ exponent) := by
  obtain ⟨hlow, -, hhigh⟩ := around_eq hm q
  rw [holds_iff (around_den_pos m q), hlow, hhigh]
  have hclosed : (around m q).closed = false ↔ m % 2 ≠ 0 := by simp [around]
  rw [hclosed]
  exact ⟨fun ⟨low, high, ends⟩ => ⟨low, high, ends⟩, fun ⟨low, high, ends⟩ => ⟨low, high, ends⟩⟩

/-! ### Grids -/

theorem ten_zpow_decade_le {num den : Nat} (hnum : 0 < num) (hden : 0 < den) :
    (10 : ℚ) ^ (decade num den - 1) ≤ num / den := by
  have hden' : (0 : ℚ) < den := by exact_mod_cast hden
  unfold decade
  split
  · rename_i hle
    have hquotient : num / den ≠ 0 := (Nat.div_pos hle hden).ne'
    have hlength := Text.pow_length_decimalDigits_le hquotient
    have hpos := Text.length_decimalDigits_pos (num / den)
    generalize (Text.decimalDigits (num / den)).length = k at *
    have hcast : (k : Int) - 1 = (k - 1 : Nat) := by omega
    rw [hcast, zpow_natCast, le_div_iff₀ hden']
    have := (Nat.le_div_iff_mul_le hden).1 hlength
    exact_mod_cast this
  · rename_i hlt
    rw [not_le] at hlt
    have hmore : ¬(den + num - 1) / num ≤ 1 := by
      rw [not_le, Nat.lt_div_iff_mul_lt hnum]
      omega
    dsimp only
    rw [if_neg hmore]
    have hlength := Text.lt_pow_length_decimalDigits ((den + num - 1) / num - 1)
    generalize (Text.decimalDigits ((den + num - 1) / num - 1)).length = k at *
    have hle : (den + num - 1) / num ≤ 10 ^ k := by omega
    have hceil : den ≤ 10 ^ k * num := by
      have := Nat.lt_succ_of_le hle
      rw [Nat.div_lt_iff_lt_mul hnum, Nat.succ_mul] at this
      omega
    have hexponent : 1 - (k : Int) - 1 = -k := by omega
    rw [hexponent, zpow_neg, zpow_natCast, le_div_iff₀ hden', inv_mul_le_iff₀ (by positivity)]
    exact_mod_cast hceil

theorem Interval.holds_of_onGrid? {i : Interval} {exponent : Int} {digits : Nat}
    (h : i.onGrid? exponent = some digits) : i.holds digits exponent = true := by
  unfold onGrid? at h
  dsimp only at h
  split at h
  · split_ifs at h <;> (obtain rfl := Option.some.inj h; assumption)
  · obtain rfl := Option.some.inj h
    assumption
  · obtain rfl := Option.some.inj h
    assumption
  · cases h

/-- A grid has a hit if one of the neighbours of the number lies in the interval. -/
theorem Interval.onGrid?_isSome {i : Interval} (hden : 0 < i.den) {exponent : Int}
    (h : ∀ below : Nat, (below : ℚ) * 10 ^ exponent ≤ (i.value : ℚ) / i.den →
      (i.value : ℚ) / i.den < (below + 1 : Nat) * 10 ^ exponent →
      i.holds below exponent = true ∨ i.holds (below + 1) exponent = true) :
    (i.onGrid? exponent).isSome := by
  have hstep : 0 < i.den * tenTo exponent.toNat := Nat.mul_pos hden (tenTo_pos _)
  have hneighbour := h (i.value * tenTo (-exponent).toNat / (i.den * tenTo exponent.toNat))
    (by
      rw [decimal_le_quotient_iff _ hden, mul_assoc, mul_comm (tenTo exponent.toNat)]
      exact Nat.div_mul_le_self _ _)
    (by
      rw [← not_le, decimal_le_quotient_iff _ hden, not_le, mul_assoc,
        mul_comm (tenTo exponent.toNat)]
      exact (Nat.lt_mul_div_succ _ hstep).trans_eq (mul_comm _ _))
  unfold onGrid?
  dsimp only
  split
  · split_ifs <;> rfl
  · rfl
  · rfl
  · rename_i hbelow habove
    rw [hbelow, habove] at hneighbour
    simp at hneighbour

theorem around_value_pos {m : Nat} (hm : m ≠ 0) (q : Int) : 0 < (Interval.around m q).value := by
  unfold Interval.around
  dsimp only
  split
  · exact Nat.mul_pos (by omega) (Nat.two_pow_pos _)
  · omega

/-- A grid of seventeen digits is fine enough for every number. -/
theorem onGrid?_seventeen {m : Nat} {q : Int} (hm : m ≠ 0) (hbelow : m < 2 ^ 53) :
    ((Interval.around m q).onGrid?
      (decade (Interval.around m q).value (Interval.around m q).den - 17)).isSome := by
  have hden := Interval.around_den_pos m q
  obtain ⟨-, hvalue, -⟩ := Interval.around_eq hm q
  have hplace : (0 : ℚ) < 2 ^ q := by positivity
  have hunit := ten_zpow_decade_le (around_value_pos hm q) hden
  rw [hvalue] at hunit
  generalize hexponent :
    decade (Interval.around m q).value (Interval.around m q).den - 17 = exponent
  have hshift : decade (Interval.around m q).value (Interval.around m q).den - 1 =
      exponent + (16 : Nat) := by omega
  rw [hshift, zpow_add₀ (by norm_num), zpow_natCast] at hunit
  refine Interval.onGrid?_isSome hden fun below hle hlt => ?_
  rw [hvalue] at hle hlt
  rw [Interval.holds_around_iff hm, Interval.holds_around_iff hm]
  push_cast at hlt ⊢
  by_cases habove : ((below : ℚ) + 1) * 10 ^ exponent < (m + 1 / 2) * 2 ^ q
  · have hgap := gapBelow_pos m q
    exact .inr (.of_lt (by nlinarith) habove)
  · have hstep : (10 : ℚ) ^ exponent < (1 / 2 + gapBelow m q) * 2 ^ q := by
      unfold gapBelow
      split
      · rename_i hpower
        rw [hpower.1] at hunit
        push_cast at hunit
        linarith
      · have hcast : (m : ℚ) < 2 ^ 53 := by exact_mod_cast hbelow
        nlinarith
    refine .inl (.of_lt ?_ ?_)
    · linarith
    · nlinarith

theorem Interval.holds_search {i : Interval} {top : Int} {more count : Nat}
    (h : (i.onGrid? (top - (count + more : Nat))).isSome) :
    i.holds (i.search top more count).1 (i.search top more count).2 = true := by
  induction more generalizing count with
  | zero =>
      obtain ⟨digits, hdigits⟩ := Option.isSome_iff_exists.1 h
      rw [Nat.add_zero] at hdigits
      simp only [search, hdigits, Option.getD_some]
      exact holds_of_onGrid? hdigits
  | succ more ih =>
      rw [search]
      split
      · exact holds_of_onGrid? (by assumption)
      · have hcount : count + (more + 1) = count + 1 + more := by omega
        rw [hcount] at h
        exact ih h

/-- The digits and the power of ten that are found are rounded to the number. -/
theorem rounds_shortest {m : Nat} {q : Int} (hm : m ≠ 0) (hbelow : m < 2 ^ 53) :
    Rounds m q ((shortest m q).1 * 10 ^ (shortest m q).2) := by
  rw [← Interval.holds_around_iff hm]
  exact Interval.holds_search (onGrid?_seventeen hm hbelow)

theorem dropZeros_eq (fuel digits : Nat) (exponent : Int) :
    ((dropZeros fuel digits exponent).1 : ℚ) * 10 ^ (dropZeros fuel digits exponent).2 =
      digits * 10 ^ exponent := by
  induction fuel generalizing digits exponent with
  | zero => rfl
  | succ fuel ih =>
      rw [dropZeros]
      split
      · rename_i h
        have hdigits : digits = digits / 10 * 10 := by omega
        rw [ih, zpow_add₀ (by norm_num), zpow_one]
        nth_rewrite 2 [hdigits]
        push_cast
        ring
      · rfl

end NatSpec.Binary64
