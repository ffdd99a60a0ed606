import Mathlib.Data.Int.Log
import Mathlib.Data.Rat.Floor
import Mathlib.Algebra.Order.Field.Power
import Mathlib.Tactic.FieldSimp
import Mathlib.Tactic.Linarith
import Mathlib.Tactic.NormNum
import Mathlib.Tactic.Positivity
import Mathlib.Tactic.Ring
import NatSpec.Decimal.Binary64
import NatSpec.Proofs.Text.Digits

/-!
Rounding gives the nearest number. Quotients are compared as rational numbers. Every result is in
its one writing, and a quotient between the middles towards both neighbours of a number is rounded
to it.
-/

namespace NatSpec.Binary64

/-- The parts of a finite number in its one writing. -/
structure Normal (m : Nat) (q : Int) : Prop where
  below : m < 2 ^ 53
  least : minExponent ≤ q
  greatest : q ≤ maxExponent
  full : 2 ^ 52 ≤ m ∨ q = minExponent

/-- A number in its one writing. -/
def IsNormal : Binary64 → Prop
  | finite _ m q => Normal m q
  | _ => True

theorem twoTo_eq (n : Nat) : twoTo n = 2 ^ n := rfl

theorem tenTo_eq (n : Nat) : tenTo n = 10 ^ n := rfl

theorem tenTo_pos (n : Nat) : 0 < tenTo n := Nat.pow_pos (by decide)

/-! ### Whole numbers -/

/-- A rational number that is nearest to a whole one; in the middle the even neighbour counts. -/
structure Nearest (m : Nat) (x : ℚ) : Prop where
  low : (m : ℚ) - 1 / 2 ≤ x
  high : x ≤ m + 1 / 2
  ends : m % 2 ≠ 0 → (m : ℚ) - 1 / 2 < x ∧ x < m + 1 / 2

theorem roundQuotient_eq {num den m : Nat} (hden : 0 < den) (h : Nearest m (num / den)) :
    roundQuotient num den = m := by
  have hpos : (0 : ℚ) < den := by exact_mod_cast hden
  have hlow : 2 * m * den ≤ 2 * num + den := by
    have := h.low
    rw [le_div_iff₀ hpos] at this
    have : (2 : ℚ) * m * den ≤ 2 * num + den := by linarith
    exact_mod_cast this
  have hhigh : 2 * num ≤ 2 * m * den + den := by
    have := h.high
    rw [div_le_iff₀ hpos] at this
    have : (2 : ℚ) * num ≤ 2 * m * den + den := by linarith
    exact_mod_cast this
  have hends : m % 2 ≠ 0 → 2 * m * den < 2 * num + den ∧ 2 * num < 2 * m * den + den := by
    intro hodd
    obtain ⟨hl, hh⟩ := h.ends hodd
    rw [lt_div_iff₀ hpos] at hl
    rw [div_lt_iff₀ hpos] at hh
    have hl' : (2 : ℚ) * m * den < 2 * num + den := by linarith
    have hh' : (2 : ℚ) * num < 2 * m * den + den := by linarith
    exact ⟨by exact_mod_cast hl', by exact_mod_cast hh'⟩
  have hsplit : 2 * num = 2 * (num / den) * den + 2 * (num % den) := by
    have := Nat.div_add_mod num den
    nlinarith
  have hrest : num % den < den := Nat.mod_lt num hden
  unfold roundQuotient
  generalize num / den = k at *
  generalize num % den = r at *
  have hcases : m = k ∨ m = k + 1 := by
    have hle : m < k + 2 := by
      by_contra hgt
      have : (k + 2) * den ≤ m * den := Nat.mul_le_mul_right den (by omega)
      nlinarith
    have hge : k < m + 1 := by
      by_contra hlt
      have : (m + 1) * den ≤ k * den := Nat.mul_le_mul_right den (by omega)
      nlinarith
    omega
  rcases hcases with rfl | rfl
  · dsimp only
    split_ifs <;> omega
  · have hnext : 2 * (k + 1) * den = 2 * k * den + 2 * den := by ring
    dsimp only
    split_ifs <;> omega

theorem le_roundQuotient (num den : Nat) : num / den ≤ roundQuotient num den := by
  unfold roundQuotient
  dsimp only
  split_ifs <;> omega

theorem roundQuotient_le (num den : Nat) : roundQuotient num den ≤ num / den + 1 := by
  unfold roundQuotient
  dsimp only
  split_ifs <;> omega

/-! ### Exponents -/

theorem scaled_den_pos {num den : Nat} (hden : 0 < den) (q : Int) : 0 < (scaled num den q).2 := by
  unfold scaled
  split
  · exact Nat.mul_pos hden (Nat.two_pow_pos _)
  · exact hden

theorem scaled_div (num den : Nat) (q : Int) :
    ((scaled num den q).1 : ℚ) / (scaled num den q).2 = num / den / 2 ^ q := by
  unfold scaled
  split
  · rename_i hq
    obtain ⟨n, rfl⟩ := Int.eq_ofNat_of_zero_le hq
    simp [twoTo_eq, div_div]
  · rename_i hq
    obtain ⟨n, rfl⟩ : ∃ n : Nat, q = -n := ⟨(-q).toNat, by omega⟩
    simp [twoTo_eq, div_mul_eq_mul_div]

theorem scaled_quotient_lt {num den : Nat} (hden : 0 < den) (q : Int) (k : Nat) :
    (scaled num den q).1 / (scaled num den q).2 < k ↔ (num : ℚ) / den < k * 2 ^ q := by
  have hpos : (0 : ℚ) < 2 ^ q := by positivity
  have hscaled : (0 : ℚ) < (scaled num den q).2 := by exact_mod_cast scaled_den_pos hden q
  rw [Nat.div_lt_iff_lt_mul (scaled_den_pos hden q), ← div_lt_iff₀ hpos, ← scaled_div,
    div_lt_iff₀ hscaled]
  exact_mod_cast Iff.rfl

/-- The exponent is that of the leading bit, 52 places down, or the least one. -/
theorem exponentFor_eq {num den : Nat} (hnum : 0 < num) (hden : 0 < den) :
    exponentFor num den = max (Int.log 2 ((num : ℚ) / den) - 52) minExponent := by
  have hpos : (0 : ℚ) < num / den := by positivity
  have hnum_low : 2 ^ Nat.log2 num ≤ num := Nat.log2_self_le hnum.ne'
  have hnum_high : num < 2 ^ (Nat.log2 num + 1) := Nat.lt_log2_self
  have hden_low : 2 ^ Nat.log2 den ≤ den := Nat.log2_self_le hden.ne'
  have hden_high : den < 2 ^ (Nat.log2 den + 1) := Nat.lt_log2_self
  have hlow : (Nat.log2 num : Int) - (Nat.log2 den + 1 : Nat) ≤ Int.log 2 ((num : ℚ) / den) := by
    rw [← Int.zpow_le_iff_le_log one_lt_two hpos, Nat.cast_ofNat, zpow_sub₀ two_ne_zero,
      zpow_natCast, zpow_natCast]
    exact div_le_div₀ (by positivity) (by exact_mod_cast hnum_low) (by exact_mod_cast hden)
      (by exact_mod_cast hden_high.le)
  have hhigh : Int.log 2 ((num : ℚ) / den) < (Nat.log2 num + 1 : Nat) - (Nat.log2 den : Int) := by
    rw [← Int.lt_zpow_iff_log_lt one_lt_two hpos, Nat.cast_ofNat, zpow_sub₀ two_ne_zero,
      zpow_natCast, zpow_natCast]
    exact div_lt_div₀ (by exact_mod_cast hnum_high) (by exact_mod_cast hden_low) (by positivity)
      (by positivity)
  have hbit : (scaled num den ((Nat.log2 num : Int) - Nat.log2 den - 52)).1 /
      (scaled num den ((Nat.log2 num : Int) - Nat.log2 den - 52)).2 < twoTo 52 ↔
      Int.log 2 ((num : ℚ) / den) < (Nat.log2 num : Int) - Nat.log2 den := by
    rw [scaled_quotient_lt hden, ← Int.lt_zpow_iff_log_lt one_lt_two hpos, twoTo_eq]
    have hpower : ((2 ^ 52 : Nat) : ℚ) * 2 ^ ((Nat.log2 num : Int) - Nat.log2 den - 52) =
        (2 : Nat) ^ ((Nat.log2 num : Int) - Nat.log2 den) := by
      rw [zpow_sub₀ two_ne_zero _ 52]
      push_cast
      field_simp
    rw [hpower]
  unfold exponentFor
  dsimp only
  split
  · rename_i hlt
    rw [hbit] at hlt
    congr 1
    omega
  · rename_i hge
    rw [hbit] at hge
    congr 1
    omega

/-! ### Quotients -/

/-- How far below a number the quotients that are rounded to it begin, in units of its last place.
Below a power of two the neighbour is half as far. -/
def gapBelow (m : Nat) (q : Int) : ℚ :=
  if m = 2 ^ 52 ∧ minExponent < q then 1 / 4 else 1 / 2

/-- The quotients that are rounded to a number, with both ends if its last bit is zero. -/
structure Rounds (m : Nat) (q : Int) (v : ℚ) : Prop where
  low : (m - gapBelow m q) * 2 ^ q ≤ v
  high : v ≤ (m + 1 / 2) * 2 ^ q
  ends : m % 2 ≠ 0 → (m - gapBelow m q) * 2 ^ q < v ∧ v < (m + 1 / 2) * 2 ^ q

theorem gapBelow_le (m : Nat) (q : Int) : gapBelow m q ≤ 1 / 2 := by
  unfold gapBelow
  split <;> norm_num

theorem gapBelow_pos (m : Nat) (q : Int) : 0 < gapBelow m q := by
  unfold gapBelow
  split <;> norm_num

theorem Rounds.of_lt {m : Nat} {q : Int} {v : ℚ} (hlow : (m - gapBelow m q) * 2 ^ q < v)
    (hhigh : v < (m + 1 / 2) * 2 ^ q) : Rounds m q v :=
  ⟨hlow.le, hhigh.le, fun _ => ⟨hlow, hhigh⟩⟩

theorem Rounds.nearest {m : Nat} {q : Int} {v : ℚ} (h : Rounds m q v) : Nearest m (v / 2 ^ q) := by
  have hpos : (0 : ℚ) < 2 ^ q := by positivity
  have hgap := gapBelow_le m q
  have hlow := (le_div_iff₀ hpos).2 h.low
  refine ⟨by linarith, (div_le_iff₀ hpos).2 h.high, fun hodd => ?_⟩
  have hstrict := (lt_div_iff₀ hpos).2 (h.ends hodd).1
  exact ⟨by linarith, (div_lt_iff₀ hpos).2 (h.ends hodd).2⟩

theorem two_zpow_add (q : Int) (k : Nat) : ((2 : Nat) : ℚ) ^ (q + k) = 2 ^ k * 2 ^ q := by
  rw [Nat.cast_ofNat, zpow_add₀ two_ne_zero, zpow_natCast, mul_comm]

theorem round_eq_of_exponent {num den m : Nat} {q : Int} (hnum : 0 < num)
    (hexponent : exponentFor num den = q)
    (hround : roundQuotient (scaled num den q).1 (scaled num den q).2 = m) (negative : Bool) :
    round negative num den =
      if m = 2 ^ 53 then
        if maxExponent < q + 1 then infinity negative else finite negative (2 ^ 52) (q + 1)
      else if maxExponent < q then infinity negative else finite negative m q := by
  unfold round
  rw [if_neg hnum.ne', hexponent]
  dsimp only
  rw [hround, twoTo_eq, twoTo_eq]
  split <;> rfl

/-- A quotient is rounded to a number if it lies between the middles towards both neighbours. -/
theorem round_eq {num den m : Nat} {q : Int} (hnum : 0 < num) (hden : 0 < den)
    (hnormal : Normal m q) (h : Rounds m q (num / den)) (negative : Bool) :
    round negative num den = finite negative m q := by
  have hpos : (0 : ℚ) < num / den := by positivity
  have hunit : (0 : ℚ) < 2 ^ q := by positivity
  have hbelow : (m : ℚ) + 1 ≤ 2 ^ 53 := by exact_mod_cast hnormal.below
  have hexponent := exponentFor_eq hnum hden
  have hleast := hnormal.least
  have hgreatest := hnormal.greatest
  by_cases hfull : q = minExponent ∨ 2 ^ 52 * 2 ^ q ≤ (num : ℚ) / den
  · have hlog : Int.log 2 ((num : ℚ) / den) < q + (53 : Nat) := by
      rw [← Int.lt_zpow_iff_log_lt one_lt_two hpos, two_zpow_add]
      have := h.high
      nlinarith
    have hq : exponentFor num den = q := by
      rcases hfull with rfl | hfull
      · rw [hexponent]
        omega
      · have hlog' : q + (52 : Nat) ≤ Int.log 2 ((num : ℚ) / den) := by
          rw [← Int.zpow_le_iff_le_log one_lt_two hpos, two_zpow_add]
          exact hfull
        rw [hexponent]
        omega
    have hround := roundQuotient_eq (scaled_den_pos hden q) (by rw [scaled_div]; exact h.nearest)
    rw [round_eq_of_exponent hnum hq hround, if_neg hnormal.below.ne, if_neg (by omega)]
  · -- Only below a power of two does a quotient have one bit less than its number.
    rw [not_or, not_le] at hfull
    obtain ⟨hmin, hless⟩ := hfull
    have hm : m = 2 ^ 52 := by
      rcases hnormal.full with hle | heq
      · by_contra hne
        have hmore : (2 : ℚ) ^ 52 + 1 ≤ m := by exact_mod_cast (by omega : 2 ^ 52 + 1 ≤ m)
        have hlow := h.low
        have hgap := gapBelow_le m q
        nlinarith
      · exact absurd heq hmin
    have hgap : gapBelow m q = 1 / 4 := if_pos ⟨hm, by omega⟩
    have hlow := h.low
    rw [hgap, hm] at hlow
    push_cast at hlow
    have hlog : Int.log 2 ((num : ℚ) / den) < q + (52 : Nat) := by
      rw [← Int.lt_zpow_iff_log_lt one_lt_two hpos, two_zpow_add]
      exact hless
    have hlog' : q + (51 : Nat) ≤ Int.log 2 ((num : ℚ) / den) := by
      rw [← Int.zpow_le_iff_le_log one_lt_two hpos, two_zpow_add]
      nlinarith
    have hq : exponentFor num den = q - 1 := by
      rw [hexponent]
      omega
    have hhalf : (num : ℚ) / den / 2 ^ (q - 1) = 2 * (num / den / 2 ^ q) := by
      rw [zpow_sub₀ two_ne_zero, zpow_one]
      field_simp
    have hnearest : Nearest (2 ^ 53) ((num : ℚ) / den / 2 ^ (q - 1)) := by
      have hl := (le_div_iff₀ hunit).2 hlow
      have hh := (div_lt_iff₀ hunit).2 hless
      rw [hhalf]
      refine ⟨?_, ?_, fun hodd => absurd rfl hodd⟩ <;> push_cast <;> linarith
    rw [← scaled_div] at hnearest
    have hround := roundQuotient_eq (scaled_den_pos hden (q - 1)) hnearest
    rw [round_eq_of_exponent hnum hq hround, if_pos rfl, if_neg (by omega), hm, Int.sub_add_cancel]

/-- Rounding gives a number in its one writing, or an infinity. -/
theorem isNormal_round (negative : Bool) {num den : Nat} (hden : 0 < den) :
    (round negative num den).IsNormal := by
  rcases Nat.eq_zero_or_pos num with rfl | hnum
  · exact ⟨by decide, le_rfl, by decide, .inr rfl⟩
  · have hpos : (0 : ℚ) < num / den := by positivity
    have hexponent := exponentFor_eq hnum hden
    generalize hq : exponentFor num den = q at hexponent
    have hhigh : (scaled num den q).1 / (scaled num den q).2 < 2 ^ 53 := by
      have hlog : Int.log 2 ((num : ℚ) / den) < q + (53 : Nat) := by omega
      rw [← Int.lt_zpow_iff_log_lt one_lt_two hpos, two_zpow_add] at hlog
      rw [scaled_quotient_lt hden]
      exact_mod_cast hlog
    have hlow : q ≠ minExponent → 2 ^ 52 ≤ (scaled num den q).1 / (scaled num den q).2 := by
      intro hne
      have hlog : q + (52 : Nat) ≤ Int.log 2 ((num : ℚ) / den) := by omega
      rw [← Int.zpow_le_iff_le_log one_lt_two hpos, two_zpow_add] at hlog
      rw [← not_lt, scaled_quotient_lt hden, not_lt]
      exact_mod_cast hlog
    have hle := roundQuotient_le (scaled num den q).1 (scaled num den q).2
    have hge := le_roundQuotient (scaled num den q).1 (scaled num den q).2
    rw [round_eq_of_exponent hnum hq rfl]
    split_ifs with hm hmax hmax
    · trivial
    · refine ⟨by decide, ?_, ?_, .inl le_rfl⟩ <;> omega
    · trivial
    · exact ⟨by omega, by omega, by omega, by omega⟩

/-! ### Decimals -/

theorem ten_zpow_le_of_length (digits : Nat) (hdigits : digits ≠ 0) (exponent : Int) :
    (10 : ℚ) ^ ((Text.decimalDigits digits).length - 1 + exponent) ≤ digits * 10 ^ exponent := by
  have hlength := Text.length_decimalDigits_pos digits
  have hle := Text.pow_length_decimalDigits_le hdigits
  have hcast : ((Text.decimalDigits digits).length : Int) - 1 =
      ((Text.decimalDigits digits).length - 1 : Nat) := by omega
  rw [hcast, zpow_add₀ (by norm_num), zpow_natCast]
  gcongr
  exact_mod_cast hle

theorem lt_ten_zpow_of_length (digits : Nat) (exponent : Int) :
    (digits : ℚ) * 10 ^ exponent < 10 ^ ((Text.decimalDigits digits).length + exponent) := by
  have hlt := Text.lt_pow_length_decimalDigits digits
  rw [zpow_add₀ (by norm_num), zpow_natCast]
  gcongr
  exact_mod_cast hlt

theorem two_zpow_lt_ten_zpow : (2 : ℚ) ^ 53 * 2 ^ maxExponent < 10 ^ (400 : Int) := by
  have hpowers : 2 ^ (53 + 971) < 10 ^ 400 := by decide +kernel
  show (2 : ℚ) ^ 53 * 2 ^ ((971 : Nat) : Int) < 10 ^ ((400 : Nat) : Int)
  rw [zpow_natCast, zpow_natCast, ← pow_add]
  exact_mod_cast hpowers

theorem ten_zpow_lt_two_zpow : (10 : ℚ) ^ (-400 : Int) < 1 / 2 * 2 ^ minExponent := by
  have hpowers : 2 ^ (1 + 1074) < 10 ^ 400 := by decide +kernel
  have hcast : (2 : ℚ) ^ (1 + 1074) < 10 ^ 400 := by exact_mod_cast hpowers
  show (10 : ℚ) ^ (-((400 : Nat) : Int)) < 1 / 2 * 2 ^ (-((1074 : Nat) : Int))
  rw [zpow_neg, zpow_neg, zpow_natCast, zpow_natCast, one_div, ← mul_inv, ← pow_succ']
  exact inv_strictAnti₀ (by positivity) (by rwa [Nat.add_comm] at hcast)

/-- A decimal between the middles towards both neighbours of a number is read as this number. -/
theorem ofDecimal_eq {m digits : Nat} {q exponent : Int} (hm : m ≠ 0) (hdigits : digits ≠ 0)
    (hnormal : Normal m q) (h : Rounds m q (digits * 10 ^ exponent)) (negative : Bool) :
    ofDecimal negative digits exponent = finite negative m q := by
  have hlow := ten_zpow_le_of_length digits hdigits exponent
  have hhigh := lt_ten_zpow_of_length digits exponent
  have hunit : (0 : ℚ) < 2 ^ q := by positivity
  have hsmall : ¬400 < ((Text.decimalDigits digits).length : Int) + exponent := by
    intro hgt
    have hbelow : (m : ℚ) + 1 ≤ 2 ^ 53 := by exact_mod_cast hnormal.below
    have hlargest : (2 : ℚ) ^ q ≤ 2 ^ maxExponent :=
      zpow_le_zpow_right₀ one_le_two hnormal.greatest
    have hten : (10 : ℚ) ^ (400 : Int) ≤ 10 ^ ((Text.decimalDigits digits).length - 1 + exponent) :=
      zpow_le_zpow_right₀ (by norm_num) (by omega)
    have hfits := h.high
    have hless : ((m : ℚ) + 1 / 2) * 2 ^ q ≤ 2 ^ 53 * 2 ^ maxExponent :=
      mul_le_mul (by linarith) hlargest hunit.le (by positivity)
    have hbound := two_zpow_lt_ten_zpow
    linarith
  have hlarge : ¬((Text.decimalDigits digits).length : Int) + exponent < -400 := by
    intro hlt
    have hone : (1 : ℚ) ≤ m := by exact_mod_cast Nat.one_le_iff_ne_zero.2 hm
    have hleast : (2 : ℚ) ^ minExponent ≤ 2 ^ q := zpow_le_zpow_right₀ one_le_two hnormal.least
    have hten : (10 : ℚ) ^ ((Text.decimalDigits digits).length + exponent) ≤ 10 ^ (-400 : Int) :=
      zpow_le_zpow_right₀ (by norm_num) (by omega)
    have hfits := h.low
    have hgap := gapBelow_le m q
    have hmore : 1 / 2 * 2 ^ minExponent ≤ ((m : ℚ) - gapBelow m q) * 2 ^ q :=
      mul_le_mul (by linarith) hleast (by positivity) (by linarith)
    have hbound := ten_zpow_lt_two_zpow
    linarith
  unfold ofDecimal
  rw [if_neg hdigits]
  dsimp only
  rw [if_neg hsmall, if_neg hlarge]
  split
  · rename_i hexponent
    obtain ⟨n, rfl⟩ := Int.eq_ofNat_of_zero_le hexponent
    refine round_eq (Nat.mul_pos (Nat.pos_of_ne_zero hdigits) (tenTo_pos n)) one_pos hnormal ?_
      negative
    simpa [tenTo_eq] using h
  · rename_i hexponent
    obtain ⟨n, rfl⟩ : ∃ n : Nat, exponent = -n := ⟨(-exponent).toNat, by omega⟩
    refine round_eq (Nat.pos_of_ne_zero hdigits) (tenTo_pos _) hnormal ?_ negative
    simpa [tenTo_eq, div_eq_mul_inv] using h

theorem isNormal_ofDecimal (negative : Bool) (digits : Nat) (exponent : Int) :
    (ofDecimal negative digits exponent).IsNormal := by
  have hzero : (finite negative 0 minExponent).IsNormal :=
    ⟨by decide, le_rfl, by decide, .inr rfl⟩
  unfold ofDecimal
  split
  · exact hzero
  · dsimp only
    split_ifs
    · trivial
    · exact hzero
    · exact isNormal_round negative one_pos
    · exact isNormal_round negative (tenTo_pos _)

end NatSpec.Binary64
