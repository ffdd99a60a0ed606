import Mathlib.Data.List.Basic
import Mathlib.Tactic.IntervalCases
import NatSpec.Text.Digits

/-!
Digits that are written are read back as the same number. The digits of a whole number have no zero
in front of others, so each number is written in one way only.
-/

namespace NatSpec.Text

/-! ### Decimal digits -/

/-- Decimal digits, at least one. -/
structure IsDigits (ds : List Char) : Prop where
  nonempty : ds ≠ []
  digits : ∀ d ∈ ds, d.isDigit = true

/-- The digits of a whole number: no zero stands in front of others. -/
structure IsWhole (ds : List Char) : Prop extends IsDigits ds where
  noZero : ds.head? = some '0' → ds = ['0']

theorem isDigit_iff {d : Char} : d.isDigit = true ↔ 48 ≤ d.toNat ∧ d.toNat ≤ 57 := by
  simp only [Char.isDigit, Bool.and_eq_true, decide_eq_true_eq, UInt32.le_iff_toNat_le]
  rfl

theorem digitChar_eq_zero_iff {n : Nat} (h : n < 10) : n.digitChar = '0' ↔ n = 0 := by
  interval_cases n <;> decide

theorem decimalNumber_eq (ds : List Char) : decimalNumber ds = Nat.ofDigitChars 10 ds 0 := rfl

theorem decimalNumber_append (ds es : List Char) :
    decimalNumber (ds ++ es) = 10 ^ es.length * decimalNumber ds + decimalNumber es := by
  rw [decimalNumber_eq, Nat.ofDigitChars_append, Nat.ofDigitChars_eq_ofDigitChars_zero]
  rfl

theorem decimalNumber_lt {ds : List Char} (h : ∀ d ∈ ds, d.isDigit = true) :
    decimalNumber ds < 10 ^ ds.length := by
  induction ds with
  | nil => decide
  | cons d ds ih =>
      have hd := isDigit_iff.1 (h d List.mem_cons_self)
      have hds := ih fun e he => h e (List.mem_cons_of_mem d he)
      have hfirst : decimalNumber [d] ≤ 9 := by
        simp only [decimalNumber, List.foldl_cons, List.foldl_nil, digitValue]
        omega
      have hshift := Nat.mul_le_mul_left (10 ^ ds.length) hfirst
      rw [← List.singleton_append, decimalNumber_append, List.length_append, pow_add]
      simp only [List.length_singleton, pow_one]
      omega

theorem decimalNumber_zeros (k : Nat) : decimalNumber (List.replicate k '0') = 0 :=
  Nat.ofDigitChars_replicate_zero ..

theorem decimalNumber_decimalDigits (n : Nat) : decimalNumber (decimalDigits n) = n :=
  Nat.ofDigitChars_ten_toDigits

theorem decimalDigits_step (n : Nat) :
    decimalDigits n = if n < 10 then [n.digitChar] else
      decimalDigits (n / 10) ++ [(n % 10).digitChar] :=
  Nat.toDigits_eq_if (by decide)

theorem isDigits_decimalDigits (n : Nat) : IsDigits (decimalDigits n) where
  nonempty := Nat.toDigits_ne_nil
  digits _ hd := Nat.isDigit_of_mem_toDigits (by decide) (by decide) hd

theorem head?_decimalDigits {n : Nat} (h : n ≠ 0) : (decimalDigits n).head? ≠ some '0' := by
  induction n using Nat.strongRecOn with
  | ind n ih =>
      rw [decimalDigits_step]
      split
      · rename_i hlt
        intro hhead
        exact h ((digitChar_eq_zero_iff hlt).1 (Option.some.inj hhead))
      · rename_i hge
        have hne : decimalDigits (n / 10) ≠ [] := (isDigits_decimalDigits _).nonempty
        rw [List.head?_append_of_ne_nil _ hne]
        exact ih (n / 10) (by omega) (by omega)

theorem isWhole_decimalDigits (n : Nat) : IsWhole (decimalDigits n) where
  toIsDigits := isDigits_decimalDigits n
  noZero := by
    intro h
    by_cases hn : n = 0
    · rw [hn]
      rfl
    · exact absurd h (head?_decimalDigits hn)

theorem length_decimalDigits_le_iff {n k : Nat} (hk : 0 < k) :
    (decimalDigits n).length ≤ k ↔ n < 10 ^ k :=
  Nat.length_toDigits_le_iff (by decide) hk

theorem length_decimalDigits_pos (n : Nat) : 0 < (decimalDigits n).length :=
  List.length_pos_iff.2 Nat.toDigits_ne_nil

theorem lt_pow_length_decimalDigits (n : Nat) : n < 10 ^ (decimalDigits n).length :=
  (length_decimalDigits_le_iff (length_decimalDigits_pos n)).1 le_rfl

theorem pow_length_decimalDigits_le {n : Nat} (h : n ≠ 0) :
    10 ^ ((decimalDigits n).length - 1) ≤ n := by
  have hpos := length_decimalDigits_pos n
  by_contra hlt
  rw [not_le] at hlt
  by_cases hone : (decimalDigits n).length = 1
  · rw [hone, Nat.sub_self, pow_zero] at hlt
    omega
  · have := (length_decimalDigits_le_iff (by omega)).2 hlt
    omega

/-! ### Hexadecimal digits -/

theorem hexValue?_hexDigit {n : Nat} (h : n < 16) : hexValue? (hexDigit n) = some n := by
  interval_cases n <;> rfl

/-- The last digits of a number are read as its remainder. -/
theorem hexNumber?_hexDigits (width n : Nat) :
    hexNumber? (hexDigits width n) = some (n % 16 ^ width) := by
  induction width generalizing n with
  | zero => rw [pow_zero, Nat.mod_one]; rfl
  | succ width ih =>
      have hlast : n % 16 < 16 := Nat.mod_lt _ (by decide)
      have hwhole : n % 16 ^ (width + 1) = 16 * (n / 16 % 16 ^ width) + n % 16 := by
        rw [pow_succ', Nat.mod_mul]
        omega
      unfold hexNumber? at ih ⊢
      rw [hexDigits, List.foldlM_append, ih]
      simp [hexValue?_hexDigit hlast, hwhole]

theorem hexValue?_ne_none_of_mem {cs : List Char} {n : Nat} (h : hexNumber? cs = some n) {c : Char}
    (hc : c ∈ cs) : hexValue? c ≠ none := by
  unfold hexNumber? at h
  generalize 0 = start at h
  induction cs generalizing start with
  | nil => cases hc
  | cons d cs ih =>
      rw [List.foldlM_cons] at h
      obtain ⟨next, hnext, h⟩ := Option.bind_eq_some_iff.1 h
      rcases List.mem_cons.1 hc with rfl | hc
      · obtain ⟨value, hvalue, -⟩ := Option.map_eq_some_iff.1 hnext
        rw [hvalue]
        exact Option.some_ne_none value
      · exact ih hc next h

end NatSpec.Text
