import Mathlib.Data.List.TakeWhile
import NatSpec.Proofs.Json.Valid

/-!
What is read. The values of the reader are standard: their numbers are in range, and the names in
their objects are distinct texts. None of them is nested deeper than the reader allows.
-/

namespace NatSpec.Json

open Reader (value items entries scalar unsignedNumber numberFrom digits maxDigits maxNesting)
open Text (decimalDigits decimalNumber)

variable {τ : Type}

/-! ### Numbers -/

theorem standard_numberFrom {negative : Bool} {whole cs rest : List Char} {v : Json τ}
    (hne : whole ≠ []) (hwhole : ∀ d ∈ whole, d.isDigit = true)
    (h : numberFrom negative whole cs = .ok (v, rest)) : v.Standard ∧ v.depth = 0 := by
  unfold numberFrom at h
  dsimp only at h
  split at h
  · split at h
    · cases h
    · rename_i hlength
      obtain ⟨rfl, -⟩ := Prod.mk.inj (Except.ok.inj h)
      refine ⟨.int ?_, rfl⟩
      have hdigits : (decimalDigits (decimalNumber whole)).length ≤ whole.length :=
        (Text.length_decimalDigits_le_iff (List.length_pos_iff.2 hne)).2
          (Text.decimalNumber_lt hwhole)
      have habs : (if negative = true then -(decimalNumber whole : Int)
          else (decimalNumber whole : Int)).natAbs = decimalNumber whole := by
        split <;> simp
      rw [habs]
      omega
  · obtain ⟨rfl, -⟩ := Prod.mk.inj (Except.ok.inj h)
    exact ⟨.float (Binary64.isNormal_ofDecimal ..), rfl⟩

theorem standard_unsignedNumber {start cs rest : List Char} {negative : Bool} {v : Json τ}
    (h : unsignedNumber start negative cs = .ok (v, rest)) : v.Standard ∧ v.depth = 0 := by
  unfold unsignedNumber at h
  split at h
  · exact standard_numberFrom (by simp) (by simp) h
  · split at h
    · rename_i d _ _ hd
      refine standard_numberFrom (by simp) (List.forall_mem_cons.2 ⟨hd, ?_⟩) h
      exact fun e he => List.mem_takeWhile_imp he
    · cases h
  · cases h

theorem standard_scalar {cs rest : List Char} {v : Json τ} (h : scalar cs = .ok (v, rest)) :
    v.Standard ∧ v.depth = 0 := by
  unfold scalar at h
  split at h
  case h_7 | h_8 => exact standard_unsignedNumber h
  all_goals obtain ⟨rfl, -⟩ := Prod.mk.inj (Except.ok.inj h)
  case h_1 => exact ⟨.null, rfl⟩
  case h_2 | h_3 => exact ⟨.bool _, rfl⟩
  all_goals exact ⟨.float (by simp [Binary64.IsNormal]), rfl⟩

/-! ### Values -/

variable [DecidableEq τ]

theorem textNames_of_distinct {keys : List (Key τ)} (htexts : ∀ k ∈ keys, ∃ s, k = .text s)
    (hdistinct : Table.Distinct keys) : TextNames keys := by
  obtain ⟨names, rfl⟩ : ∃ names : List τ, names.map Key.text = keys := by
    clear hdistinct
    induction keys with
    | nil => exact ⟨[], rfl⟩
    | cons k keys ih =>
        obtain ⟨⟨s, rfl⟩, hrest⟩ := List.forall_mem_cons.1 htexts
        obtain ⟨names, rfl⟩ := ih hrest
        exact ⟨s :: names, rfl⟩
  refine ⟨names, (List.pairwise_map.1 hdistinct).imp fun hne => ?_, rfl⟩
  rwa [Key.text_beq, decide_eq_false_iff_not] at hne

variable [IsText τ]

mutual

theorem standard_value {fuel room : Nat} {cs rest : List Char} {v : Json τ}
    (h : value fuel room cs = .ok (v, rest)) : v.Standard ∧ v.depth ≤ room := by
  match fuel with
  | 0 => cases h
  | fuel + 1 =>
      unfold value at h
      split at h
      · obtain ⟨⟨s, after⟩, -, h⟩ := bind_eq_ok_iff.1 h
        obtain ⟨rfl, -⟩ := Prod.mk.inj (Except.ok.inj h)
        exact ⟨.str _, Nat.zero_le room⟩
      · split at h
        · cases h
        · split at h
          · obtain ⟨rfl, -⟩ := Prod.mk.inj (Except.ok.inj h)
            exact ⟨.arr (by simp), Nat.le_add_left 1 _⟩
          · obtain ⟨⟨vs, after⟩, hvs, h⟩ := bind_eq_ok_iff.1 h
            obtain ⟨rfl, -⟩ := Prod.mk.inj (Except.ok.inj h)
            have hitems := standard_items hvs
            exact ⟨.arr fun v hv => (hitems v hv).1,
              depth_arr_le_iff.2 fun v hv => (hitems v hv).2⟩
      · split at h
        · cases h
        · split at h
          · obtain ⟨rfl, -⟩ := Prod.mk.inj (Except.ok.inj h)
            exact ⟨.obj ⟨[], List.nodup_nil, rfl⟩ (by simp), Nat.le_add_left 1 _⟩
          · obtain ⟨⟨fields, after⟩, hfields, h⟩ := bind_eq_ok_iff.1 h
            obtain ⟨rfl, -⟩ := Prod.mk.inj (Except.ok.inj h)
            have hentries := Table.forall_mem_ofList (P := fun k : Key τ => ∃ s, k = .text s)
              (Q := fun v : Json τ => v.Standard ∧ v.depth ≤ _) (standard_entries hfields)
            exact ⟨.obj (textNames_of_distinct (List.forall_mem_map.2 fun e he =>
                (hentries e he).1) (Table.distinct_keys_ofList fields))
              fun e he => (hentries e he).2.1, depth_obj_le_iff.2 fun e he => (hentries e he).2.2⟩
      · obtain ⟨hv, hdepth⟩ := standard_scalar h
        exact ⟨hv, hdepth ▸ Nat.zero_le room⟩

theorem standard_items {fuel room : Nat} {cs rest : List Char} {vs : List (Json τ)}
    (h : items fuel room cs = .ok (vs, rest)) : ∀ v ∈ vs, v.Standard ∧ v.depth ≤ room := by
  match fuel with
  | 0 => cases h
  | fuel + 1 =>
      unfold items at h
      obtain ⟨⟨v, behind⟩, hv, h⟩ := bind_eq_ok_iff.1 h
      have hitem := standard_value hv
      dsimp only at h
      split at h
      · obtain ⟨rfl, -⟩ := Prod.mk.inj (Except.ok.inj h)
        simpa using hitem
      · obtain ⟨⟨others, after⟩, hothers, h⟩ := bind_eq_ok_iff.1 h
        obtain ⟨rfl, -⟩ := Prod.mk.inj (Except.ok.inj h)
        exact List.forall_mem_cons.2 ⟨hitem, standard_items hothers⟩
      · cases h

theorem standard_entries {fuel room : Nat} {cs rest : List Char} {fields : Fields τ}
    (h : entries fuel room cs = .ok (fields, rest)) :
    ∀ entry ∈ fields, (∃ s, entry.1 = .text s) ∧ entry.2.Standard ∧ entry.2.depth ≤ room := by
  match fuel with
  | 0 => cases h
  | fuel + 1 =>
      unfold entries at h
      split at h
      · obtain ⟨⟨name, named⟩, -, h⟩ := bind_eq_ok_iff.1 h
        dsimp only at h
        split at h
        · obtain ⟨⟨v, behind⟩, hv, h⟩ := bind_eq_ok_iff.1 h
          have hentry := standard_value hv
          dsimp only at h
          split at h
          · obtain ⟨rfl, -⟩ := Prod.mk.inj (Except.ok.inj h)
            simpa using hentry
          · obtain ⟨⟨others, after⟩, hothers, h⟩ := bind_eq_ok_iff.1 h
            obtain ⟨rfl, -⟩ := Prod.mk.inj (Except.ok.inj h)
            exact List.forall_mem_cons.2 ⟨⟨⟨_, rfl⟩, hentry⟩, standard_entries hothers⟩
          · cases h
        · cases h
      · cases h

end

/-- What is read is standard, and nested no deeper than the reader allows. -/
theorem standard_of_read {text : String} {v : Json τ} (h : read text = .ok v) :
    v.Standard ∧ v.depth ≤ maxNesting := by
  unfold read at h
  dsimp only at h
  split at h
  · rename_i hdocument
    obtain rfl := Except.ok.inj h
    unfold Reader.document at hdocument
    split at hdocument
    · cases hdocument
    · obtain ⟨⟨found, rest⟩, hfound, hrest⟩ := bind_eq_ok_iff.1 hdocument
      dsimp only at hrest
      split at hrest
      · obtain rfl := Except.ok.inj hrest
        exact standard_value hfound
      · cases hrest
  all_goals cases h

end NatSpec.Json
