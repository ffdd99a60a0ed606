import NatSpec.Json.Writer
import NatSpec.Proofs.Decimal.Rounding
import NatSpec.Proofs.Json.Reading
import NatSpec.Proofs.Table.Lookup

/-!
Values within the limits of numbers, and their depth. What the names of an object have to satisfy is
left open: in what is read they are distinct texts. Such a value is accepted as it is, up to the
depth that the reader allows, and refused below it.
-/

namespace NatSpec.Json

open Reader (maxDigits maxNesting Stop)
open Text (decimalDigits)

variable {τ : Type}

/-- A value with numbers in range, all of whose objects have suitable names. -/
inductive Valid (Names : List (Key τ) → Prop) : Json τ → Prop
  | null : Valid Names .null
  | bool (b : Bool) : Valid Names (.bool b)
  | int {i : Int} : (decimalDigits i.natAbs).length ≤ maxDigits → Valid Names (.int i)
  | float {x : Binary64} : x.IsNormal → Valid Names (.float x)
  | str (s : τ) : Valid Names (.str s)
  | arr {vs : List (Json τ)} : (∀ v ∈ vs, Valid Names v) → Valid Names (.arr vs)
  | obj {fields : Fields τ} : Names (Table.keys fields) → (∀ entry ∈ fields, Valid Names entry.2) →
      Valid Names (.obj fields)

/-- Names that are texts, each of which stands once. -/
def TextNames (keys : List (Key τ)) : Prop :=
  ∃ names : List τ, names.Nodup ∧ keys = names.map .text

abbrev Standard : Json τ → Prop :=
  Valid TextNames

theorem Valid.mono {P Q : List (Key τ) → Prop} (h : ∀ keys, P keys → Q keys) {v : Json τ}
    (hv : Valid P v) : Valid Q v := by
  induction hv with
  | null => exact .null
  | bool b => exact .bool b
  | int hi => exact .int hi
  | float hx => exact .float hx
  | str s => exact .str s
  | arr _ ih => exact .arr ih
  | obj hkeys _ ih => exact .obj (h _ hkeys) ih

theorem Valid.items {P : List (Key τ) → Prop} {vs : List (Json τ)} (h : Valid P (.arr vs)) :
    ∀ v ∈ vs, Valid P v := by
  cases h with
  | arr hvs => exact hvs

theorem Valid.names {P : List (Key τ) → Prop} {fields : Fields τ} (h : Valid P (.obj fields)) :
    P (Table.keys fields) := by
  cases h with
  | obj hkeys _ => exact hkeys

theorem Valid.entries {P : List (Key τ) → Prop} {fields : Fields τ} (h : Valid P (.obj fields)) :
    ∀ entry ∈ fields, Valid P entry.2 := by
  cases h with
  | obj _ hfields => exact hfields

mutual

/-- How deep arrays and objects are nested. -/
def depth : Json τ → Nat
  | .arr vs => depthItems vs + 1
  | .obj fields => depthFields fields + 1
  | .null | .bool _ | .int _ | .float _ | .str _ => 0

/-- The greatest depth of the items. -/
def depthItems : List (Json τ) → Nat
  | [] => 0
  | v :: rest => max (depth v) (depthItems rest)

/-- The greatest depth of the values. -/
def depthFields : List (Key τ × Json τ) → Nat
  | [] => 0
  | (_, v) :: rest => max (depth v) (depthFields rest)

end

theorem depthItems_le_iff {vs : List (Json τ)} {n : Nat} :
    depthItems vs ≤ n ↔ ∀ v ∈ vs, v.depth ≤ n := by
  induction vs with
  | nil => simp [depthItems]
  | cons v vs ih => simp [depthItems, ih]

theorem depthFields_le_iff {fields : Fields τ} {n : Nat} :
    depthFields fields ≤ n ↔ ∀ entry ∈ fields, entry.2.depth ≤ n := by
  induction fields with
  | nil => simp [depthFields]
  | cons entry fields ih => simp [depthFields, ih]

theorem depth_arr_le_iff {vs : List (Json τ)} {n : Nat} :
    (arr vs).depth ≤ n + 1 ↔ ∀ v ∈ vs, v.depth ≤ n := by
  rw [depth, Nat.add_le_add_iff_right, depthItems_le_iff]

theorem depth_obj_le_iff {fields : Fields τ} {n : Nat} :
    (obj fields).depth ≤ n + 1 ↔ ∀ entry ∈ fields, entry.2.depth ≤ n := by
  rw [depth, Nat.add_le_add_iff_right, depthFields_le_iff]

/-! ### What is accepted -/

variable [DecidableEq τ]

theorem TextNames.distinct {keys : List (Key τ)} (h : TextNames keys) : Table.Distinct keys := by
  obtain ⟨names, hnames, rfl⟩ := h
  refine List.pairwise_map.2 (hnames.imp fun hne => ?_)
  rw [Key.text_beq, decide_eq_false hne]

mutual

theorem accept_of_standard {v : Json τ} (h : v.Standard) (room : Nat) :
    accept room v = if v.depth ≤ room then .ok v else .error .deepNesting := by
  match v, room with
  | .int i, room =>
      cases h with
      | int hi => rw [accept, acceptInt, if_neg (Nat.not_lt.2 hi)]; rfl
  | .arr vs, 0 => rfl
  | .arr vs, room + 1 =>
      rw [accept, acceptItems_of_standard h.items room]
      simp only [depth, Nat.add_le_add_iff_right]
      split <;> rfl
  | .obj fields, 0 => rfl
  | .obj fields, room + 1 =>
      rw [accept, acceptEntries_of_standard h.entries room]
      simp only [depth, Nat.add_le_add_iff_right]
      split
      · rw [ok_bind, Table.ofList_of_distinct h.names.distinct]
      · rfl
  | .null, _ | .bool _, _ | .float _, _ | .str _, _ => rfl

theorem acceptItems_of_standard {vs : List (Json τ)} (h : ∀ v ∈ vs, v.Standard) (room : Nat) :
    acceptItems room vs = if depthItems vs ≤ room then .ok vs else .error .deepNesting := by
  match vs with
  | [] => rfl
  | v :: rest =>
      rw [acceptItems, accept_of_standard (h v List.mem_cons_self) room,
        acceptItems_of_standard (fun w hw => h w (List.mem_cons_of_mem v hw)) room]
      simp only [depthItems, max_le_iff]
      by_cases hv : v.depth ≤ room <;> by_cases hrest : depthItems rest ≤ room <;>
        simp only [hv, hrest] <;> rfl

theorem acceptEntries_of_standard {fields : List (Key τ × Json τ)}
    (h : ∀ entry ∈ fields, entry.2.Standard) (room : Nat) :
    acceptEntries room fields =
      if depthFields fields ≤ room then .ok fields else .error .deepNesting := by
  match fields with
  | [] => rfl
  | (k, v) :: rest =>
      rw [acceptEntries, accept_of_standard (h (k, v) List.mem_cons_self) room,
        acceptEntries_of_standard (fun entry he => h entry (List.mem_cons_of_mem _ he)) room]
      simp only [depthFields, max_le_iff]
      by_cases hv : v.depth ≤ room <;> by_cases hrest : depthFields rest ≤ room <;>
        simp only [hv, hrest] <;> rfl

end

theorem accepted_of_standard {v : Json τ} (h : v.Standard) :
    accepted v = if v.depth ≤ maxNesting then .ok v else .error .deepNesting := by
  rw [accepted, accept_of_standard h]
  split <;> split <;> simp_all

end NatSpec.Json
