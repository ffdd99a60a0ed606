import NatSpec.Json.Basic

/-!
Equality of values. Values are the same if a pass over both of them meets no difference; names of
fields have to be written alike, and fields to stand in one order.
-/

namespace NatSpec.Json

deriving instance DecidableEq for Key

variable {τ : Type} [DecidableEq τ]

mutual

def same : Json τ → Json τ → Bool
  | .null, .null => true
  | .bool a, .bool b => a = b
  | .int i, .int j => i = j
  | .float x, .float y => x = y
  | .str s, .str t => s = t
  | .arr vs, .arr ws => sameItems vs ws
  | .obj fields, .obj others => sameFields fields others
  | _, _ => false

def sameItems : List (Json τ) → List (Json τ) → Bool
  | [], [] => true
  | v :: vs, w :: ws => same v w && sameItems vs ws
  | _, _ => false

def sameFields : List (Key τ × Json τ) → List (Key τ × Json τ) → Bool
  | [], [] => true
  | (a, v) :: fields, (b, w) :: others => a = b && same v w && sameFields fields others
  | _, _ => false

end

mutual

theorem same_iff {v w : Json τ} : same v w = true ↔ v = w := by
  match v, w with
  | .arr vs, .arr ws => rw [same, sameItems_iff, Json.arr.injEq]
  | .obj fields, .obj others => rw [same, sameFields_iff, Json.obj.injEq]
  | .null, w | .bool _, w | .int _, w | .float _, w | .str _, w => cases w <;> simp [same]
  | .arr _, .null | .arr _, .bool _ | .arr _, .int _ | .arr _, .float _ | .arr _, .str _
  | .arr _, .obj _ | .obj _, .null | .obj _, .bool _ | .obj _, .int _ | .obj _, .float _
  | .obj _, .str _ | .obj _, .arr _ => simp [same]

theorem sameItems_iff {vs ws : List (Json τ)} : sameItems vs ws = true ↔ vs = ws := by
  match vs, ws with
  | v :: vs, w :: ws =>
      rw [sameItems, Bool.and_eq_true, same_iff, sameItems_iff, List.cons.injEq]
  | [], [] | [], _ :: _ | _ :: _, [] => simp [sameItems]

theorem sameFields_iff {fields others : List (Key τ × Json τ)} :
    sameFields fields others = true ↔ fields = others := by
  match fields, others with
  | (a, v) :: fields, (b, w) :: others =>
      rw [sameFields, Bool.and_eq_true, Bool.and_eq_true, decide_eq_true_iff, same_iff,
        sameFields_iff, List.cons.injEq, Prod.mk.injEq]
  | [], [] | [], _ :: _ | _ :: _, [] => simp [sameFields]

end

instance : DecidableEq (Json τ) := fun _ _ => decidable_of_iff _ same_iff

end NatSpec.Json
