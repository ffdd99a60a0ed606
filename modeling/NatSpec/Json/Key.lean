import NatSpec.Decimal.Binary64
import NatSpec.Text.Utf16

/-!
The names of fields. A name in JSON is a text. A field that a pair sets may have any scalar as its
name, and then names of one value are one name: truth values count as the numbers zero and one,
and a number written with a point as the whole number that it equals, if there is one. A name
is never the same as a text that only looks like it.
-/

namespace NatSpec.Json

inductive Key (τ : Type := String)
  | text (s : τ)
  | null
  | bool (b : Bool)
  | int (i : Int)
  | float (x : Binary64)
  deriving Repr, Inhabited

namespace Key

inductive Value (τ : Type)
  | text (s : τ)
  | null
  | whole (i : Int)
  | fraction (x : Binary64)
  deriving DecidableEq, Repr

variable {τ : Type}

/-- What a name stands for; two names are the same if they stand for the same. -/
def value : Key τ → Value τ
  | text s => .text s
  | null => .null
  | bool b => .whole (cond b 1 0)
  | int i => .whole i
  | float x =>
    match x.whole? with
    | some i => .whole i
    | none => .fraction x

instance [IsText τ] : Coe String (Key τ) := ⟨fun s => text (IsText.ofString s)⟩

instance : Coe String Key := ⟨text⟩

section

variable [DecidableEq τ]

instance : BEq (Key τ) := ⟨fun a b => decide (a.value = b.value)⟩

theorem beq_iff {a b : Key τ} : (a == b) = true ↔ a.value = b.value :=
  decide_eq_true_iff

instance : EquivBEq (Key τ) where
  rfl := beq_iff.2 rfl
  symm h := beq_iff.2 (beq_iff.1 h).symm
  trans h k := beq_iff.2 ((beq_iff.1 h).trans (beq_iff.1 k))

theorem text_beq (s t : τ) : (text s == text t) = decide (s = t) := by
  simp [BEq.beq, value]

end

def asText? : Key τ → Option τ
  | text s => some s
  | _ => none

end Key

end NatSpec.Json
