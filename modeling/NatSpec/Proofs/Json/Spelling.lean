import NatSpec.Json.Reader
import NatSpec.Proofs.Text.Digits

/-!
The spellings of JSON values, beside the reader and the writer. A character of a string stands for
itself or is escaped by a letter, and each of its UTF-16 units may be escaped by its number. Blanks
may stand around the commas and colons of arrays and objects and inside empty ones.
-/

namespace NatSpec.Json

open Reader (shortEscape?)
open Text (IsDigits IsWhole charUnits hexNumber? decimalNumber signedDecimal)

/-! ### Strings -/

/-- The spellings of a character or a single unit inside a string. -/
inductive SpellsUnits : List Char → List UInt16 → Prop
  | plain {c : Char} : c ≠ '\x22' → c ≠ '\\' → 0x20 ≤ c.toNat → SpellsUnits [c] (charUnits c)
  | short {e c : Char} : shortEscape? e = some c → SpellsUnits ['\\', e] (charUnits c)
  | number {d₁ d₂ d₃ d₄ : Char} {n : Nat} : hexNumber? [d₁, d₂, d₃, d₄] = some n →
      SpellsUnits ['\\', 'u', d₁, d₂, d₃, d₄] [.ofNat n]

/-- The spellings of the units of a string. -/
inductive SpellsText : List Char → List UInt16 → Prop
  | nil : SpellsText [] []
  | cons {cs text : List Char} {us rest : List UInt16} : SpellsUnits cs us → SpellsText text rest →
      SpellsText (cs ++ text) (us ++ rest)

variable {τ : Type} [IsText τ]

inductive SpellsString : List Char → τ → Prop
  | quoted {text : List Char} {s : τ} : SpellsText text (IsText.units s) →
      SpellsString ('\x22' :: text ++ ['\x22']) s

/-! ### Numbers -/

/-- A minus sign or none. -/
def sign (negative : Bool) : List Char :=
  if negative then ['-'] else []

/-- The parts of an unsigned number with decimals or a power of ten, which has a sign of its own. -/
structure Scientific where
  whole : List Char
  decimals : List Char
  power : Option (Bool × List Char)

namespace Scientific

/-- Decimals behind their point, if there are any. -/
def point : List Char → List Char
  | [] => []
  | ds => '.' :: ds

/-- A power of ten behind its letter, if there is one. -/
def tail : Option (Bool × List Char) → List Char
  | none => []
  | some (negative, ds) => 'e' :: (if negative then '-' else '+') :: ds

def chars (n : Scientific) : List Char :=
  n.whole ++ point n.decimals ++ tail n.power

/-- The power of ten by which the digits are multiplied. -/
def exponent (n : Scientific) : Int :=
  let shown : Int := match n.power with
    | none => 0
    | some (true, ds) => -decimalNumber ds
    | some (false, ds) => decimalNumber ds
  shown - n.decimals.length

def value (n : Scientific) (negative : Bool) : Binary64 :=
  .ofDecimal negative (decimalNumber (n.whole ++ n.decimals)) n.exponent

structure WellFormed (n : Scientific) : Prop where
  whole : IsWhole n.whole
  decimals : ∀ d ∈ n.decimals, d.isDigit = true
  power : ∀ p, n.power = some p → IsDigits p.2
  /-- Decimals or a power of ten tell the number from a whole one. -/
  marked : n.decimals ≠ [] ∨ n.power ≠ none

end Scientific

/-- The spellings of a number that is not written as a whole one. -/
inductive SpellsFloat : List Char → Binary64 → Prop
  | nan : SpellsFloat ['N', 'a', 'N'] .nan
  | infinity (negative : Bool) : SpellsFloat
      (sign negative ++ ['I', 'n', 'f', 'i', 'n', 'i', 't', 'y']) (.infinity negative)
  | finite (negative : Bool) {n : Scientific} : n.WellFormed →
      SpellsFloat (sign negative ++ n.chars) (n.value negative)

/-- The characters of numbers that are no digits. -/
def numberMarks : List Char :=
  ['-', '+', '.', 'e', 'N', 'a', 'I', 'n', 'f', 'i', 't', 'y']

theorem mem_sign {negative : Bool} {c : Char} (h : c ∈ sign negative) : c = '-' := by
  cases negative with
  | true => exact List.mem_singleton.1 h
  | false => cases h

theorem SpellsFloat.mem {cs : List Char} {x : Binary64} (h : SpellsFloat cs x) {c : Char}
    (hc : c ∈ cs) : c.isDigit = true ∨ c ∈ numberMarks := by
  cases h with
  | nan => exact .inr ((by decide : ['N', 'a', 'N'] ⊆ numberMarks) hc)
  | infinity negative =>
      rcases List.mem_append.1 hc with hc | hc
      · exact .inr (mem_sign hc ▸ by decide)
      · exact .inr ((by decide : ['I', 'n', 'f', 'i', 'n', 'i', 't', 'y'] ⊆ numberMarks) hc)
  | @finite negative n hn =>
      rcases List.mem_append.1 hc with hc | hc
      · exact .inr (mem_sign hc ▸ by decide)
      rcases List.mem_append.1 hc with hc | hc
      · rcases List.mem_append.1 hc with hc | hc
        · exact .inl (hn.whole.digits c hc)
        · cases hdecimals : n.decimals with
          | nil =>
              rw [hdecimals] at hc
              cases hc
          | cons d ds =>
              rw [hdecimals] at hc
              rcases List.mem_cons.1 hc with rfl | hc
              · exact .inr (by decide)
              · exact .inl (hn.decimals c (hdecimals ▸ hc))
      · cases hpower : n.power with
        | none =>
            rw [hpower] at hc
            cases hc
        | some p =>
            rw [hpower] at hc
            rcases List.mem_cons.1 hc with rfl | hc
            · exact .inr (by decide)
            rcases List.mem_cons.1 hc with rfl | hc
            · cases p.1 <;> exact .inr (by decide)
            · exact .inl ((hn.power p hpower).digits c hc)

/-! ### Values -/

/-- Whether a character may stand between the parts of a value. -/
def IsBlank (c : Char) : Prop :=
  c = ' ' ∨ c = '\t' ∨ c = '\n' ∨ c = '\r'

/-- Characters that may stand between the parts of a value. -/
def Blanks (cs : List Char) : Prop :=
  ∀ c ∈ cs, IsBlank c

mutual

/-- The spellings of a value. An object is given by its entries, names repeated or not. -/
inductive Spells : List Char → Json τ → Prop
  | null : Spells ['n', 'u', 'l', 'l'] .null
  | true : Spells ['t', 'r', 'u', 'e'] (.bool true)
  | false : Spells ['f', 'a', 'l', 's', 'e'] (.bool false)
  | int (i : Int) : Spells (signedDecimal i).toList (.int i)
  | float {cs : List Char} {x : Binary64} : SpellsFloat cs x → Spells cs (.float x)
  | str {cs : List Char} {s : τ} : SpellsString cs s → Spells cs (.str s)
  | noItems {inside : List Char} : Blanks inside → Spells ('[' :: inside ++ [']']) (.arr [])
  | arr {start cs : List Char} {vs : List (Json τ)} : Blanks start → SpellsItems cs vs →
      Spells ('[' :: start ++ cs) (.arr vs)
  | noFields {inside : List Char} : Blanks inside →
      Spells ('\x7b' :: inside ++ ['\x7d']) (.obj [])
  | obj {start cs : List Char} {fields : Fields τ} : Blanks start → SpellsEntries cs fields →
      Spells ('\x7b' :: start ++ cs) (.obj fields)

/-- The spellings of the items of an array up to its closing bracket. -/
inductive SpellsItems : List Char → List (Json τ) → Prop
  | last {cs behind : List Char} {v : Json τ} : Spells cs v → Blanks behind →
      SpellsItems (cs ++ behind ++ [']']) [v]
  | more {cs behind before rest : List Char} {v : Json τ} {vs : List (Json τ)} : Spells cs v →
      Blanks behind → Blanks before → SpellsItems rest vs →
      SpellsItems (cs ++ behind ++ ',' :: before ++ rest) (v :: vs)

/-- The spellings of the entries of an object up to its closing brace. -/
inductive SpellsEntries : List Char → Fields τ → Prop
  | last {name between around cs behind : List Char} {key : τ} {v : Json τ} :
      SpellsString name key → Blanks between → Blanks around → Spells cs v → Blanks behind →
      SpellsEntries (name ++ between ++ ':' :: around ++ cs ++ behind ++ ['\x7d'])
        [(.text key, v)]
  | more {name between around cs behind before rest : List Char} {key : τ} {v : Json τ}
      {fields : Fields τ} :
      SpellsString name key → Blanks between → Blanks around → Spells cs v → Blanks behind →
      Blanks before → SpellsEntries rest fields →
      SpellsEntries (name ++ between ++ ':' :: around ++ cs ++ behind ++ ',' :: before ++ rest)
        ((.text key, v) :: fields)

end

end NatSpec.Json
