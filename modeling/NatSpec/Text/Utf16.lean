import NatSpec.Text.Utf8

/-!
UTF-16. Each character has one unit or a pair of them. Units in which half a pair stands on its own
are those of no characters; what is read as characters then has the replacement character there.
-/

namespace NatSpec

namespace Text

/-- The character with a number, or the replacement character for the number of half a pair. -/
def character (n : Nat) : Char :=
  if 0xD800 ≤ n ∧ n < 0xE000 then replacement else Char.ofNat n

/-- Whether a unit is the first half of a pair. -/
def isHighUnit (u : UInt16) : Bool := 0xD800 ≤ u.toNat && u.toNat < 0xDC00

/-- Whether a unit is the second half of a pair. -/
def isLowUnit (u : UInt16) : Bool := 0xDC00 ≤ u.toNat && u.toNat < 0xE000

def pairedUnits (high low : UInt16) : Char :=
  Char.ofNat (0x10000 + (high.toNat - 0xD800) * 0x400 + (low.toNat - 0xDC00))

def charUnits (c : Char) : List UInt16 :=
  if c.toNat < 0x10000 then [.ofNat c.toNat]
  else
    let n := c.toNat - 0x10000
    [.ofNat (0xD800 + n / 0x400), .ofNat (0xDC00 + n % 0x400)]

def decodeUnits : List UInt16 → List Char
  | high :: low :: rest =>
    if isHighUnit high && isLowUnit low then pairedUnits high low :: decodeUnits rest
    else character high.toNat :: decodeUnits (low :: rest)
  | [u] => [character u.toNat]
  | [] => []

/-- The bytes of a unit in the name of a file. The second halves of pairs from U+DC80 to U+DCFF stand
for the bytes that are part of no character; other halves have none. -/
def nameByte? (u : UInt16) : Option (List UInt8) :=
  if 0xDC80 ≤ u.toNat ∧ u.toNat < 0xDD00 then some [.ofNat (u.toNat - 0xDC00)]
  else if isHighUnit u || isLowUnit u then none
  else some (String.utf8EncodeChar (character u.toNat))

/-- The bytes of units in the name of a file. -/
def nameBytes? : List UInt16 → Option (List UInt8)
  | high :: low :: rest =>
    if isHighUnit high && isLowUnit low then
      (nameBytes? rest).map (String.utf8EncodeChar (pairedUnits high low) ++ ·)
    else do
      let bytes ← nameByte? high
      let others ← nameBytes? (low :: rest)
      some (bytes ++ others)
  | [u] => nameByte? u
  | [] => some []

/-- The number of a character is below the limit and is not that of half a pair. -/
theorem toNat_bounds (c : Char) :
    c.toNat < 0xD800 ∨ 0xE000 ≤ c.toNat ∧ c.toNat < 0x110000 := by
  have h := c.valid
  simp only [UInt32.isValidChar, Nat.isValidChar] at h
  change c.toNat < 0xD800 ∨ 0xDFFF < c.toNat ∧ c.toNat < 0x110000 at h
  omega

theorem character_toNat (c : Char) : character c.toNat = c := by
  have h := toNat_bounds c
  rw [character, if_neg (by omega), Char.ofNat_toNat]

theorem pairedUnits_eq {n : Nat} (hlow : 0x10000 ≤ n) (hhigh : n < 0x110000) :
    pairedUnits (.ofNat (0xD800 + (n - 0x10000) / 0x400))
      (.ofNat (0xDC00 + (n - 0x10000) % 0x400)) = Char.ofNat n := by
  have hsum : 0x10000 + (0xD800 + (n - 0x10000) / 0x400 - 0xD800) * 0x400 +
      (0xDC00 + (n - 0x10000) % 0x400 - 0xDC00) = n := by omega
  rw [pairedUnits, UInt16.toNat_ofNat', UInt16.toNat_ofNat', Nat.mod_eq_of_lt (by omega),
    Nat.mod_eq_of_lt (by omega), hsum]

/-- The units of a character are read as the character, whatever follows them. -/
theorem decodeUnits_charUnits (c : Char) (rest : List UInt16) :
    decodeUnits (charUnits c ++ rest) = c :: decodeUnits rest := by
  have hbounds := toNat_bounds c
  unfold charUnits
  split
  · rename_i hsmall
    have hunit : (UInt16.ofNat c.toNat).toNat = c.toNat := by
      rw [UInt16.toNat_ofNat', Nat.mod_eq_of_lt hsmall]
    cases rest with
    | nil => rw [List.append_nil, decodeUnits, hunit, character_toNat, decodeUnits]
    | cons low rest =>
        have hhigh : isHighUnit (.ofNat c.toNat) = false := by
          rw [isHighUnit, hunit]
          simp
          omega
        rw [List.singleton_append, decodeUnits, hhigh, hunit, character_toNat]
        rfl
  · rename_i hlarge
    have hhigh : isHighUnit (.ofNat (0xD800 + (c.toNat - 0x10000) / 0x400)) = true := by
      rw [isHighUnit, UInt16.toNat_ofNat', Nat.mod_eq_of_lt (by omega)]
      simp
      omega
    have hlow : isLowUnit (.ofNat (0xDC00 + (c.toNat - 0x10000) % 0x400)) = true := by
      rw [isLowUnit, UInt16.toNat_ofNat', Nat.mod_eq_of_lt (by omega)]
      simp
      omega
    have hpair := pairedUnits_eq (n := c.toNat) (by omega) (by omega)
    rw [Char.ofNat_toNat] at hpair
    simp only [List.cons_append, List.nil_append]
    rw [decodeUnits, hhigh, hlow, hpair]
    rfl

theorem decodeUnits_flatMap (cs : List Char) : decodeUnits (cs.flatMap charUnits) = cs := by
  induction cs with
  | nil => rfl
  | cons c cs ih => rw [List.flatMap_cons, decodeUnits_charUnits, ih]

end Text

/-- A text that may hold half a pair of units on its own. -/
structure Utf16 where
  units : List UInt16
  deriving DecidableEq, Repr, Inhabited

namespace Utf16

def ofString (s : String) : Utf16 :=
  ⟨s.toList.flatMap Text.charUnits⟩

instance : Coe String Utf16 := ⟨ofString⟩

/-- The string with the same units, which there is unless half a pair stands on its own. -/
def toString? (w : Utf16) : Option String :=
  let s := String.ofList (Text.decodeUnits w.units)
  if ofString s = w then some s else none

theorem toString?_eq_some_iff {w : Utf16} {s : String} : w.toString? = some s ↔ w = ofString s := by
  rw [toString?]
  constructor
  · intro h
    split at h
    · rename_i heq
      rw [← Option.some.inj h, heq]
    · cases h
  · rintro rfl
    have hdecode : String.ofList (Text.decodeUnits (ofString s).units) = s := by
      rw [ofString, Text.decodeUnits_flatMap, String.ofList_toList]
    simp only [hdecode, if_true]

end Utf16

/-- Types of texts that can be made of any units and are made again of their own. -/
class IsText (τ : Type) where
  ofUnits : List UInt16 → τ
  units : τ → List UInt16
  ofString : String → τ
  ofUnits_units (s : τ) : ofUnits (units s) = s
  units_ofString (s : String) : units (ofString s) = s.toList.flatMap Text.charUnits

/-- A string made of half a pair has the replacement character. -/
instance : IsText String where
  ofUnits units := String.ofList (Text.decodeUnits units)
  units s := s.toList.flatMap Text.charUnits
  ofString s := s
  ofUnits_units s := by rw [Text.decodeUnits_flatMap, String.ofList_toList]
  units_ofString _ := rfl

instance : IsText Utf16 where
  ofUnits := Utf16.mk
  units := Utf16.units
  ofString := Utf16.ofString
  ofUnits_units _ := rfl
  units_ofString _ := rfl

end NatSpec
