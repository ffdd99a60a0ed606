/-!
Punycode: a text as ASCII letters and digits. The ASCII characters of the text come first; behind
them stand, in increasing order of the other characters, the distances from one place of insertion to
the next, each a number of digits to the base 36 with thresholds that follow the size of the
distances so far.
-/

namespace NatSpec.Punycode

def digit (n : Nat) : Char :=
  if n < 26 then Char.ofNat (97 + n) else Char.ofNat (22 + n)

/-- The digit below which a number ends at a place. -/
def threshold (bias place : Nat) : Nat :=
  if place ≤ bias then 1 else min 26 (place - bias)

theorem threshold_pos (bias place : Nat) : 0 < threshold bias place := by
  unfold threshold
  split <;> omega

/-- The digits of a number, the lowest first. -/
def digits (bias place n : Nat) : List Char :=
  let t := threshold bias place
  if n < t then [digit n]
  else digit (t + (n - t) % (36 - t)) :: digits bias (place + 36) ((n - t) / (36 - t))
termination_by n
decreasing_by
  have := threshold_pos bias place
  exact Nat.lt_of_le_of_lt (Nat.div_le_self _ _) (by omega)

/-- A distance brought down to the range of one digit, and the places that this takes. -/
def settle (distance places : Nat) : Nat × Nat :=
  if 455 < distance then settle (distance / 35) (places + 36) else (distance, places)
termination_by distance
decreasing_by omega

/-- The bias after a distance, given the count of characters so far. -/
def nextBias (distance count : Nat) (isFirst : Bool) : Nat :=
  let scaled := if isFirst then distance / 700 else distance / 2
  let (rest, places) := settle (scaled + scaled / count) 0
  places + 36 * rest / (rest + 38)

/-- What has been written, and what the next distance depends on. -/
structure Progress where
  written : List Char
  distance : Nat
  bias : Nat
  count : Nat
  isFirst : Bool

/-- Passes one character of the text while the places of a code point are written. -/
def Progress.pass (point : Nat) (p : Progress) (c : Char) : Progress :=
  if c.toNat < point then { p with distance := p.distance + 1 }
  else if c.toNat = point then
    { written := p.written ++ digits p.bias 36 p.distance
      distance := 0
      bias := nextBias p.distance (p.count + 1) p.isFirst
      count := p.count + 1
      isFirst := false }
  else p

/-- Writes the places of code points in increasing order; those below `next` are done. -/
def writePoints (text : List Char) : Nat → List Nat → Progress → Progress
  | _, [], p => p
  | next, point :: rest, p =>
    let p := { p with distance := p.distance + (point - next) * (p.count + 1) }
    let p := text.foldl (Progress.pass point) p
    writePoints text (point + 1) rest { p with distance := p.distance + 1 }

def encode (text : List Char) : List Char :=
  let basic := text.filter fun c => c.toNat < 0x80
  let others := (text.filter fun c => 0x80 ≤ c.toNat).map Char.toNat
  let points := (others.mergeSort fun a b => a ≤ b).eraseDups
  let p := writePoints text 0x80 points ⟨[], 0, 72, basic.length, true⟩
  basic ++ (if basic.isEmpty then [] else ['-']) ++ p.written

end NatSpec.Punycode
