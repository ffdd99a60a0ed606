/-!
Tables that remember the order in which their keys were first written. Writing an existing key
keeps its place and replaces its value; a new key goes to the end. Reading sees the last write.
-/

namespace NatSpec

universe u v

/-- Entries in the order of the first write of each key. -/
abbrev Table (κ : Type u) (α : Type v) := List (κ × α)

namespace Table

variable {κ : Type u} {α : Type v} [BEq κ]

/-- The value stored under a key. -/
def get? : Table κ α → κ → Option α
  | [], _ => none
  | (k, v) :: rest, key => if k == key then some v else get? rest key

def contains (t : Table κ α) (key : κ) : Bool :=
  (get? t key).isSome

/-- Writes one entry: in place if the key is present, else at the end. -/
def set : Table κ α → κ → α → Table κ α
  | [], key, value => [(key, value)]
  | (k, v) :: rest, key, value =>
    if k == key then (k, value) :: rest else (k, v) :: set rest key value

/-- The keys in table order. -/
def keys (t : Table κ α) : List κ :=
  t.map Prod.fst

/-- The values in table order. -/
def values (t : Table κ α) : List α :=
  t.map Prod.snd

/-- Writes the given entries one after another. -/
def overlay (t : Table κ α) (changes : List (κ × α)) : Table κ α :=
  changes.foldl (fun acc entry => set acc entry.1 entry.2) t

/-- The table that holds the given entries, later ones overriding earlier ones. -/
def ofList (entries : List (κ × α)) : Table κ α :=
  overlay [] entries

/-- The table without a key. -/
def erase (t : Table κ α) (key : κ) : Table κ α :=
  t.filter fun entry => !(entry.1 == key)

/-- Writing keeps the keys and adds the written one at the end if it is new. -/
theorem keys_set (t : Table κ α) (key : κ) (value : α) :
    keys (set t key value) = if contains t key then keys t else keys t ++ [key] := by
  induction t with
  | nil => simp [set, keys, contains, get?]
  | cons e rest ih =>
    by_cases hk : e.1 == key
    · simp [set, keys, contains, get?, hk]
    · simp only [keys, contains] at ih
      simp only [set, keys, contains, get?, hk, Bool.false_eq_true, if_false, List.map_cons, ih]
      by_cases hr : (get? rest key).isSome <;> simp [hr]

theorem get?_set_self [ReflBEq κ] (t : Table κ α) (key : κ) (value : α) :
    get? (set t key value) key = some value := by
  induction t with
  | nil => simp [set, get?]
  | cons e rest ih =>
    by_cases h : e.1 == key <;> simp [set, get?, h, ih]

theorem get?_set_ne [PartialEquivBEq κ] (t : Table κ α) {key other : κ} (value : α)
    (h : (key == other) = false) : get? (set t key value) other = get? t other := by
  induction t with
  | nil => simp [set, get?, h]
  | cons e rest ih =>
    by_cases hk : e.1 == key
    · have he : (e.1 == other) = false := by rw [BEq.congr_left hk, h]
      simp [set, get?, hk, he]
    · simp [set, get?, hk, ih]

end Table

end NatSpec
