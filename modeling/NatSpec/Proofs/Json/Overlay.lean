import NatSpec.Json.Overlay

/-!
What a value sets when it is laid over the fields of an object. A value made of pairs sets them all,
over any fields; one that is not made of pairs is refused over any fields.
-/

namespace NatSpec.Json

/-- The pairs among a list of values, which must hold nothing else. -/
def pairs? : List Json → Option Fields
  | [] => some []
  | v :: rest =>
    match v.asPair with
    | .ok pair => (pairs? rest).map (pair :: ·)
    | .error _ => none

/-- What a value sets, if it is an object or is made of pairs. -/
def changes? : Json → Option Fields
  | .obj fields => some fields
  | v => v.elements?.bind pairs?

/-- What a value sets; one that is not made of pairs sets nothing. -/
def changes (v : Json) : Fields :=
  v.changes?.getD []

theorem overlayPairs_of_pairs? {items : List Json} {changes : Fields}
    (h : pairs? items = some changes) (fields : Fields) :
    overlayPairs fields items = (Table.overlay fields changes, none) := by
  induction items generalizing fields changes with
  | nil =>
      obtain rfl := Option.some.inj h
      rfl
  | cons v items ih =>
      rw [pairs?] at h
      cases hpair : v.asPair with
      | error e => simp [hpair] at h
      | ok pair =>
          rw [hpair] at h
          obtain ⟨rest, hrest, rfl⟩ := Option.map_eq_some_iff.1 h
          rw [overlayPairs, hpair]
          exact ih hrest _

theorem exists_noPair_of_pairs? {items : List Json} (h : pairs? items = none) (fields : Fields) :
    ∃ noPair, (overlayPairs fields items).2 = some noPair := by
  induction items generalizing fields with
  | nil => cases h
  | cons v items ih =>
      rw [pairs?] at h
      rw [overlayPairs]
      cases hpair : v.asPair with
      | error e => exact ⟨e, rfl⟩
      | ok pair =>
          rw [hpair] at h
          exact ih (Option.map_eq_none_iff.1 h) _

theorem overlay_of_changes? {note : Json} {changes : Fields} (h : note.changes? = some changes)
    (fields : Fields) : overlay fields note = (Table.overlay fields changes, none) := by
  cases note with
  | obj own =>
      obtain rfl := Option.some.inj h
      rfl
  | arr items => exact overlayPairs_of_pairs? h fields
  | str s => exact overlayPairs_of_pairs? h fields
  | _ => cases h

theorem exists_noPair_of_changes? {note : Json} (h : note.changes? = none) (fields : Fields) :
    ∃ noPair, (overlay fields note).2 = some noPair := by
  cases note with
  | obj own => cases h
  | arr items => exact exists_noPair_of_pairs? h fields
  | str s => exact exists_noPair_of_pairs? h fields
  | _ => exact ⟨.wrongKind, rfl⟩

end NatSpec.Json
