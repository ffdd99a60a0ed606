import NatSpec.Members.Groups
import NatSpec.Proofs.Members.Pass

/-!
Which documentation trees can be merged, and which members grouped. A section is mergeable if it is
a table of notes that set fields, or counts as missing. The main statements are that a merge
completes just when its five sections are mergeable, and that members can be grouped just when the
kind of each is neither an array nor an object.
-/

namespace NatSpec.Members

/-- A section of a tree whose entries, after they are prepared, are notes that set fields. -/
def IsSection (tree : Json) (name : String)
    (prepare : List (String × Json) → List (String × Json)) : Prop :=
  ∃ entries, sectionOf tree name = .ok entries ∧
    ∀ note ∈ prepare entries, note.2.changes?.isSome = true

/-- The members, and an entry for each state variable that has a note. -/
def withGetters (members : Members) (devdoc : Json) : Members :=
  members ++ (notesIn devdoc "stateVariables").map fun note => (getter note.1, .null)

/-- Trees all of whose sections can be merged into members. A note under the bare key of the
constructor counts under its signature, where it may give way to a later one. -/
structure Mergeable (devdoc userdoc : Json) (members : Members) : Prop where
  devEvents : IsSection devdoc "events" id
  devVariables : IsSection devdoc "stateVariables" id
  devMethods : IsSection devdoc "methods" (nameConstructor (withGetters members devdoc))
  userEvents : IsSection userdoc "events" id
  userMethods : IsSection userdoc "methods" (nameConstructor (withGetters members devdoc))

/-! ### Merging -/

theorem exists_mapM_eq_some_iff {α β : Type} {f : α → Option β} {items : List α} :
    (∃ found, items.mapM f = some found) ↔ ∀ a ∈ items, (f a).isSome = true := by
  induction items with
  | nil => simp
  | cons a items ih =>
      rw [List.mapM_cons, List.forall_mem_cons, ← ih, Option.isSome_iff_exists]
      constructor
      · rintro ⟨found, h⟩
        obtain ⟨b, hb, h⟩ := Option.bind_eq_some_iff.1 h
        obtain ⟨rest, hrest, -⟩ := Option.bind_eq_some_iff.1 h
        exact ⟨⟨b, hb⟩, rest, hrest⟩
      · rintro ⟨⟨b, hb⟩, rest, hrest⟩
        exact ⟨b :: rest, by rw [hb, hrest]; rfl⟩

theorem exists_sectionEdits_iff {tree : Json} {name : String}
    {prepare : List (String × Json) → List (String × Json)} {edit? : String × Json → Option Edit}
    (hedit : ∀ note, (edit? note).isSome = note.2.changes?.isSome) :
    (∃ edits, sectionEdits tree name prepare edit? = some edits) ↔ IsSection tree name prepare := by
  rw [sectionEdits, IsSection]
  cases sectionOf tree name with
  | error fault => simp [Except.toOption]
  | ok entries =>
      simp only [Except.toOption, Option.bind_some, exists_mapM_eq_some_iff, hedit,
        Except.ok.injEq, exists_eq_left']

theorem exists_noteEdits_iff {tree : Json} {name : String}
    {prepare : List (String × Json) → List (String × Json)} :
    (∃ edits, sectionEdits tree name prepare noteEdit = some edits) ↔
      IsSection tree name prepare :=
  exists_sectionEdits_iff fun _ => Option.isSome_map

theorem exists_variableEdits_iff {tree : Json} {name : String}
    {prepare : List (String × Json) → List (String × Json)} :
    (∃ edits, sectionEdits tree name prepare variableEdit = some edits) ↔
      IsSection tree name prepare :=
  exists_sectionEdits_iff fun _ => Option.isSome_map

/-- Edits that make records bring in their keys, each behind those that are there. -/
theorem find?_keys_run {edits : List Edit} (h : ∀ edit ∈ edits, edit.makes = true)
    (records : Records) (p : String → Bool) :
    (run edits records).keys.find? p = (records.keys ++ edits.map Edit.key).find? p := by
  induction edits generalizing records with
  | nil => rw [List.map_nil, List.append_nil]; rfl
  | cons edit edits ih =>
      obtain ⟨hmakes, hrest⟩ := List.forall_mem_cons.1 h
      rw [show run (edit :: edits) records = run edits (edit.apply records) from rfl,
        ih hrest, Edit.keys_apply, List.map_cons]
      split
      · rw [List.append_assoc, List.singleton_append]
      · rename_i hnot
        have hmem : edit.key ∈ records.keys := by
          by_contra hnew
          exact hnot ⟨hmakes, hnew⟩
        -- A key that is there already is not found a second time.
        rw [List.find?_append, List.find?_append]
        cases hfound : records.keys.find? p with
        | some key => rfl
        | none => rw [List.find?_cons_of_neg (List.find?_eq_none.1 hfound _ hmem)]

theorem keys_variableEdits {notes : List (String × Json)} {edits : List Edit}
    (h : List.Forall₂ (fun note edit => variableEdit note = some edit) notes edits) :
    edits.map Edit.key = notes.map fun note => getter note.1 := by
  induction h with
  | nil => rfl
  | cons hnote _ ih =>
      obtain ⟨changes, -, rfl⟩ := Option.map_eq_some_iff.1 hnote
      rw [List.map_cons, List.map_cons, ih]

theorem keys_withGetters (records : Records) (devdoc : Json) :
    (withGetters (ofRecords records) devdoc).keys =
      records.keys ++ (notesIn devdoc "stateVariables").map fun note => getter note.1 := by
  rw [withGetters, Table.keys, List.map_append, List.map_map, ← keys_ofRecords]
  rfl

/-- The constructor is where the members and the getters of the state variables have it. -/
theorem nameConstructor_opening {devdoc : Json} {devEvents devVariables : List Edit}
    (hevents : sectionEdits devdoc "events" id noteEdit = some devEvents)
    (hvariables : sectionEdits devdoc "stateVariables" id variableEdit = some devVariables)
    (records : Records) :
    nameConstructor (ofRecords (run (devEvents ++ devVariables) records)) =
      nameConstructor (withGetters (ofRecords records) devdoc) := by
  have hnotes := forall₂_of_sectionEdits hvariables
  have hmakes : ∀ edit ∈ devVariables, edit.makes = true := by
    intro edit hedit
    obtain ⟨note, -, hnote⟩ := exists_left_of_forall₂ hnotes hedit
    exact makes_of_variableEdit hnote
  funext entries
  rw [nameConstructor, nameConstructor, constructorSignature?, constructorSignature?,
    keys_ofRecords, run_append, find?_keys_run hmakes, keys_run_of_sectionEdits hevents,
    keys_variableEdits hnotes, keys_withGetters]
  rfl

/-- A merge completes just when the five sections are mergeable. -/
theorem exists_merge_iff {devdoc userdoc : Json} {records : Records} :
    (∃ merged, merge devdoc userdoc (ofRecords records) = (merged, none)) ↔
      Mergeable devdoc userdoc (ofRecords records) := by
  constructor
  · rintro ⟨merged, h⟩
    obtain ⟨pass, h, -⟩ := merge_iff.1 h
    have hname := nameConstructor_opening h.devEvents h.devVariables records
    exact {
      devEvents := exists_noteEdits_iff.1 ⟨_, h.devEvents⟩
      devVariables := exists_variableEdits_iff.1 ⟨_, h.devVariables⟩
      devMethods := hname ▸ exists_noteEdits_iff.1 ⟨_, h.devMethods⟩
      userEvents := exists_noteEdits_iff.1 ⟨_, h.userEvents⟩
      userMethods := hname ▸ exists_noteEdits_iff.1 ⟨_, h.userMethods⟩ }
  · intro h
    obtain ⟨devEvents, hdevEvents⟩ := exists_noteEdits_iff.2 h.devEvents
    obtain ⟨devVariables, hdevVariables⟩ := exists_variableEdits_iff.2 h.devVariables
    have hname := nameConstructor_opening hdevEvents hdevVariables records
    obtain ⟨devMethods, hdevMethods⟩ := exists_noteEdits_iff.2 h.devMethods
    obtain ⟨userEvents, huserEvents⟩ := exists_noteEdits_iff.2 h.userEvents
    obtain ⟨userMethods, huserMethods⟩ := exists_noteEdits_iff.2 h.userMethods
    rw [← hname] at hdevMethods huserMethods
    exact ⟨_, merge_iff.2 ⟨⟨devEvents, devVariables, devMethods, userEvents, userMethods⟩,
      ⟨hdevEvents, hdevVariables, hdevMethods, huserEvents, huserMethods⟩, rfl⟩⟩

/-! ### Grouping -/

/-- Members can be grouped just when each of them has a kind that can be a key. -/
theorem exists_groups_iff {members : Members} :
    (∃ groups, members.groups = .ok groups) ↔
      ∀ entry ∈ members, ∃ kind, groupKey entry.2 = .ok kind := by
  refine exists_foldlM_eq_ok_iff fun groups entry => ?_
  constructor
  · rintro ⟨next, h⟩
    obtain ⟨kind, hkind, -⟩ := bind_eq_ok_iff.1 h
    exact ⟨kind, hkind⟩
  · rintro ⟨kind, hkind⟩
    exact ⟨_, bind_eq_ok_iff.2 ⟨kind, hkind, rfl⟩⟩

theorem groupKey_obj_eq_ok_iff {fields : Fields} {kind : Json.Key} :
    groupKey (.obj fields) = .ok kind ↔ (Abi.kindOf fields).asKey? = some kind := by
  rw [groupKey, Abi.fieldsOf, ok_bind]
  cases (Abi.kindOf fields).asKey? <;> simp

theorem exists_groupKey_iff {fields : Fields} :
    (∃ kind, groupKey (.obj fields) = .ok kind) ↔ (Abi.kindOf fields).asKey? ≠ none := by
  simp only [groupKey_obj_eq_ok_iff, Option.ne_none_iff_exists']

end NatSpec.Members
