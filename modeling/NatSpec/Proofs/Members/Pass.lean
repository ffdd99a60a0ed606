import NatSpec.Proofs.Except
import NatSpec.Proofs.Members.Edits

/-!
A merge as one list of edits. The edits of the five sections stand one after another. Only notes on
state variables make records, so the key of the constructor is the same wherever a section of
methods looks for it. The main statement is that a merge completes just when all its sections have
edits, and then its result is that of the edits.
-/

namespace NatSpec.Members

/-! ### Sections as edits -/

/-- The entries of a section of a documentation tree, none if it has no such section. -/
def notesIn (tree : Json) (name : String) : List (String × Json) :=
  (sectionOf tree name).toOption.getD []

/-- The edits of a section, after its entries are prepared. -/
def sectionEdits (tree : Json) (name : String)
    (prepare : List (String × Json) → List (String × Json)) (edit? : String × Json → Option Edit) :
    Option (List Edit) :=
  (sectionOf tree name).toOption.bind fun entries => (prepare entries).mapM edit?

/-- The edits of the five sections of a merge. -/
structure Pass where
  devEvents : List Edit
  devVariables : List Edit
  devMethods : List Edit
  userEvents : List Edit
  userMethods : List Edit

namespace Pass

/-- The edits before the first section of methods. -/
def opening (pass : Pass) : List Edit :=
  pass.devEvents ++ pass.devVariables

/-- The edits from the first section of methods on. -/
def closing (pass : Pass) : List Edit :=
  pass.devMethods ++ pass.userEvents ++ pass.userMethods

def edits (pass : Pass) : List Edit :=
  pass.opening ++ pass.closing

/-- The edits are those of two documentation trees, where the constructor is that of the given
members. -/
structure Of (pass : Pass) (devdoc userdoc : Json) (members : Members) : Prop where
  devEvents : sectionEdits devdoc "events" id noteEdit = some pass.devEvents
  devVariables : sectionEdits devdoc "stateVariables" id variableEdit = some pass.devVariables
  devMethods : sectionEdits devdoc "methods" (nameConstructor members) noteEdit =
    some pass.devMethods
  userEvents : sectionEdits userdoc "events" id noteEdit = some pass.userEvents
  userMethods : sectionEdits userdoc "methods" (nameConstructor members) noteEdit =
    some pass.userMethods

end Pass

theorem mergeSection_iff {step : String × Json → Step} {edit? : String × Json → Option Edit}
    (h : ∀ note, Follows (step note) (edit? note)) (tree : Json) (name : String)
    (prepare : Members → List (String × Json) → List (String × Json)) (records : Records)
    (members : Members) :
    mergeSection tree name (fun entries members => inTurn ((prepare members entries).map step) members)
        (ofRecords records) = (members, none) ↔
      ∃ edits, sectionEdits tree name (prepare (ofRecords records)) edit? = some edits ∧
        members = ofRecords (run edits records) := by
  rw [mergeSection, sectionEdits]
  cases sectionOf tree name with
  | error fault => simp [Except.toOption]
  | ok entries => exact inTurn_iff h _ records members

theorem mergeEvents_iff (tree : Json) (records : Records) (members : Members) :
    mergeEvents tree (ofRecords records) = (members, none) ↔
      ∃ edits, sectionEdits tree "events" id noteEdit = some edits ∧
        members = ofRecords (run edits records) :=
  mergeSection_iff follows_annotate tree "events" (fun _ => id) records members

theorem mergeVariables_iff (tree : Json) (records : Records) (members : Members) :
    mergeVariables tree (ofRecords records) = (members, none) ↔
      ∃ edits, sectionEdits tree "stateVariables" id variableEdit = some edits ∧
        members = ofRecords (run edits records) :=
  mergeSection_iff follows_annotateVariable tree "stateVariables" (fun _ => id) records members

theorem mergeMethods_iff (tree : Json) (records : Records) (members : Members) :
    mergeMethods tree (ofRecords records) = (members, none) ↔
      ∃ edits, sectionEdits tree "methods" (nameConstructor (ofRecords records)) noteEdit =
          some edits ∧
        members = ofRecords (run edits records) :=
  mergeSection_iff follows_annotate tree "methods" nameConstructor records members

/-! ### What the edits of a section are -/

theorem forall₂_of_mapM {α β : Type} {f : α → Option β} {items : List α} {found : List β}
    (h : items.mapM f = some found) : List.Forall₂ (fun a b => f a = some b) items found := by
  induction items generalizing found with
  | nil =>
      obtain rfl := Option.some.inj h
      exact .nil
  | cons a items ih =>
      rw [List.mapM_cons] at h
      obtain ⟨b, hb, h⟩ := Option.bind_eq_some_iff.1 h
      obtain ⟨rest, hrest, h⟩ := Option.bind_eq_some_iff.1 h
      obtain rfl := Option.some.inj h
      exact .cons hb (ih hrest)

/-- The edits of a section come from its entries, one from each. -/
theorem forall₂_of_sectionEdits {tree : Json} {name : String}
    {prepare : List (String × Json) → List (String × Json)} {edit? : String × Json → Option Edit}
    {edits : List Edit} (h : sectionEdits tree name prepare edit? = some edits) :
    List.Forall₂ (fun note edit => edit? note = some edit) (prepare (notesIn tree name)) edits := by
  obtain ⟨entries, hentries, hedits⟩ := Option.bind_eq_some_iff.1 h
  rw [notesIn, hentries]
  exact forall₂_of_mapM hedits

theorem makes_of_noteEdit {note : String × Json} {edit : Edit} (h : noteEdit note = some edit) :
    edit.makes = false := by
  obtain ⟨changes, -, rfl⟩ := Option.map_eq_some_iff.1 h
  rfl

theorem makes_of_variableEdit {note : String × Json} {edit : Edit}
    (h : variableEdit note = some edit) : edit.makes = true := by
  obtain ⟨changes, -, rfl⟩ := Option.map_eq_some_iff.1 h
  rfl

/-- Notes on members make no records. -/
theorem makes_of_sectionEdits {tree : Json} {name : String}
    {prepare : List (String × Json) → List (String × Json)} {edits : List Edit}
    (h : sectionEdits tree name prepare noteEdit = some edits) :
    ∀ edit ∈ edits, edit.makes = false := by
  intro edit hedit
  obtain ⟨note, -, hnote⟩ := exists_left_of_forall₂ (forall₂_of_sectionEdits h) hedit
  exact makes_of_noteEdit hnote

/-- What the edits of notes set under a key, when an edit has the key and the fields of its note. -/
theorem fieldsSet_editsOf {edit? : String × Json → Option Edit} {keyOf : String × Json → String}
    {fieldsOf : String × Json → Fields}
    (hedit : ∀ note edit, edit? note = some edit →
      edit.key = keyOf note ∧ edit.fields = fieldsOf note)
    {notes : List (String × Json)} {edits : List Edit}
    (h : List.Forall₂ (fun note edit => edit? note = some edit) notes edits) (key : String) :
    fieldsSet (editsOf edits key) = (notes.filter fun note => keyOf note = key).flatMap fieldsOf := by
  induction h with
  | nil => rfl
  | @cons note edit notes edits hnote _ ih =>
      obtain ⟨hkey, hfields⟩ := hedit note edit hnote
      by_cases hk : keyOf note = key
      · rw [editsOf, List.filter_cons_of_pos (by simpa [hkey] using hk),
          List.filter_cons_of_pos (by simpa using hk), List.flatMap_cons, ← hfields, ← ih]
        rfl
      · rw [editsOf, List.filter_cons_of_neg (by simpa [hkey] using hk),
          List.filter_cons_of_neg (by simpa using hk), ← ih]
        rfl

def noteFields (notes : List (String × Json)) (key : String) : Fields :=
  (notes.filter fun note => note.1 = key).flatMap fun note => note.2.changes

/-- What the notes on the state variables with a getter set. -/
def variableFields (notes : List (String × Json)) (key : String) : Fields :=
  (notes.filter fun note => getter note.1 = key).flatMap fun note =>
    note.2.changes ++ [(.text "type", .str stateVariableKind)]

theorem fieldsSet_noteEdits {notes : List (String × Json)} {edits : List Edit}
    (h : List.Forall₂ (fun note edit => noteEdit note = some edit) notes edits) (key : String) :
    fieldsSet (editsOf edits key) = noteFields notes key := by
  refine fieldsSet_editsOf (fun note edit hedit => ?_) h key
  obtain ⟨changes, hchanges, rfl⟩ := Option.map_eq_some_iff.1 hedit
  exact ⟨rfl, by rw [Json.changes, hchanges, Option.getD_some]⟩

theorem fieldsSet_variableEdits {notes : List (String × Json)} {edits : List Edit}
    (h : List.Forall₂ (fun note edit => variableEdit note = some edit) notes edits)
    (key : String) :
    fieldsSet (editsOf edits key) = variableFields notes key := by
  refine fieldsSet_editsOf (fun note edit hedit => ?_) h key
  obtain ⟨changes, hchanges, rfl⟩ := Option.map_eq_some_iff.1 hedit
  exact ⟨rfl, by rw [Json.changes, hchanges, Option.getD_some]⟩

theorem keys_run_of_sectionEdits {tree : Json} {name : String}
    {prepare : List (String × Json) → List (String × Json)} {edits : List Edit}
    (h : sectionEdits tree name prepare noteEdit = some edits) (records : Records) :
    (run edits records).keys = records.keys := by
  refine keys_run_of_mem fun edit hedit hmakes => ?_
  rw [makes_of_sectionEdits h edit hedit] at hmakes
  cases hmakes

theorem constructorSignature?_congr {members other : Members}
    (h : members.keys = other.keys) :
    members.constructorSignature? = other.constructorSignature? := by
  rw [constructorSignature?, h]
  rfl

theorem nameConstructor_congr {members other : Members} (h : members.keys = other.keys) :
    nameConstructor members = nameConstructor other := by
  funext entries
  rw [nameConstructor, nameConstructor, constructorSignature?_congr h]

namespace Pass

variable {pass : Pass} {devdoc userdoc : Json} {members : Members}

theorem Of.makes_closing (h : pass.Of devdoc userdoc members) :
    ∀ edit ∈ pass.closing, edit.makes = false := by
  intro edit hedit
  rw [closing, List.mem_append, List.mem_append] at hedit
  rcases hedit with (hedit | hedit) | hedit
  · exact makes_of_sectionEdits h.devMethods edit hedit
  · exact makes_of_sectionEdits h.userEvents edit hedit
  · exact makes_of_sectionEdits h.userMethods edit hedit

/-- The keys are settled before the first section of methods. -/
theorem Of.keys_run_edits (h : pass.Of devdoc userdoc members) (records : Records) :
    (run pass.edits records).keys = (run pass.opening records).keys := by
  rw [edits, run_append]
  refine keys_run_of_mem fun edit hedit hmakes => ?_
  rw [h.makes_closing edit hedit] at hmakes
  cases hmakes

theorem Of.congr (h : pass.Of devdoc userdoc members) {other : Members}
    (hkeys : members.keys = other.keys) : pass.Of devdoc userdoc other where
  devEvents := h.devEvents
  devVariables := h.devVariables
  devMethods := nameConstructor_congr hkeys ▸ h.devMethods
  userEvents := h.userEvents
  userMethods := nameConstructor_congr hkeys ▸ h.userMethods

end Pass

/-- A merge completes just when all its sections have edits, and does what they do. -/
theorem merge_iff {devdoc userdoc : Json} {records : Records} {members : Members} :
    merge devdoc userdoc (ofRecords records) = (members, none) ↔
      ∃ pass : Pass, pass.Of devdoc userdoc (ofRecords (run pass.opening records)) ∧
        members = ofRecords (run pass.edits records) := by
  -- Both sections of methods see the keys that the opening leaves.
  have hname {devMethods userEvents : List Edit}
      {prepare : List (String × Json) → List (String × Json)}
      (hmethods : sectionEdits devdoc "methods" prepare noteEdit = some devMethods)
      (hevents : sectionEdits userdoc "events" id noteEdit = some userEvents) (records : Records) :
      nameConstructor (ofRecords (run userEvents (run devMethods records))) =
        nameConstructor (ofRecords records) := by
    refine nameConstructor_congr ?_
    rw [keys_ofRecords, keys_ofRecords, keys_run_of_sectionEdits hevents,
      keys_run_of_sectionEdits hmethods]
  rw [merge]
  simp only [inTurn_cons_iff]
  constructor
  · rintro ⟨_, hstep₁, _, hstep₂, _, hstep₃, _, hstep₄, _, hstep₅, hend⟩
    obtain ⟨devEvents, hdevEvents, rfl⟩ := (mergeEvents_iff ..).1 hstep₁
    obtain ⟨devVariables, hdevVariables, rfl⟩ := (mergeVariables_iff ..).1 hstep₂
    obtain ⟨devMethods, hdevMethods, rfl⟩ := (mergeMethods_iff ..).1 hstep₃
    obtain ⟨userEvents, huserEvents, rfl⟩ := (mergeEvents_iff ..).1 hstep₄
    obtain ⟨userMethods, huserMethods, rfl⟩ := (mergeMethods_iff ..).1 hstep₅
    rw [hname hdevMethods huserEvents, ← run_append] at huserMethods
    rw [← run_append] at hdevMethods
    refine ⟨⟨devEvents, devVariables, devMethods, userEvents, userMethods⟩,
      ⟨hdevEvents, hdevVariables, hdevMethods, huserEvents, huserMethods⟩, ?_⟩
    refine (congrArg Prod.fst hend).symm.trans ?_
    simp only [Pass.edits, Pass.opening, Pass.closing, run_append]
    rfl
  · rintro ⟨pass, h, rfl⟩
    have hdevMethods := h.devMethods
    have huserMethods := h.userMethods
    rw [Pass.opening, run_append] at hdevMethods huserMethods
    rw [← hname hdevMethods h.userEvents] at huserMethods
    refine ⟨_, (mergeEvents_iff ..).2 ⟨_, h.devEvents, rfl⟩,
      _, (mergeVariables_iff ..).2 ⟨_, h.devVariables, rfl⟩,
      _, (mergeMethods_iff ..).2 ⟨_, hdevMethods, rfl⟩,
      _, (mergeEvents_iff ..).2 ⟨_, h.userEvents, rfl⟩,
      _, (mergeMethods_iff ..).2 ⟨_, huserMethods, rfl⟩, ?_⟩
    simp only [Pass.edits, Pass.opening, Pass.closing, run_append]
    rfl

end NatSpec.Members
