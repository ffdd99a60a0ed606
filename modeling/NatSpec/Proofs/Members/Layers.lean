import NatSpec.Proofs.Abi.Index

/-!
What merging makes of an index. The notes of two documentation trees stand in five sections; each
key of the result is named with the layers of notes that lie over its record, in the order in
which they win. The main statement gives the keys of the merged members and the fields of each of
their records, for all indexes and all well formed trees.
-/

namespace NatSpec.Members

/-- A section of a documentation tree: notes under distinct names. -/
structure Section where
  notes : Table String Fields
  distinct : notes.keys.Nodup

namespace Section

/-- The section as a value: an object of objects. -/
def toJson (s : Section) : Json :=
  .obj (s.notes.map fun note => (.text note.1, .obj note.2))

/-- A tree has the section under a name. A tree or a section that does not count as present stands
for an empty one. -/
def In (s : Section) (tree : Json) (name : String) : Prop :=
  ∃ fields, tree.orElse (.obj []) = .obj fields ∧
    (Json.field fields name).orElse (.obj []) = s.toJson

/-- The notes whose names mean a key. -/
def layers (s : Section) (meaning : String → Option String) (key : String) : List Fields :=
  (s.notes.filter fun note => meaning note.1 = some key).map Prod.snd

end Section

/-- The five sections that two documentation trees are merged from. -/
structure Notes where
  devEvents : Section
  devVariables : Section
  devMethods : Section
  userEvents : Section
  userMethods : Section

namespace Notes

/-- The sections are those of two documentation trees. -/
structure In (notes : Notes) (devdoc userdoc : Json) : Prop where
  devEvents : notes.devEvents.In devdoc "events"
  devVariables : notes.devVariables.In devdoc "stateVariables"
  devMethods : notes.devMethods.In devdoc "methods"
  userEvents : notes.userEvents.In userdoc "events"
  userMethods : notes.userMethods.In userdoc "methods"

/-- The getters of the state variables, in order. -/
def getters (notes : Notes) : List String :=
  notes.devVariables.notes.keys.map getter

/-- The key of the constructor: the first that starts as one, among the keys of the members and
the getters behind them. -/
def constructor? (notes : Notes) (members : Members) : Option String :=
  (members.keys ++ notes.getters).find? fun key => Text.startsWith key constructorStart

/-- The key that a name in a section of methods means: the bare constructor means the key of the
constructor, and nothing if there is none. -/
def methodKey (constructor? : Option String) (name : String) : Option String :=
  if name = constructorKey then constructor? else some name

/-- No section of methods names the constructor twice. -/
def ConstructorOnce (notes : Notes) (members : Members) : Prop :=
  ∀ key, notes.constructor? members = some key → ∀ s ∈ [notes.devMethods, notes.userMethods],
    ¬(constructorKey ∈ s.notes.keys ∧ key ∈ s.notes.keys)

/-- The layers over the record under a key, the last of which wins. -/
def layers (notes : Notes) (members : Members) (key : String) : List Fields :=
  let method := methodKey (notes.constructor? members)
  (if key ∈ members.keys then notes.devEvents.layers some key else []) ++
    (notes.devVariables.layers (fun name => some (getter name)) key).flatMap
      Records.variableLayers ++
    notes.devMethods.layers method key ++
    notes.userEvents.layers some key ++
    notes.userMethods.layers method key

end Notes

/-- Developer notes that have the sections. -/
def Notes.devdoc (notes : Notes) : Json :=
  .obj [("events", notes.devEvents.toJson), ("stateVariables", notes.devVariables.toJson),
    ("methods", notes.devMethods.toJson)]

/-- User notes that have the sections. -/
def Notes.userdoc (notes : Notes) : Json :=
  .obj [("events", notes.userEvents.toJson), ("methods", notes.userMethods.toJson)]

theorem Section.in_of_field {s : Section} {fields : Fields} {name : String}
    (h : Json.field fields name = s.toJson) (hne : fields ≠ []) : s.In (.obj fields) name := by
  refine ⟨fields, ?_, ?_⟩
  · cases fields with
    | nil => exact absurd rfl hne
    | cons e fields => rfl
  · rw [h, Section.toJson]
    cases s.notes <;> rfl

/-- All sections are those of some trees. -/
theorem Notes.in_trees (notes : Notes) : notes.In notes.devdoc notes.userdoc where
  devEvents := Section.in_of_field rfl (by simp)
  devVariables := Section.in_of_field rfl (by simp)
  devMethods := Section.in_of_field rfl (by simp)
  userEvents := Section.in_of_field rfl (by simp)
  userMethods := Section.in_of_field rfl (by simp)

/-! ### Sections as steps -/

theorem sectionOf_eq {s : Section} {tree : Json} {name : String} (h : s.In tree name) :
    sectionOf tree name = .ok (s.notes.mapValues Json.obj) := by
  obtain ⟨fields, htree, hsection⟩ := h
  have hentries : s.notes.filterMap ((fun entry : Json.Key × Json =>
        entry.1.asText?.map fun key => (key, entry.2)) ∘
        fun note => (.text note.1, .obj note.2)) = s.notes.mapValues Json.obj := by
    rw [Table.mapValues, ← List.filterMap_eq_map]
    rfl
  simp only [sectionOf, htree, hsection, Section.toJson, List.filterMap_map]
  rw [← hentries]

theorem lays_mergeEvents {s : Section} {tree : Json} (h : s.In tree "events") :
    Lays (mergeEvents tree) (Records.layAll s.notes) := by
  intro records
  rw [mergeEvents, mergeSection, sectionOf_eq h]
  simp only [Table.mapValues, List.map_map]
  exact lays_inTurn s.notes _ (fun note => Records.lay note.1 note.2)
    (fun note _ => lays_annotate note.1 note.2) records

theorem lays_mergeVariables {s : Section} {tree : Json} (h : s.In tree "stateVariables") :
    Lays (mergeVariables tree) (Records.layVariables s.notes) := by
  intro records
  rw [mergeVariables, mergeSection, sectionOf_eq h]
  simp only [Table.mapValues, List.map_map]
  exact lays_inTurn s.notes _ (fun note => Records.layVariable note.1 note.2)
    (fun note _ => lays_annotateVariable note.1 note.2) records

/-- The notes of a section of methods with the key of the constructor in place of its bare name. -/
def Section.named (s : Section) : Option String → List (String × Fields)
  | none => s.notes
  | some key => s.notes.map fun note =>
      (if note.1 = constructorKey then key else note.1, note.2)

theorem Section.nodup_keys_named (s : Section) {key : String}
    (h : ¬(constructorKey ∈ s.notes.keys ∧ key ∈ s.notes.keys)) :
    (Table.keys (s.named (some key))).Nodup := by
  have hkeys : Table.keys (s.named (some key)) =
      s.notes.keys.map fun name => if name = constructorKey then key else name := by
    simp [Section.named, Table.keys, Function.comp_def]
  rw [hkeys]
  refine List.Nodup.map_on ?_ s.distinct
  intro a ha b hb heq
  by_cases hac : a = constructorKey <;> by_cases hbc : b = constructorKey
  · rw [hac, hbc]
  · rw [if_pos hac, if_neg hbc] at heq
    exact absurd ⟨hac ▸ ha, heq ▸ hb⟩ h
  · rw [if_neg hac, if_pos hbc] at heq
    exact absurd ⟨hbc ▸ hb, heq ▸ ha⟩ h
  · rwa [if_neg hac, if_neg hbc] at heq

theorem Section.notesOf_named (s : Section) (constructor? : Option String) {key : String}
    (h : key ≠ constructorKey) :
    Records.notesOf (s.named constructor?) key =
      s.layers (Notes.methodKey constructor?) key := by
  cases constructor? with
  | none =>
      rw [Records.notesOf, Section.layers, Section.named]
      congr 1
      apply List.filter_congr
      intro note _
      by_cases hn : note.1 = constructorKey
      · simp [Notes.methodKey, hn, Ne.symm h]
      · simp [Notes.methodKey, hn]
  | some c =>
      rw [Records.notesOf, Section.layers, Section.named, List.filter_map, List.map_map]
      congr 1
      apply List.filter_congr
      intro note _
      by_cases hn : note.1 = constructorKey <;> simp [Notes.methodKey, hn]

theorem Section.notesOf_notes (s : Section) (key : String) :
    Records.notesOf s.notes key = s.layers some key := by
  simp [Records.notesOf, Section.layers]

theorem nameConstructor_eq {s : Section} {members : Members}
    (h : ∀ key, members.constructorSignature? = some key →
      ¬(constructorKey ∈ s.notes.keys ∧ key ∈ s.notes.keys)) :
    nameConstructor members (s.notes.mapValues Json.obj) =
      Table.mapValues Json.obj (s.named members.constructorSignature?) := by
  unfold nameConstructor
  cases hc : members.constructorSignature? with
  | none => rfl
  | some key =>
      have hentries : (s.notes.mapValues Json.obj).map (fun entry =>
            (if entry.1 = constructorKey then key else entry.1, entry.2)) =
          Table.mapValues Json.obj (s.named (some key)) := by
        simp [Section.named, Table.mapValues, Function.comp_def]
      have hnodup : (Table.keys (Table.mapValues Json.obj (s.named (some key)))).Nodup := by
        rw [Table.keys_mapValues]
        exact s.nodup_keys_named (h key hc)
      simp only [hentries]
      exact Table.ofList_of_nodup hnodup

theorem mergeMethods_ofRecords {s : Section} {tree : Json} (records : Records)
    (h : s.In tree "methods")
    (honce : ∀ key, (ofRecords records).constructorSignature? = some key →
      ¬(constructorKey ∈ s.notes.keys ∧ key ∈ s.notes.keys)) :
    mergeMethods tree (ofRecords records) =
      (ofRecords
        (Records.layAll (s.named (ofRecords records).constructorSignature?) records), none) := by
  rw [mergeMethods, mergeSection, sectionOf_eq h]
  simp only [nameConstructor_eq honce]
  rw [Table.mapValues, List.map_map]
  exact lays_inTurn (s.named (ofRecords records).constructorSignature?) _
    (fun note => Records.lay note.1 note.2) (fun note _ => lays_annotate note.1 note.2) records

/-! ### The whole merge -/

namespace Notes

variable (notes : Notes)

/-- The records after the merge, when the constructor has the given key. -/
def layOn (constructor? : Option String) (records : Records) : Records :=
  Records.layAll (notes.userMethods.named constructor?) <|
    Records.layAll notes.userEvents.notes <|
      Records.layAll (notes.devMethods.named constructor?) <|
        Records.layVariables notes.devVariables.notes <|
          Records.layAll notes.devEvents.notes records

/-- The notes on state variables bring in all the keys that the merge adds. -/
theorem keys_layVariables_layAll (records : Records) :
    (Records.layVariables notes.devVariables.notes
        (Records.layAll notes.devEvents.notes records)).keys =
      records.keys ++ notes.getters.filter fun key => key ∉ records.keys := by
  rw [Records.keys_layVariables _ _ notes.devVariables.distinct, Records.keys_layAll]
  rfl

theorem keys_layOn (constructor? : Option String) (records : Records) :
    (notes.layOn constructor? records).keys =
      records.keys ++ notes.getters.filter fun key => key ∉ records.keys := by
  simp only [layOn, Records.keys_layAll, keys_layVariables_layAll]

theorem find?_append_new (p : String → Bool) (old new : List String) :
    (old ++ new.filter fun key => key ∉ old).find? p = (old ++ new).find? p := by
  rw [List.find?_append, List.find?_append]
  cases hold : old.find? p with
  | some key => rfl
  | none =>
      rw [Option.none_or, Option.none_or, List.find?_filter]
      congr 1
      funext key
      by_cases hp : p key = true
      · have hmem : key ∉ old := fun hmem => absurd hp (List.find?_eq_none.1 hold key hmem)
        simp [hp, hmem]
      · simp [hp]

/-- Nothing in the merge moves the constructor: both sections of methods find the same key. -/
theorem constructorSignature?_of_keys {members later : Members}
    (h : later.keys = members.keys ++ notes.getters.filter fun key => key ∉ members.keys) :
    later.constructorSignature? = notes.constructor? members := by
  rw [constructorSignature?, h, find?_append_new]
  rfl

theorem merge_ofRecords {devdoc userdoc : Json} {records : Records}
    (hnotes : notes.In devdoc userdoc) (honce : notes.ConstructorOnce (ofRecords records)) :
    merge devdoc userdoc (ofRecords records) =
      (ofRecords (notes.layOn (notes.constructor? (ofRecords records)) records), none) := by
  have hkey (later : Records) (h : later.keys =
      records.keys ++ notes.getters.filter fun key => key ∉ records.keys) :
      (ofRecords later).constructorSignature? = notes.constructor? (ofRecords records) :=
    notes.constructorSignature?_of_keys (by simpa using h)
  -- The constructor is looked for twice, both times among the keys behind the state variables.
  have hvariables := notes.keys_layVariables_layAll records
  have hdev := mergeMethods_ofRecords
    (Records.layVariables notes.devVariables.notes
      (Records.layAll notes.devEvents.notes records)) hnotes.devMethods
    (fun key h => honce key ((hkey _ hvariables).symm.trans h) _ (by simp))
  rw [hkey _ hvariables] at hdev
  have huser := mergeMethods_ofRecords
    (Records.layAll notes.userEvents.notes <|
      Records.layAll (notes.devMethods.named (notes.constructor? (ofRecords records))) <|
        Records.layVariables notes.devVariables.notes
          (Records.layAll notes.devEvents.notes records)) hnotes.userMethods
    (fun key h => honce key ((hkey _ (by simpa using hvariables)).symm.trans h) _ (by simp))
  rw [hkey _ (by simpa using hvariables)] at huser
  rw [merge, inTurn, lays_mergeEvents hnotes.devEvents records]
  simp only [inTurn, lays_mergeVariables hnotes.devVariables _, hdev,
    lays_mergeEvents hnotes.userEvents _, huser]
  rfl

theorem variableLayersOf_eq (key : String) :
    Records.variableLayersOf notes.devVariables.notes key =
      (notes.devVariables.layers (fun name => some (getter name)) key).flatMap
        Records.variableLayers := by
  simp [Records.variableLayersOf, Section.layers, List.flatMap_map]

/-- Behind the state variables each key that is there has the first of its layers. -/
theorem get?_layVariables_layAll {records : Records} {key : String}
    (h : key ∈ records.keys ∨ key ∈ notes.getters) :
    (Records.layVariables notes.devVariables.notes
        (Records.layAll notes.devEvents.notes records)).get? key =
      some (((if key ∈ records.keys then notes.devEvents.layers some key else []) ++
        (notes.devVariables.layers (fun name => some (getter name)) key).flatMap
          Records.variableLayers).foldl Table.overlay ((records.get? key).getD [])) := by
  rw [Records.get?_layVariables, Records.get?_layAll, variableLayersOf_eq, Section.notesOf_notes,
    List.foldl_append]
  by_cases hmem : key ∈ records.keys
  · obtain ⟨fields, hfields⟩ := Table.exists_get?_of_mem_keys hmem
    by_cases hgetter : key ∈ (Table.keys notes.devVariables.notes).map getter
    · rw [if_pos hgetter, if_pos hmem, hfields]
      rfl
    · have hnone : notes.devVariables.layers (fun name => some (getter name)) key = [] := by
        rw [Section.layers, List.map_eq_nil_iff, List.filter_eq_nil_iff]
        intro note hnote heq
        obtain rfl : getter note.1 = key := by simpa using heq
        exact hgetter (List.mem_map_of_mem (List.mem_map_of_mem hnote))
      rw [if_neg hgetter, if_pos hmem, hfields, hnone]
      rfl
  · have hgetter : key ∈ (Table.keys notes.devVariables.notes).map getter :=
      h.resolve_left hmem
    rw [if_pos hgetter, if_neg hmem, Table.get?_eq_none_iff.2 hmem]
    rfl

theorem get?_layOn {records : Records} {key : String} (hkey : key ≠ constructorKey)
    (h : key ∈ records.keys ∨ key ∈ notes.getters) :
    (notes.layOn (notes.constructor? (ofRecords records)) records).get? key =
      some ((notes.layers (ofRecords records) key).foldl Table.overlay
        ((records.get? key).getD [])) := by
  rw [layOn, Records.get?_layAll, Records.get?_layAll, Records.get?_layAll,
    get?_layVariables_layAll notes h, Section.notesOf_named _ _ hkey,
    Section.notesOf_named _ _ hkey, Section.notesOf_notes, layers]
  simp only [keys_ofRecords, Option.map_some, List.foldl_append]

end Notes

/-- A key with a bracket is not the bare name of the constructor. -/
theorem ne_constructorKey {key : String} (h : '(' ∈ key.toList) : key ≠ constructorKey := by
  rintro rfl
  exact absurd h (by decide)

theorem bracket_mem_getter (name : String) : '(' ∈ (getter name).toList := by
  simp [getter]

/-- The members of an index after merging. The keys are those of the index, then the getters of the
state variables that it lacks. The record under a key is that of the index, or an empty one, under
the layers of the key. -/
theorem merge_index {abi devdoc userdoc : Json} {index : Abi.Index} {notes : Notes}
    (hindex : Abi.index abi = .ok index) (hnotes : notes.In devdoc userdoc)
    (honce : notes.ConstructorOnce index.members) :
    ∃ merged : Members,
      merge devdoc userdoc index.members = (merged, none) ∧
      merged.keys.Nodup ∧
      merged.keys = index.members.keys ++
        notes.getters.filter (fun key => key ∉ index.members.keys) ∧
      ∀ key ∈ merged.keys, ∃ fields,
        (index.members.get? key).getD (.obj []) = .obj fields ∧
        merged.get? key =
          some (.obj ((notes.layers index.members key).foldl Table.overlay fields)) := by
  have hsound := Abi.sound_index hindex
  obtain ⟨records, hrecords⟩ := hsound.records
  have hdistinct := hsound.distinct
  have hbracket := hsound.bracket
  rw [hrecords] at honce hdistinct hbracket ⊢
  rw [keys_ofRecords] at hdistinct hbracket
  refine ⟨_, notes.merge_ofRecords hnotes honce, ?_, ?_, ?_⟩
  · rw [keys_ofRecords, notes.keys_layOn, List.nodup_append]
    have hgetters : notes.getters.Nodup := notes.devVariables.distinct.map getter_injective
    refine ⟨hdistinct, hgetters.filter _, ?_⟩
    rintro key hkey other hother rfl
    have hnew : key ∉ records.keys := by simpa using (List.mem_filter.1 hother).2
    exact hnew hkey
  · rw [keys_ofRecords, notes.keys_layOn, keys_ofRecords]
  · intro key hkey
    rw [keys_ofRecords, notes.keys_layOn, List.mem_append] at hkey
    have hmem : key ∈ records.keys ∨ key ∈ notes.getters :=
      hkey.imp_right fun h => (List.mem_filter.1 h).1
    have hne : key ≠ constructorKey := by
      apply ne_constructorKey
      rcases hmem with hmem | hmem
      · exact hbracket key hmem
      · obtain ⟨name, -, rfl⟩ := List.mem_map.1 hmem
        exact bracket_mem_getter name
    refine ⟨(records.get? key).getD [], ?_, ?_⟩
    · rw [get?_ofRecords]
      cases records.get? key <;> rfl
    · rw [get?_ofRecords, notes.get?_layOn hne hmem]
      rfl

/-- An ABI with a constructor and the getter of a state variable. -/
def sampleAbi : List Fields :=
  [[("type", .str "constructor"), ("inputs", .arr [.obj [("type", .str "address")]])],
    [("name", .str "total"), ("type", .str "function")]]

/-- Notes on the constructor, on both kinds of state variables, and on an unknown event. -/
def sampleNotes : Notes where
  devEvents := ⟨[("owner()", [("details", .str "lost")])], by decide⟩
  devVariables :=
    ⟨[("total", [("type", .str "uint256"), ("details", .str "sum")]), ("owner", [])], by decide⟩
  devMethods := ⟨[("constructor", [("details", .str "sets the owner")])], by decide⟩
  userEvents := ⟨[], by decide⟩
  userMethods := ⟨[("owner()", [("notice", .str "who owns it")])], by decide⟩

def sampleIndex : Abi.Index :=
  ⟨[("constructor(address)", .obj sampleAbi[0]), ("total()", .obj sampleAbi[1])], []⟩

theorem merge_index_sample :
    Abi.index (.arr (sampleAbi.map .obj)) = .ok sampleIndex ∧
    sampleNotes.ConstructorOnce sampleIndex.members ∧
      ∃ merged : Members,
        merge sampleNotes.devdoc sampleNotes.userdoc sampleIndex.members = (merged, none) ∧
        merged.keys = ["constructor(address)", "total()", "owner()"] ∧
        merged.get? "total()" = some (.obj [("name", .str "total"),
          ("type", .str "stateVariable"), ("details", .str "sum")]) ∧
        merged.get? "owner()" = some (.obj [("type", .str "stateVariable"),
          ("notice", .str "who owns it")]) := by
  have hindex : Abi.index (.arr (sampleAbi.map .obj)) = .ok sampleIndex := by rfl
  have hkey : sampleNotes.constructor? sampleIndex.members = some "constructor(address)" := by
    decide
  have honce : sampleNotes.ConstructorOnce sampleIndex.members := by
    intro key hfound s hs
    obtain rfl := Option.some.inj (hkey.symm.trans hfound)
    revert s
    decide
  obtain ⟨merged, hmerge, -, hkeys, hfields⟩ := merge_index hindex sampleNotes.in_trees honce
  have hkeys' : merged.keys = ["constructor(address)", "total()", "owner()"] := by
    rw [hkeys]
    decide
  refine ⟨hindex, honce, merged, hmerge, hkeys', ?_, ?_⟩
  · obtain ⟨fields, hbase, hget⟩ := hfields "total()" (by rw [hkeys']; decide)
    obtain rfl := Json.obj.inj hbase
    rw [hget]
    rfl
  · obtain ⟨fields, hbase, hget⟩ := hfields "owner()" (by rw [hkeys']; decide)
    obtain rfl := Json.obj.inj hbase
    rw [hget]
    rfl

end NatSpec.Members
