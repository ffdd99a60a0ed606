import NatSpec.Proofs.Contract.Resolve
import NatSpec.Proofs.Members.Layers
import NatSpec.Proofs.Members.Pass

/-!
The documentation of the constructor. Its notes stand in sections of methods, under its bare name or
under its key. The main statement gives its record after a merge, for all indexes and all trees: the
last note of each section of methods counts, later sections win over earlier ones, and the record is
the one that the documentation of the contract shows.
-/

namespace NatSpec.Members

/-- The notes on the constructor with a key among the entries of a section of methods. -/
def constructorNotes (key : String) (entries : List (String × Json)) : List Json :=
  (entries.filter fun note => note.1 = constructorKey ∨ note.1 = key).map Prod.snd

/-- What a section of methods sets in the record of the constructor: what the last of its notes on
the constructor sets. -/
def methodFields (entries : List (String × Json)) (key : String) : Fields :=
  ((constructorNotes key entries).getLast?.map Json.changes).getD []

/-- What both trees set in the record of the constructor with a key, in the order of the sources. -/
def constructorFields (devdoc userdoc : Json) (key : String) : Fields :=
  noteFields (notesIn devdoc "events") key ++
    variableFields (notesIn devdoc "stateVariables") key ++
    methodFields (notesIn devdoc "methods") key ++
    noteFields (notesIn userdoc "events") key ++
    methodFields (notesIn userdoc "methods") key

/-- Naming the constructor by its key leaves the last of its notes under the key. -/
theorem noteFields_nameConstructor {members : Members} {key : String}
    (hkey : members.constructorSignature? = some key) (entries : List (String × Json)) :
    noteFields (nameConstructor members entries) key = methodFields entries key := by
  have hrenamed : ((entries.map fun note =>
        (if note.1 = constructorKey then key else note.1, note.2)).filter
          fun note => note.1 == key).map Prod.snd = constructorNotes key entries := by
    rw [List.filter_map, List.map_map, constructorNotes]
    congr 1
    apply List.filter_congr
    intro note _
    by_cases hbare : note.1 = constructorKey <;> simp [hbare, beq_eq_decide]
  have hdistinct := Table.distinct_iff_nodup.1 (Table.distinct_keys_ofList
    (entries.map fun note => (if note.1 = constructorKey then key else note.1, note.2)))
  -- The renamed section is a table, so it holds at most one note under the key.
  have hfilter := Table.filter_eq_of_nodup hdistinct key
  rw [Table.get?_ofList_eq_getLast?, hrenamed] at hfilter
  rw [noteFields, nameConstructor, hkey]
  simp only [beq_eq_decide] at hfilter
  simp only [hfilter, methodFields]
  cases (constructorNotes key entries).getLast? with
  | none => rfl
  | some note => simp

/-- The key of a constructor that is there stays the key of the constructor. -/
theorem constructorSignature?_run {records : Records} {key : String}
    (hkey : (ofRecords records).constructorSignature? = some key) (edits : List Edit) :
    (ofRecords (run edits records)).constructorSignature? = some key := by
  rw [constructorSignature?, keys_ofRecords] at hkey ⊢
  exact (keys_prefix_run edits records).find?_eq_some hkey

theorem Pass.Of.fieldsSet_constructor {pass : Pass} {devdoc userdoc : Json} {members : Members}
    (h : pass.Of devdoc userdoc members) {key : String}
    (hkey : members.constructorSignature? = some key) :
    fieldsSet (editsOf pass.edits key) = constructorFields devdoc userdoc key := by
  have hnotes {tree : Json} {name : String}
      {prepare : List (String × Json) → List (String × Json)} {edits : List Edit}
      (hedits : sectionEdits tree name prepare noteEdit = some edits) :
      fieldsSet (editsOf edits key) = noteFields (prepare (notesIn tree name)) key :=
    fieldsSet_noteEdits (forall₂_of_sectionEdits hedits) key
  have hvariables : fieldsSet (editsOf pass.devVariables key) =
      variableFields (notesIn devdoc "stateVariables") key :=
    fieldsSet_variableEdits (forall₂_of_sectionEdits h.devVariables) key
  simp only [Pass.edits, Pass.opening, Pass.closing, editsOf_append, fieldsSet_append, hvariables,
    hnotes h.devEvents, hnotes h.devMethods, hnotes h.userEvents, hnotes h.userMethods,
    noteFields_nameConstructor hkey, constructorFields, List.append_assoc, id]

/-- A note on the constructor that is alone in its section is among what the trees set. -/
theorem mem_constructorFields {devdoc userdoc : Json} {key : String} {tree note : Json}
    (htree : tree = devdoc ∨ tree = userdoc)
    (hnote : constructorNotes key (notesIn tree "methods") = [note]) {change : Json.Key × Json}
    (hchange : change ∈ note.changes) : change ∈ constructorFields devdoc userdoc key := by
  have hmem : change ∈ methodFields (notesIn tree "methods") key := by
    rw [methodFields, hnote]
    exact hchange
  rw [constructorFields]
  rcases htree with rfl | rfl <;> simp [hmem]

/-- The record of the constructor after a merge. A field that both trees set has the value set last
in the order of the sources, and any other one that of the index; where a section of methods has a
single note on the constructor all that the note sets is there. The record is what the documentation
of a contract shows as its constructor. -/
theorem constructor_of_merge {abi devdoc userdoc : Json} {index : Abi.Index} {merged : Members}
    {key : String} (hindex : Abi.index abi = .ok index)
    (hkey : index.members.constructorSignature? = some key)
    (hmerge : merge devdoc userdoc index.members = (merged, none)) :
    ∃ base fields,
      Table.get? index.members key = some (.obj base) ∧
      Table.get? merged key = some (.obj fields) ∧
      merged.constructorSignature? = some key ∧
      fields = Table.overlay base (constructorFields devdoc userdoc key) ∧
      (∀ name, Table.get? fields name =
        ((Table.ofList (constructorFields devdoc userdoc key)).get? name).or
          (Table.get? base name)) ∧
      (∀ tree, tree = devdoc ∨ tree = userdoc →
        ∀ note, constructorNotes key (notesIn tree "methods") = [note] →
          ∀ change ∈ note.changes, Table.contains fields change.1 = true) ∧
      ∀ contract output strict doc, Json.field output "abi" = abi →
        Trees.ofOutput contract output = .ok ⟨devdoc, userdoc⟩ →
        resolveContract contract (.obj output) strict = .ok doc → doc.constructor = .obj fields := by
  have hsound := Abi.sound_index hindex
  obtain ⟨records, hrecords⟩ := hsound.records
  rw [hrecords] at hmerge hkey ⊢
  obtain ⟨pass, h, hmerged⟩ := merge_iff.1 hmerge
  have hmem : key ∈ records.keys := by
    rw [constructorSignature?, keys_ofRecords] at hkey
    exact List.mem_of_find?_eq_some hkey
  obtain ⟨base, hbase⟩ := Table.exists_get?_of_mem_keys hmem
  have hfields : Table.get? merged key =
      some (.obj (Table.overlay base (constructorFields devdoc userdoc key))) := by
    rw [hmerged, get?_ofRecords, get?_run, hbase, edited_some,
      h.fieldsSet_constructor (constructorSignature?_run hkey pass.opening)]
    rfl
  have hstays : merged.constructorSignature? = some key := by
    rw [hmerged]
    exact constructorSignature?_run hkey pass.edits
  have hread (name : Json.Key) := Table.get?_overlay base (constructorFields devdoc userdoc key) name
  refine ⟨base, _, ?_, hfields, hstays, rfl, hread, ?_, ?_⟩
  · rw [get?_ofRecords, hbase]
    rfl
  · intro tree htree note hnote change hchange
    have hset : (Table.ofList (constructorFields devdoc userdoc key)).get? change.1 ≠ none :=
      fun hnone => by
        simpa using Table.get?_ofList_eq_none_iff.1 hnone change
          (mem_constructorFields htree hnote hchange)
    obtain ⟨value, hvalue⟩ := Option.ne_none_iff_exists'.1 hset
    rw [Table.contains, hread, hvalue]
    rfl
  · intro contract output strict doc habi htrees hdoc
    obtain ⟨_, houtput, ⟨r⟩⟩ := exists_resolution hdoc
    obtain rfl := Json.obj.inj houtput
    have htrees' : r.trees = ⟨devdoc, userdoc⟩ := Except.ok.inj (r.placed.symm.trans htrees)
    have hindex' : r.index = index := Except.ok.inj (r.indexed.symm.trans (habi ▸ hindex))
    have hmembers : r.members = merged := by
      have hannotated := r.annotated
      rw [Abi.Index.annotated, htrees', hindex', hrecords, hmerge] at hannotated
      exact (Except.ok.inj hannotated).symm
    rw [r.constructor_eq, hmembers, constructorRecord, hstays]
    exact congrArg (Option.getD · .null) hfields

/-- Developer notes with one section of methods. -/
def methodDevdoc (methods : List (String × Fields)) : Json :=
  .obj [("methods", .obj (methods.map fun note => (.text note.1, .obj note.2)))]

/-- A note under the bare name and, in the other tree, one under the key. -/
theorem constructor_of_merge_sample :
    Abi.index (.arr (sampleAbi.map .obj)) = .ok sampleIndex ∧
    sampleIndex.members.constructorSignature? = some "constructor(address)" ∧
      ∃ merged : Members,
        merge (methodDevdoc [("constructor", [("details", .str "sets"), ("notice", .str "old")])])
          (methodDevdoc [("constructor(address)", [("notice", .str "new")])])
          sampleIndex.members = (merged, none) ∧
        merged.constructorRecord = .obj [("type", .str "constructor"),
          ("inputs", .arr [.obj [("type", .str "address")]]), ("details", .str "sets"),
          ("notice", .str "new")] := by
  have hindex : Abi.index (.arr (sampleAbi.map .obj)) = .ok sampleIndex := by rfl
  have hkey : sampleIndex.members.constructorSignature? = some "constructor(address)" := by decide
  have hmerge : ∃ merged, merge
      (methodDevdoc [("constructor", [("details", .str "sets"), ("notice", .str "old")])])
      (methodDevdoc [("constructor(address)", [("notice", .str "new")])])
      sampleIndex.members = (merged, none) := ⟨_, rfl⟩
  obtain ⟨merged, hmerge⟩ := hmerge
  obtain ⟨base, fields, hbase, hfields, hstays, rfl, -⟩ :=
    constructor_of_merge hindex hkey hmerge
  obtain rfl : sampleAbi[0] = base := Json.obj.inj (Option.some.inj hbase)
  refine ⟨hindex, hkey, merged, hmerge, ?_⟩
  rw [constructorRecord, hstays]
  exact (congrArg (Option.getD · .null) hfields).trans rfl

/-- Of two notes on the constructor in one section of methods the first is lost with all it sets. -/
theorem constructor_note_lost :
    ∃ (merged : Members) (fields : Fields),
      merge (methodDevdoc [("constructor", [("details", .str "sets the owner")]),
          ("constructor(address)", [("notice", .str "Deploys")])]) (.obj [])
        sampleIndex.members = (merged, none) ∧
      merged.constructorRecord = .obj fields ∧
      Table.contains fields "notice" = true ∧ Table.contains fields "details" = false :=
  ⟨_, _, rfl, rfl, by decide, by decide⟩

end NatSpec.Members
