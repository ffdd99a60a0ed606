import NatSpec.BuildInfo
import NatSpec.Proofs.Contract.Name
import NatSpec.Proofs.Contract.Resolve
import NatSpec.Proofs.Store

/-!
Fetching what a store of a build-info document lists. All contracts of the document are listed. A
listed name is read as the contract whose source ends at the first colon, so the outputs of
contracts come back as they are if no colon stands in the names of their sources.
-/

namespace NatSpec.BuildInfo

open ContractName (parse)

/-! ### Tables of contracts -/

/-- The outputs of contracts under the names of their sources and their own names, each of which
stands once. -/
structure Contracts where
  sources : Table String (Table String Fields)
  distinct : (Table.keys sources).Nodup
  distinctNames : ∀ entry ∈ sources, (Table.keys entry.2).Nodup

/-- The fields of an object with texts for their names. -/
def textFields {α : Type} (toJson : α → Json) (t : Table String α) : Fields :=
  t.map fun entry => (.text entry.1, toJson entry.2)

theorem get?_textFields {α : Type} (toJson : α → Json) (t : Table String α) (name : String) :
    Table.get? (textFields toJson t) (.text name) = (Table.get? t name).map toJson :=
  Table.get?_map Json.Key.text toJson (fun a b => by rw [Json.Key.text_beq]; rfl) t name

section Tables

variable {α : Type} (toJson : α → Json) (sources : Table String (Table String α))

/-- A table of contracts as it stands in a document, from values of any kind. -/
def contractFields : Fields :=
  textFields (fun names => .obj (textFields toJson names)) sources

def idsOf : List ContractName :=
  sources.flatMap fun source => (Table.keys source.2).map (ContractName.mk source.1)

variable {sources}

theorem mem_idsOf {id : ContractName} :
    id ∈ idsOf sources ↔ ∃ names, (id.source, names) ∈ sources ∧ id.name ∈ Table.keys names := by
  rw [idsOf, List.mem_flatMap]
  constructor
  · rintro ⟨⟨source, names⟩, hsource, hmem⟩
    obtain ⟨name, hname, rfl⟩ := List.mem_map.1 hmem
    exact ⟨names, hsource, hname⟩
  · rintro ⟨names, hsource, hname⟩
    exact ⟨(id.source, names), hsource, List.mem_map.2 ⟨id.name, hname, rfl⟩⟩

theorem nodup_idsOf (hsources : (Table.keys sources).Nodup)
    (hnames : ∀ entry ∈ sources, (Table.keys entry.2).Nodup) : (idsOf sources).Nodup := by
  rw [idsOf, List.nodup_flatMap]
  constructor
  · intro source hsource
    refine List.Nodup.map ?_ (hnames source hsource)
    intro a b h
    exact (ContractName.mk.inj h).2
  · have hpairs := List.pairwise_map.1 hsources
    refine hpairs.imp ?_
    intro a b hne id ha hb
    obtain ⟨_, -, rfl⟩ := List.mem_map.1 ha
    obtain ⟨_, -, heq⟩ := List.mem_map.1 hb
    exact hne (ContractName.mk.inj heq).1.symm

theorem sourceNames_textFields (source : String) (names : Table String α) :
    sourceNames source (.obj (textFields toJson names)) =
      .ok ((Table.keys names).map fun name => ContractName.qualified ⟨source, name⟩) := by
  simp [sourceNames, textFields, Json.elements?, Table.keys, ContractName.qualified,
    Json.Key.toJson, Json.display, Function.comp_def]

variable (sources)

/-- The names of all contracts of a table are listed, in increasing order. -/
theorem names_contractFields :
    names (contractFields toJson sources) =
      .ok (((idsOf sources).map ContractName.qualified).mergeSort fun a b => a ≤ b) := by
  have hsources : sources.mapM (fun source =>
      sourceNames source.1 (.obj (textFields toJson source.2))) =
      .ok (sources.map fun source =>
        (Table.keys source.2).map fun name => ContractName.qualified ⟨source.1, name⟩) :=
    mapM_eq_ok sources fun source _ => sourceNames_textFields toJson source.1 source.2
  have hids : (sources.map fun source => (Table.keys source.2).map fun name =>
      ContractName.qualified ⟨source.1, name⟩).flatten =
      (idsOf sources).map ContractName.qualified := by
    rw [idsOf, List.map_flatMap, ← List.flatMap_def]
    simp only [List.map_map, Function.comp_def]
  rw [names, contractFields, textFields, List.mapM_map]
  simp only [Function.comp_def, Json.Key.display, Json.Key.toJson, Json.display, hsources, ok_bind,
    hids]

end Tables

namespace Contracts

/-- The object of the contracts of one source. -/
def sourceJson (names : Table String Fields) : Json :=
  .obj (textFields Json.obj names)

/-- A table of contracts as it stands in a document. -/
def toFields (c : Contracts) : Fields :=
  textFields sourceJson c.sources

def outputs (c : Contracts) : Table ContractName Fields :=
  c.sources.flatMap fun source => source.2.map fun entry => (⟨source.1, entry.1⟩, entry.2)

theorem mem_outputs {c : Contracts} {id : ContractName} {out : Fields} :
    (id, out) ∈ c.outputs ↔ ∃ names, (id.source, names) ∈ c.sources ∧ (id.name, out) ∈ names := by
  rw [outputs, List.mem_flatMap]
  constructor
  · rintro ⟨⟨source, names⟩, hsource, hmem⟩
    obtain ⟨⟨name, out'⟩, hname, heq⟩ := List.mem_map.1 hmem
    obtain ⟨rfl, rfl⟩ := Prod.mk.inj heq
    exact ⟨names, hsource, hname⟩
  · rintro ⟨names, hsource, hname⟩
    exact ⟨(id.source, names), hsource, List.mem_map.2 ⟨(id.name, out), hname, rfl⟩⟩

theorem keys_outputs (c : Contracts) : Table.keys c.outputs = idsOf c.sources := by
  rw [Table.keys, outputs, idsOf, List.map_flatMap]
  simp only [Table.keys, List.map_map, Function.comp_def]

theorem nodup_keys_outputs (c : Contracts) : (Table.keys c.outputs).Nodup := by
  rw [keys_outputs]
  exact nodup_idsOf c.distinct c.distinctNames

/-- A store lists the names of all contracts of its table, in some order. -/
theorem exists_names (c : Contracts) :
    ∃ listed, names c.toFields = .ok listed ∧
      listed.Perm ((Table.keys c.outputs).map ContractName.qualified) := by
  rw [keys_outputs]
  exact ⟨_, names_contractFields Json.obj c.sources, List.mergeSort_perm _ _⟩

end Contracts

/-! ### Outputs -/

section

variable {τ : Type} [DecidableEq τ] [IsText τ]

theorem lookup_eq_ok_iff {v found : Json τ} {name : String} :
    lookup v name = .ok found ↔
      ∃ fields, v = .obj fields ∧ Table.get? fields name = some found := by
  cases v with
  | obj fields =>
      simp only [lookup, Json.obj.injEq, exists_eq_left']
      cases Table.get? fields name <;> simp
  | _ => simp [lookup]

theorem atPath_cons_eq_ok_iff {v found : Json τ} {name : String} {rest : List String} :
    atPath v (name :: rest) = .ok found ↔
      ∃ fields next, v = .obj fields ∧ Table.get? fields name = some next ∧
        atPath next rest = .ok found := by
  rw [atPath, bind_eq_ok_iff]
  constructor
  · rintro ⟨next, hnext, hrest⟩
    obtain ⟨fields, rfl, hget⟩ := lookup_eq_ok_iff.1 hnext
    exact ⟨fields, next, rfl, hget, hrest⟩
  · rintro ⟨fields, next, rfl, hget, hrest⟩
    exact ⟨next, lookup_eq_ok_iff.2 ⟨fields, rfl, hget⟩, hrest⟩

/-- The output of a contract is the object at the end of its path. -/
theorem output_eq_ok_iff {document v : Json τ} {id : ContractName} :
    output document id = .ok v ↔ ∃ fields outputs contracts names out : Fields τ,
      document = .obj fields ∧ Table.get? fields "output" = some (.obj outputs) ∧
      Table.get? outputs "contracts" = some (.obj contracts) ∧
      Table.get? contracts id.source = some (.obj names) ∧
      Table.get? names id.name = some (.obj out) ∧ v = .obj out := by
  have hpath : output document id = .ok v ↔ ∃ out, v = .obj out ∧
      atPath document ["output", "contracts", id.source, id.name] = .ok (.obj out) := by
    unfold output
    constructor
    · intro h
      split at h
      · cases h
      · rename_i out hpath
        exact ⟨out, (Except.ok.inj h).symm, hpath⟩
      · cases h
    · rintro ⟨out, rfl, hpath⟩
      rw [hpath]
  rw [hpath]
  constructor
  · rintro ⟨out, rfl, h⟩
    obtain ⟨fields, _, rfl, houtputs, h⟩ := atPath_cons_eq_ok_iff.1 h
    obtain ⟨outputs, _, rfl, hcontracts, h⟩ := atPath_cons_eq_ok_iff.1 h
    obtain ⟨contracts, _, rfl, hnames, h⟩ := atPath_cons_eq_ok_iff.1 h
    obtain ⟨names, _, rfl, hout, h⟩ := atPath_cons_eq_ok_iff.1 h
    obtain rfl := Except.ok.inj h
    exact ⟨fields, outputs, contracts, names, out, rfl, houtputs, hcontracts, hnames, hout, rfl⟩
  · rintro ⟨fields, outputs, contracts, names, out, rfl, houtputs, hcontracts, hnames, hout, rfl⟩
    refine ⟨out, rfl, atPath_cons_eq_ok_iff.2 ⟨fields, _, rfl, houtputs, ?_⟩⟩
    refine atPath_cons_eq_ok_iff.2 ⟨outputs, _, rfl, hcontracts, ?_⟩
    refine atPath_cons_eq_ok_iff.2 ⟨contracts, _, rfl, hnames, ?_⟩
    exact atPath_cons_eq_ok_iff.2 ⟨names, _, rfl, hout, rfl⟩

theorem atPath_append {v found : Json τ} {path : List String} (rest : List String)
    (h : atPath v path = .ok found) : atPath v (path ++ rest) = atPath found rest := by
  induction path generalizing v with
  | nil =>
      obtain rfl := Except.ok.inj h
      rfl
  | cons name path ih =>
      obtain ⟨next, hnext, h⟩ := bind_eq_ok_iff.1 h
      rw [List.cons_append, atPath, hnext, ok_bind]
      exact ih h

end

theorem atPath_of_contracts {doc : Json} {table : Fields} (h : contracts doc = .ok table) :
    atPath doc ["output", "contracts"] = .ok (.obj table) := by
  unfold contracts at h
  split at h
  · rename_i hpath
    rw [hpath, Except.ok.inj h]
  · cases h

theorem isObj_of_contracts {doc : Json} {table : Fields} (h : contracts doc = .ok table) :
    doc.isObj = true := by
  have hpath := atPath_of_contracts h
  cases doc with
  | obj fields => rfl
  | _ => cases hpath

theorem output_of_mem {doc : Json} {c : Contracts} (h : contracts doc = .ok c.toFields)
    {id : ContractName} {out : Fields} (hmem : (id, out) ∈ c.outputs) :
    output doc id = .ok (.obj out) := by
  obtain ⟨names, hsource, hname⟩ := Contracts.mem_outputs.1 hmem
  have hnames : Table.get? c.toFields (.text id.source) = some (Contracts.sourceJson names) := by
    rw [Contracts.toFields, get?_textFields, Table.get?_of_mem c.distinct hsource]
    rfl
  have hout : Table.get? (textFields Json.obj names) (.text id.name) = some (.obj out) := by
    rw [get?_textFields, Table.get?_of_mem (c.distinctNames _ hsource) hname]
    rfl
  have hpath : atPath doc ["output", "contracts", id.source, id.name] = .ok (.obj out) := by
    refine (atPath_append [id.source, id.name] (atPath_of_contracts h)).trans ?_
    refine atPath_cons_eq_ok_iff.2 ⟨_, _, rfl, hnames, ?_⟩
    exact atPath_cons_eq_ok_iff.2 ⟨_, _, rfl, hout, rfl⟩
  rw [output, hpath]

/-! ### Stores -/

/-- A store that lists the names of all contracts of a table, and gives the output of what a name is
read as. -/
structure Serves (s : Store) (doc : Json) (c : Contracts) (listed : List String) : Prop where
  table : contracts doc = .ok c.toFields
  listing : s.listing = .ok ⟨listed, []⟩
  perm : listed.Perm ((Table.keys c.outputs).map ContractName.qualified)
  output : ∀ {name id}, parse name = .ok id → s.output name = output doc id

theorem exists_store {doc : Json} {table : Fields} {listed : List String}
    (h : contracts doc = .ok table) (hnames : names table = .ok listed) :
    ∃ s : Store, store doc = .ok s ∧ s.listing = .ok ⟨listed, []⟩ ∧
      ∀ name, s.output name = parse name >>= output doc := by
  simp only [store, h, ok_bind, hnames, liftM_ok, Except.ok.injEq, exists_eq_left', implies_true,
    and_self]

theorem exists_serves {doc : Json} {c : Contracts} (h : contracts doc = .ok c.toFields) :
    ∃ s listed, store doc = .ok s ∧ Serves s doc c listed := by
  obtain ⟨listed, hnames, hperm⟩ := c.exists_names
  obtain ⟨s, hs, hlisting, houtput⟩ := exists_store h hnames
  refine ⟨s, listed, hs, h, hlisting, hperm, ?_⟩
  intro name id hname
  rw [houtput, hname, ok_bind]

namespace Serves

variable {s : Store} {doc : Json} {c : Contracts} {listed : List String}

theorem mem_listed (hs : Serves s doc c listed) {id : ContractName}
    (hid : id ∈ Table.keys c.outputs) : id.qualified ∈ listed :=
  hs.perm.mem_iff.2 (List.mem_map_of_mem hid)

theorem exists_of_mem_listed (hs : Serves s doc c listed) {name : String} (h : name ∈ listed) :
    ∃ id out, (id, out) ∈ c.outputs ∧ id.qualified = name := by
  obtain ⟨id, hid, hname⟩ := List.mem_map.1 (hs.perm.mem_iff.1 h)
  obtain ⟨out, hmem⟩ := Table.exists_mem_of_mem_keys hid
  exact ⟨id, out, hmem, hname⟩

theorem fetch (hs : Serves s doc c listed) {id : ContractName} {out : Fields}
    (hmem : (id, out) ∈ c.outputs) (hfree : id.ColonFree) :
    s.output id.qualified = .ok (.obj out) := by
  rw [hs.output (ContractName.parse_qualified hfree), output_of_mem hs.table hmem]

/-- Under the name of a contract stands the output of a contract with that name, whose source is
free of colons. -/
theorem exists_fetched (hs : Serves s doc c listed) (id : ContractName) :
    ∃ first : ContractName, first.ColonFree ∧ id.qualified = first.qualified ∧
      s.output id.qualified = BuildInfo.output doc first := by
  obtain ⟨first, hfree, heq⟩ := id.exists_colonFree
  refine ⟨first, hfree, heq, ?_⟩
  rw [heq, hs.output (ContractName.parse_qualified hfree)]

theorem resolveAll_eq (hs : Serves s doc c listed) (strict : Bool) :
    s.resolveAll strict = s.resolve strict listed := by
  rw [Store.resolveAll, hs.listing, ok_bind]

/-- A run that succeeds documents each contract whose source is free of colons by its own output,
under its own source and name. -/
theorem exists_documented (hs : Serves s doc c listed) {strict : Bool} {docs : Docs}
    (hdocs : s.resolveAll strict = .ok docs) {id : ContractName} {out : Fields}
    (hmem : (id, out) ∈ c.outputs) (hfree : id.ColonFree) :
    ∃ d, Table.get? docs id.qualified = some d ∧
      resolveContract id.qualified (.obj out) strict = .ok d ∧
      d.source = .str id.source ∧ d.name = .str id.name := by
  rw [hs.resolveAll_eq] at hdocs
  have hdocumented := Store.documented_of_resolve hdocs
  have hlisted := hs.mem_listed (Table.mem_keys_of_mem hmem)
  obtain ⟨d, hd⟩ := Table.exists_get?_of_mem_keys ((hdocumented.mem_keys _).2 hlisted)
  obtain ⟨output, houtput, hresolve⟩ := hdocumented.made _ _ hd
  rw [hs.fetch hmem hfree] at houtput
  obtain rfl := Except.ok.inj houtput
  obtain ⟨read, hread, hsource, hname⟩ := parse_of_resolveContract hresolve
  rw [ContractName.parse_qualified hfree] at hread
  obtain rfl := Except.ok.inj hread
  exact ⟨d, hd, hresolve, hsource, hname⟩

/-- Documentation under the name of a contract has the source of that contract only if the source
is free of colons. -/
theorem colonFree_of_documented (hs : Serves s doc c listed) {strict : Bool} {docs : Docs}
    (hdocs : s.resolveAll strict = .ok docs) {id : ContractName} {d : ContractDoc}
    (hd : Table.get? docs id.qualified = some d) (hsource : d.source = .str id.source) :
    id.ColonFree := by
  rw [hs.resolveAll_eq] at hdocs
  obtain ⟨output, -, hresolve⟩ := (Store.documented_of_resolve hdocs).made _ _ hd
  obtain ⟨read, hread, hsource', -⟩ := parse_of_resolveContract hresolve
  obtain ⟨hfree, -⟩ := ContractName.parse_eq_ok_iff.1 hread
  have heq : id.source = read.source := Json.str.inj (hsource.symm.trans hsource')
  rwa [ContractName.ColonFree, heq]

/-- If no source has a colon and all outputs can be resolved then each contract is documented under
its name, once. -/
theorem exists_docs (hs : Serves s doc c listed) {strict : Bool}
    (h : ∀ id out, (id, out) ∈ c.outputs →
      id.ColonFree ∧ ∃ d, resolveContract id.qualified (.obj out) strict = .ok d) :
    ∃ docs, s.resolveAll strict = .ok docs ∧ (Table.keys docs).Nodup ∧
      (Table.keys docs).Perm ((Table.keys c.outputs).map ContractName.qualified) := by
  have hnamed : ∀ name ∈ listed, ∃ output d, s.output name = .ok output ∧
      resolveContract name output strict = .ok d := by
    intro name hname
    obtain ⟨id, out, hmem, rfl⟩ := hs.exists_of_mem_listed hname
    obtain ⟨hfree, d, hd⟩ := h id out hmem
    exact ⟨.obj out, d, hs.fetch hmem hfree, hd⟩
  obtain ⟨docs, hdocs⟩ := Store.exists_resolve hnamed
  have hdocumented := Store.documented_of_resolve hdocs
  have hfree : ∀ id ∈ Table.keys c.outputs, id.ColonFree := by
    intro id hid
    obtain ⟨out, hmem⟩ := Table.exists_mem_of_mem_keys hid
    exact (h id out hmem).1
  -- Different contracts have different names here, so no entry replaces another.
  have hnodup : listed.Nodup := by
    refine hs.perm.nodup_iff.2 (List.Nodup.map_on ?_ c.nodup_keys_outputs)
    intro id hid other hother heq
    exact (ContractName.qualified_inj (hfree id hid) (hfree other hother)).1 heq
  refine ⟨docs, ?_, hdocumented.distinct, ?_⟩
  · rw [hs.resolveAll_eq, hdocs]
  · refine List.Perm.trans ?_ hs.perm
    rw [List.perm_ext_iff_of_nodup hdocumented.distinct hnodup]
    exact hdocumented.mem_keys

end Serves

/-- Each contract of a document is listed, and each one whose source is free of colons comes back
as it is. Under any other listed name stands the output of the contract that the name is read as.
If no source has a colon then all contracts are documented, each by its own output and under its
own source and name. A run that succeeds does so for the sources without a colon only. -/
theorem store_fetches {doc : Json} {c : Contracts} (h : contracts doc = .ok c.toFields) :
    ∃ s listed, store doc = .ok s ∧ s.listing = .ok ⟨listed, []⟩ ∧
      (∀ id out, (id, out) ∈ c.outputs →
        id.qualified ∈ listed ∧
        (id.ColonFree → s.output id.qualified = .ok (.obj out)) ∧
        (¬id.ColonFree → ∃ first : ContractName, first.ColonFree ∧
          id.qualified = first.qualified ∧ s.output id.qualified = output doc first)) ∧
      ∀ strict,
        ((∀ id out, (id, out) ∈ c.outputs →
            id.ColonFree ∧ ∃ d, resolveContract id.qualified (.obj out) strict = .ok d) →
          ∃ docs, s.resolveAll strict = .ok docs ∧ (Table.keys docs).Nodup ∧
            (Table.keys docs).Perm ((Table.keys c.outputs).map ContractName.qualified) ∧
            ∀ id out, (id, out) ∈ c.outputs → ∃ d, Table.get? docs id.qualified = some d ∧
              resolveContract id.qualified (.obj out) strict = .ok d ∧
              d.source = .str id.source ∧ d.name = .str id.name) ∧
        ∀ docs, s.resolveAll strict = .ok docs → ∀ id out, (id, out) ∈ c.outputs →
          ((∃ d, Table.get? docs id.qualified = some d ∧
            d.source = .str id.source ∧ d.name = .str id.name) ↔ id.ColonFree) := by
  obtain ⟨s, listed, hstore, hs⟩ := exists_serves h
  refine ⟨s, listed, hstore, hs.listing, ?_, ?_⟩
  · intro id out hmem
    exact ⟨hs.mem_listed (Table.mem_keys_of_mem hmem), hs.fetch hmem,
      fun _ => hs.exists_fetched id⟩
  · intro strict
    constructor
    · intro hresolvable
      obtain ⟨docs, hdocs, hdistinct, hperm⟩ := hs.exists_docs hresolvable
      refine ⟨docs, hdocs, hdistinct, hperm, ?_⟩
      intro id out hmem
      exact hs.exists_documented hdocs hmem (hresolvable id out hmem).1
    · intro docs hdocs id out hmem
      constructor
      · rintro ⟨d, hd, hsource, -⟩
        exact hs.colonFree_of_documented hdocs hd hsource
      · intro hfree
        obtain ⟨d, hd, -, hparts⟩ := hs.exists_documented hdocs hmem hfree
        exact ⟨d, hd, hparts⟩

/-- A document with nothing but a table of contracts. -/
def Contracts.document (c : Contracts) : Json :=
  .obj [("output", .obj [("contracts", .obj c.toFields)])]

theorem contracts_document (c : Contracts) : contracts c.document = .ok c.toFields := rfl

def emptyAbi : Fields := [("abi", .arr [])]

/-- Two sources, one of which holds a contract with a colon in its name. -/
def sampleContracts : Contracts :=
  ⟨[("A.sol", [("A", emptyAbi), ("B:C", emptyAbi)]), ("B.sol", [("A", emptyAbi)])],
    by decide, by decide⟩

theorem store_fetches_sample :
    contracts sampleContracts.document = .ok sampleContracts.toFields ∧
    ∃ s docs, store sampleContracts.document = .ok s ∧
      s.output "A.sol:B:C" = .ok (.obj emptyAbi) ∧ s.resolveAll true = .ok docs ∧
      (Table.keys docs).Perm ["A.sol:A", "A.sol:B:C", "B.sol:A"] := by
  obtain ⟨s, listed, hstore, -, hfetch, hresolve⟩ :=
    store_fetches (contracts_document sampleContracts)
  have hresolvable : ∀ id out, (id, out) ∈ sampleContracts.outputs →
      id.ColonFree ∧ ∃ d, resolveContract id.qualified (.obj out) true = .ok d := by
    intro id out hmem
    rcases hmem with _ | ⟨_, _ | ⟨_, _ | ⟨_, ⟨⟩⟩⟩⟩
    · exact ⟨by decide, _, rfl⟩
    · exact ⟨by decide, _, rfl⟩
    · exact ⟨by decide, _, rfl⟩
  obtain ⟨docs, hdocs, -, hperm, -⟩ := (hresolve true).1 hresolvable
  refine ⟨contracts_document _, s, docs, hstore, ?_, hdocs, hperm⟩
  have hmem : (⟨"A.sol", "B:C"⟩, emptyAbi) ∈ sampleContracts.outputs :=
    .tail _ (.head _)
  exact (hfetch _ _ hmem).2.1 (by decide)

/-- One source whose name starts with that of a package and a colon. -/
def packageContracts : Contracts :=
  ⟨[("pkg:v1/A.sol", [("A", emptyAbi)])], by decide, by decide⟩

/-- A contract of a source with a colon is listed and could be resolved, but it is looked for in the
source that ends at the colon, which ends the run. -/
theorem store_misses_package :
    contracts packageContracts.document = .ok packageContracts.toFields ∧
    packageContracts.outputs = [(⟨"pkg:v1/A.sol", "A"⟩, emptyAbi)] ∧
    (∃ d, resolveContract "pkg:v1/A.sol:A" (.obj emptyAbi) false = .ok d) ∧
    ∃ s, store packageContracts.document = .ok s ∧
      s.listing = .ok ⟨["pkg:v1/A.sol:A"], []⟩ ∧
      s.output "pkg:v1/A.sol:A" =
        .error (.problem (.noOutput "pkg" "v1/A.sol:A" (.missingField "pkg"))) ∧
      s.resolveAll false =
        .error (.problem (.noOutput "pkg" "v1/A.sol:A" (.missingField "pkg"))) := by
  obtain ⟨s, listed, hstore, hs⟩ := exists_serves (contracts_document packageContracts)
  obtain rfl : listed = ["pkg:v1/A.sol:A"] := List.perm_singleton.1 hs.perm
  have hread : parse "pkg:v1/A.sol:A" = .ok ⟨"pkg", "v1/A.sol:A"⟩ := by rfl
  have houtput : s.output "pkg:v1/A.sol:A" =
      .error (.problem (.noOutput "pkg" "v1/A.sol:A" (.missingField "pkg"))) := by
    rw [hs.output hread]
    rfl
  refine ⟨hs.table, rfl, ⟨_, rfl⟩, s, hstore, hs.listing, houtput, ?_⟩
  rw [hs.resolveAll_eq, Store.resolve, List.foldlM_cons, Store.document, houtput]
  rfl

end NatSpec.BuildInfo
