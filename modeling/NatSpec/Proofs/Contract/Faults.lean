import NatSpec.Proofs.Abi.Typed
import NatSpec.Proofs.Contract.Name
import NatSpec.Proofs.Contract.Placement
import NatSpec.Proofs.Contract.Resolve
import NatSpec.Proofs.Members.Annotated

/-!
Where resolving a contract fails. An output without an ABI is reported as a problem of the
compiler's artifacts, and so are metadata that are not the JSON text of an object and, in a strict
run, repeated signatures. The main statement is which outputs of another shape than the passes need
meet a fault, which is not reported.
-/

namespace NatSpec

/-! ### Documentation trees -/

namespace Trees

/-- Metadata in which nothing can be looked up although they may be an object: a text beyond the
limits of the reader, or fields whose output section is neither missing nor an object. -/
inductive Unsearchable (metadata : Json) : Prop
  | beyondLimits {text : String} {refusal : Json.Refusal} (htext : metadata = .str text)
      (hread : (Json.read text : Except Json.Refusal Json) = .error refusal)
      (hlimit : ∀ place, refusal ≠ .misread place)
  | outputNotObject {fields : Fields} (hfields : Means metadata fields)
      (houtput : ((Json.field fields "output").orElse (.obj [])).isObj = false)

variable {contract : String} {output : Fields} {devdoc userdoc metadata : Json} {f : Failure}

theorem metadataFields_eq_error (h : metadataFields contract metadata = .error f) :
    (∃ p : Problem, f = .problem p ∧ p.isArtifact = true) ∨
      Unsearchable metadata ∧ ∃ fault, f = .fault fault := by
  unfold metadataFields at h
  dsimp only at h
  split at h
  · split at h
    · rw [pure_bind] at h
      split at h
      · cases h
      · exact .inl ⟨_, (Except.error.inj h).symm, rfl⟩
    · exact .inl ⟨_, (Except.error.inj h).symm, rfl⟩
    · rename_i text _ refusal hlimit hread
      exact .inr ⟨.beyondLimits rfl hread hlimit, _, (Except.error.inj h).symm⟩
  · rw [pure_bind] at h
    split at h
    · cases h
    · exact .inl ⟨_, (Except.error.inj h).symm, rfl⟩

theorem fromMetadata_eq_error (h : fromMetadata contract devdoc userdoc metadata = .error f) :
    (∃ p : Problem, f = .problem p ∧ p.isArtifact = true) ∨
      Unsearchable metadata ∧ ∃ fault, f = .fault fault := by
  rcases bind_eq_error_iff.1 h with hfields | ⟨fields, hfields, h⟩
  · exact metadataFields_eq_error hfields
  · split at h
    · cases h
    · rename_i hnot
      refine .inr ⟨.outputNotObject (metadataFields_eq_ok_iff.1 hfields) ?_, _,
        (Except.error.inj h).symm⟩
      cases hsection : (Json.field fields "output").orElse (.obj []) with
      | obj held => exact absurd hsection (hnot held)
      | _ => rfl

/-- Looking for the trees of an output fails with a problem of its own, or where the metadata that
are needed cannot be searched. -/
theorem ofOutput_eq_error (h : ofOutput contract output = .error f) :
    (∃ p : Problem, f = .problem p ∧ p.isArtifact = true) ∨
      (looksUp output = true ∧ Unsearchable (Json.field output "metadata")) ∧
        ∃ fault, f = .fault fault := by
  cases hlook : looksUp output with
  | false =>
      rw [ofOutput_of_not_looksUp contract hlook] at h
      cases h
  | true =>
      unfold looksUp at hlook
      simp only [ofOutput, hlook, if_true] at h
      rcases bind_eq_error_iff.1 h with hfound | ⟨found, -, h⟩
      · refine (fromMetadata_eq_error hfound).imp_right ?_
        rintro ⟨hmetadata, hfault⟩
        exact ⟨⟨rfl, hmetadata⟩, hfault⟩
      · cases h

theorem Unsearchable.exists_fault (h : Unsearchable metadata) :
    ∃ fault, fromMetadata contract devdoc userdoc metadata = .error (.fault fault) := by
  cases h with
  | @beyondLimits text refusal htext hread hlimit =>
      refine ⟨.ofRefusal refusal, bind_eq_error_iff.2 (.inl ?_)⟩
      subst htext
      rw [metadataFields]
      simp only [hread]
      cases refusal with
      | misread place => exact absurd rfl (hlimit place)
      | longNumber | deepNesting => rfl
  | outputNotObject hfields houtput =>
      refine ⟨.notRecord, bind_eq_error_iff.2
        (.inr ⟨_, metadataFields_eq_ok_iff.2 hfields, ?_⟩)⟩
      split
      · rename_i held hheld
        rw [hheld] at houtput
        cases houtput
      · rfl

theorem exists_fault_of_unsearchable (hlook : looksUp output = true)
    (h : Unsearchable (Json.field output "metadata")) :
    ∃ fault, ofOutput contract output = .error (.fault fault) := by
  obtain ⟨fault, hfault⟩ := h.exists_fault
  unfold looksUp at hlook
  simp only [ofOutput, hlook, if_true]
  exact ⟨fault, bind_eq_error_iff.2 (.inl hfault)⟩

end Trees

/-! ### Contracts -/

/-- Why a pass over the output of a contract meets a fault, given that the passes in front of it do
not. -/
inductive Misshapen (contract : String) (output : Fields) (strict : Bool) : Prop
  | metadata (hlook : Trees.looksUp output = true)
      (h : Trees.Unsearchable (Json.field output "metadata"))
  | abi {trees : Trees} (htrees : Trees.ofOutput contract output = .ok trees)
      (h : ¬Abi.IsReadable (Json.field output "abi"))
  | notes {trees : Trees} {index : Abi.Index} (htrees : Trees.ofOutput contract output = .ok trees)
      (hindex : Abi.index (Json.field output "abi") = .ok index)
      (hunrepeated : strict = true → index.duplicates = [])
      (h : ¬Members.Mergeable trees.devdoc trees.userdoc index.members)
  | kinds {trees : Trees} {index : Abi.Index} {members : Members} {key : String} {fields : Fields}
      (htrees : Trees.ofOutput contract output = .ok trees)
      (hindex : Abi.index (Json.field output "abi") = .ok index)
      (hunrepeated : strict = true → index.duplicates = [])
      (hmembers : index.annotated trees = .ok members) (hmem : (key, .obj fields) ∈ members)
      (h : (Abi.kindOf fields).asKey? = none)

/-- The output of a contract with a qualified name and an ABI that is misshapen. -/
structure MeetsFault (contract : String) (output : Fields) (strict : Bool) : Prop where
  qualified : ':' ∈ contract.toList
  hasAbi : (Json.field output "abi").isNull = false
  misshapen : Misshapen contract output strict

variable {contract : String} {output : Fields} {strict : Bool} {trees : Trees}
  {index : Abi.Index} {members : Members}

theorem Abi.Index.annotated_eq_ok_iff :
    index.annotated trees = .ok members ↔
      Members.merge trees.devdoc trees.userdoc index.members = (members, none) := by
  rw [annotated]
  split <;> simp_all

theorem Abi.Index.exists_annotated_iff (hindex : index.Sound) :
    (∃ members, index.annotated trees = .ok members) ↔
      Members.Mergeable trees.devdoc trees.userdoc index.members := by
  obtain ⟨records, hrecords⟩ := hindex.records
  simp only [annotated_eq_ok_iff, hrecords, Members.exists_merge_iff]

theorem Abi.Index.exists_records_annotated (hindex : index.Sound)
    (h : index.annotated trees = .ok members) : ∃ records, members = Members.ofRecords records := by
  obtain ⟨records, hrecords⟩ := hindex.records
  rw [annotated_eq_ok_iff, hrecords] at h
  obtain ⟨pass, -, hmembers⟩ := Members.merge_iff.1 h
  exact ⟨_, hmembers⟩

/-- Trees that can be merged have fields. -/
theorem Members.IsSection.exists_fields {v : Json} {name : String}
    {prepare : List (String × Json) → List (String × Json)}
    (h : IsSection (v.orElse (.obj [])) name prepare) :
    ∃ fields, v.orElse (.obj []) = .obj fields := by
  have hsame : (v.orElse (.obj [])).orElse (.obj []) = v.orElse (.obj []) := by
    by_cases hv : v.truthy = true
    · rw [Json.orElse, Json.orElse, if_pos hv, if_pos hv]
    · rw [Json.orElse, Json.orElse, if_neg hv]
      rfl
  obtain ⟨entries, hentries, -⟩ := h
  rw [sectionOf, hsame] at hentries
  split at hentries
  · exact ⟨_, ‹_›⟩
  · cases hentries

theorem Trees.exists_of_ofOutput (h : ofOutput contract output = .ok trees) :
    ∃ devdoc userdoc : Json, trees = ⟨devdoc.orElse (.obj []), userdoc.orElse (.obj [])⟩ := by
  unfold ofOutput at h
  dsimp only at h
  split at h
  · obtain ⟨found, -, h⟩ := bind_eq_ok_iff.1 h
    exact ⟨found.devdoc, found.userdoc, (Except.ok.inj h).symm⟩
  · exact ⟨_, _, (Except.ok.inj h).symm⟩

theorem ContractDoc.exists_ofMembers (htrees : Trees.ofOutput contract output = .ok trees)
    {old : Members} (hmerge : Members.Mergeable trees.devdoc trees.userdoc old) (id : ContractName)
    (members : Members) (groups : Groups) (warnings : List String) :
    ∃ doc, ofMembers id trees members groups warnings = .ok doc := by
  obtain ⟨devdoc, userdoc, rfl⟩ := Trees.exists_of_ofOutput htrees
  obtain ⟨devFields, hdevdoc⟩ := hmerge.devEvents.exists_fields
  obtain ⟨userFields, huserdoc⟩ := hmerge.userEvents.exists_fields
  rw [ofMembers, hdevdoc, huserdoc]
  exact ⟨_, rfl⟩

theorem Misshapen.not_problem (h : Misshapen contract output strict) {p : Problem}
    (htrees : Trees.ofOutput contract output = .error (.problem p)) : False := by
  cases h with
  | metadata hlook h =>
      obtain ⟨fault, hfault⟩ : ∃ fault, Trees.ofOutput contract output = .error (.fault fault) :=
        Trees.exists_fault_of_unsearchable hlook h
      rw [htrees] at hfault
      cases hfault
  | abi hok | notes hok | kinds hok =>
      rw [htrees] at hok
      cases hok

/-- An output whose ABI has an index is misshapen behind it, if it is. -/
theorem Misshapen.behind_index (h : Misshapen contract output strict)
    (htrees : Trees.ofOutput contract output = .ok trees)
    (hshallow : Abi.checkEntries (Json.field output "abi") = .ok ())
    (hindex : Abi.index (Json.field output "abi") = .ok index) :
    (strict = true → index.duplicates = []) ∧
      ∀ members, index.annotated trees = .ok members → ∀ groups, members.groups ≠ .ok groups := by
  cases h with
  | metadata hlook h =>
      obtain ⟨fault, hfault⟩ : ∃ fault, Trees.ofOutput contract output = .error (.fault fault) :=
        Trees.exists_fault_of_unsearchable hlook h
      rw [htrees] at hfault
      cases hfault
  | abi _ h => exact absurd (Abi.isReadable_iff.2 ⟨hshallow, index, hindex⟩) h
  | notes htrees' hindex' hunrepeated h =>
      obtain rfl := Except.ok.inj (htrees.symm.trans htrees')
      obtain rfl := Except.ok.inj (hindex.symm.trans hindex')
      refine ⟨hunrepeated, fun members hmembers => absurd ?_ h⟩
      exact (Abi.Index.exists_annotated_iff (Abi.sound_index hindex)).1 ⟨members, hmembers⟩
  | kinds htrees' hindex' hunrepeated hmembers hmem h =>
      obtain rfl := Except.ok.inj (htrees.symm.trans htrees')
      obtain rfl := Except.ok.inj (hindex.symm.trans hindex')
      refine ⟨hunrepeated, fun members hmembers' groups hgroups => ?_⟩
      obtain rfl := Except.ok.inj (hmembers.symm.trans hmembers')
      have hkinds := Members.exists_groups_iff.1 ⟨groups, hgroups⟩ _ hmem
      exact Members.exists_groupKey_iff.1 hkinds h

/-- The passes behind the index fail with a fault only. -/
theorem misshapen_behind_index {id : ContractName} {warnings : List String} {f : Failure}
    (htrees : Trees.ofOutput contract output = .ok trees)
    (hindex : Abi.index (Json.field output "abi") = .ok index)
    (hunrepeated : strict = true → index.duplicates = [])
    (h : (do
      let members ← index.annotated trees
      let groups ← members.groups
      ContractDoc.ofMembers id trees members groups warnings : Except Failure ContractDoc) =
        .error f) : Misshapen contract output strict ∧ ∃ fault, f = .fault fault := by
  have hsound := Abi.sound_index hindex
  rcases bind_eq_error_iff.1 h with hmembers | ⟨members, hmembers, h⟩
  · obtain ⟨fault, hmembers, rfl⟩ := liftM_eq_error_iff.1 hmembers
    refine ⟨.notes htrees hindex hunrepeated fun hmerge => ?_, fault, rfl⟩
    obtain ⟨members, hok⟩ := (Abi.Index.exists_annotated_iff hsound).2 hmerge
    rw [hok] at hmembers
    cases hmembers
  rw [liftM_eq_ok_iff] at hmembers
  rcases bind_eq_error_iff.1 h with hgroups | ⟨groups, hgroups, h⟩
  · obtain ⟨fault, hgroups, rfl⟩ := liftM_eq_error_iff.1 hgroups
    obtain ⟨records, rfl⟩ := Abi.Index.exists_records_annotated hsound hmembers
    obtain ⟨⟨key, record⟩, hmem, hkind⟩ :
        ∃ entry ∈ Members.ofRecords records, ¬∃ kind, Members.groupKey entry.2 = .ok kind := by
      by_contra hall
      push Not at hall
      obtain ⟨groups, hok⟩ := Members.exists_groups_iff.2 hall
      rw [hok] at hgroups
      cases hgroups
    obtain ⟨⟨key, fields⟩, -, heq⟩ := List.mem_map.1 hmem
    obtain ⟨rfl, rfl⟩ := Prod.mk.inj heq
    rw [Members.exists_groupKey_iff, not_not] at hkind
    exact ⟨.kinds htrees hindex hunrepeated hmembers hmem hkind, fault, rfl⟩
  · have hmerge := (Abi.Index.exists_annotated_iff hsound).1 ⟨members, hmembers⟩
    obtain ⟨doc, hdoc⟩ := ContractDoc.exists_ofMembers htrees hmerge id members groups warnings
    rw [hdoc] at h
    cases h

/-- What is reported is a problem of the compiler's artifacts, and nothing is reported of an output
that meets a fault. -/
theorem resolveContract_eq_error {f : Failure}
    (h : resolveContract contract (.obj output) strict = .error f) :
    (¬MeetsFault contract output strict ∧ ∃ p : Problem, f = .problem p ∧ p.isArtifact = true) ∨
      MeetsFault contract output strict ∧ ∃ fault, f = .fault fault := by
  unfold resolveContract at h
  rcases bind_eq_error_iff.1 h with hparse | ⟨id, hparse, h⟩
  · obtain rfl := ContractName.parse_eq_error hparse
    refine .inl ⟨fun hmeets => ?_, _, rfl, rfl⟩
    obtain ⟨id, hid⟩ := ContractName.exists_parse_iff.2 hmeets.qualified
    rw [hparse] at hid
    cases hid
  rw [Abi.fieldsOf, liftM_ok, ok_bind] at h
  dsimp only at h
  split at h
  · rename_i hnull
    refine .inl ⟨fun hmeets => ?_, _, (Except.error.inj h).symm, rfl⟩
    rw [hmeets.hasAbi] at hnull
    cases hnull
  rename_i hnull
  have hmeets (hmisshapen : Misshapen contract output strict) : MeetsFault contract output strict :=
    ⟨ContractName.exists_parse_iff.1 ⟨id, hparse⟩, by simpa using hnull, hmisshapen⟩
  rcases bind_eq_error_iff.1 h with htrees | ⟨trees, htrees, h⟩
  · rcases Trees.ofOutput_eq_error htrees with ⟨p, rfl, hp⟩ | ⟨⟨hlook, hmetadata⟩, fault, rfl⟩
    · exact .inl ⟨fun hmeets => hmeets.misshapen.not_problem htrees, p, rfl, hp⟩
    · exact .inr ⟨hmeets (.metadata hlook hmetadata), fault, rfl⟩
  rcases bind_eq_error_iff.1 h with hshallow | ⟨⟨⟩, hshallow, h⟩
  · obtain ⟨fault, hshallow, rfl⟩ := liftM_eq_error_iff.1 hshallow
    refine .inr ⟨hmeets (.abi htrees fun hreadable => ?_), fault, rfl⟩
    rw [(Abi.isReadable_iff.1 hreadable).1] at hshallow
    cases hshallow
  rw [liftM_eq_ok_iff] at hshallow
  rcases bind_eq_error_iff.1 h with hindex | ⟨index, hindex, h⟩
  · obtain ⟨fault, hindex, rfl⟩ := liftM_eq_error_iff.1 hindex
    refine .inr ⟨hmeets (.abi htrees fun hreadable => ?_), fault, rfl⟩
    obtain ⟨-, index, hok⟩ := Abi.isReadable_iff.1 hreadable
    rw [hok] at hindex
    cases hindex
  rw [liftM_eq_ok_iff] at hindex
  split at h
  · rename_i hrepeated
    refine .inl ⟨fun hmeets => ?_, _, (Except.error.inj h).symm, rfl⟩
    have hunrepeated := (hmeets.misshapen.behind_index htrees hshallow hindex).1
    simp_all
  rename_i hunrepeated
  have hbehind := misshapen_behind_index htrees hindex (by simpa using hunrepeated) h
  exact .inr ⟨hmeets hbehind.1, hbehind.2⟩

theorem Resolution.not_meetsFault {doc : ContractDoc} (r : Resolution contract output strict doc) :
    ¬MeetsFault contract output strict := by
  intro hmeets
  have hbehind := (hmeets.misshapen.behind_index r.placed r.shallow r.indexed).2
  exact hbehind r.members r.annotated r.groups r.grouped

/-- Resolving a contract meets a fault just when its name is qualified and its ABI is there, but
one of the passes cannot work on the shape of what it finds. -/
theorem exists_fault_iff :
    (∃ fault, resolveContract contract (.obj output) strict = .error (.fault fault)) ↔
      MeetsFault contract output strict := by
  constructor
  · rintro ⟨fault, h⟩
    rcases resolveContract_eq_error h with ⟨-, p, hp, -⟩ | ⟨hmeets, -⟩
    · cases hp
    · exact hmeets
  · intro hmeets
    cases h : resolveContract contract (.obj output) strict with
    | ok doc =>
        obtain ⟨fields, heq, ⟨r⟩⟩ := exists_resolution h
        obtain rfl := Json.obj.inj heq
        exact absurd hmeets r.not_meetsFault
    | error f =>
        rcases resolveContract_eq_error h with ⟨hnot, -⟩ | ⟨-, fault, rfl⟩
        · exact absurd hmeets hnot
        · exact ⟨fault, rfl⟩

end NatSpec
