import NatSpec.Contract.Resolve
import NatSpec.Proofs.Abi.Index

/-!
What is behind a contract that was resolved. Each part of its documentation is read off the results
of the passes over its output, and all of the passes succeeded.
-/

namespace NatSpec

/-- The passes over the output of a contract, all of which succeeded, and what they gave. -/
structure Resolution (contract : String) (fields : Fields) (strict : Bool) (doc : ContractDoc) where
  id : ContractName
  trees : Trees
  index : Abi.Index
  members : Members
  groups : Groups
  parsed : ContractName.parse contract = .ok id
  hasAbi : (Json.field fields "abi").isNull = false
  placed : Trees.ofOutput contract fields = .ok trees
  shallow : Abi.checkEntries (Json.field fields "abi") = .ok ()
  indexed : Abi.index (Json.field fields "abi") = .ok index
  unrepeated : (strict && !index.duplicates.isEmpty) = false
  annotated : index.annotated trees = .ok members
  grouped : members.groups = .ok groups
  assembled : ContractDoc.ofMembers id trees members groups
    (index.duplicates.map (duplicateWarning contract)) = .ok doc

theorem exists_resolution {contract : String} {output : Json} {strict : Bool} {doc : ContractDoc}
    (h : resolveContract contract output strict = .ok doc) :
    ∃ fields, output = .obj fields ∧ Nonempty (Resolution contract fields strict doc) := by
  unfold resolveContract at h
  obtain ⟨id, hid, h⟩ := bind_eq_ok_iff.1 h
  obtain ⟨fields, hfields, h⟩ := bind_eq_ok_iff.1 h
  refine ⟨fields, Abi.exists_fieldsOf (liftM_eq_ok_iff.1 hfields), ?_⟩
  dsimp only at h
  split at h
  · cases h
  · rename_i hasAbi
    obtain ⟨trees, htrees, h⟩ := bind_eq_ok_iff.1 h
    obtain ⟨⟨⟩, hshallow, h⟩ := bind_eq_ok_iff.1 h
    obtain ⟨index, hindex, h⟩ := bind_eq_ok_iff.1 h
    split at h
    · cases h
    · rename_i hunrepeated
      obtain ⟨members, hmembers, h⟩ := bind_eq_ok_iff.1 h
      obtain ⟨groups, hgroups, h⟩ := bind_eq_ok_iff.1 h
      rw [liftM_eq_ok_iff] at hshallow hindex hmembers hgroups h
      exact ⟨{
        id, trees, index, members, groups
        parsed := hid
        hasAbi := by simpa using hasAbi
        placed := htrees
        shallow := hshallow
        indexed := hindex
        unrepeated := by simpa using hunrepeated
        annotated := hmembers
        grouped := hgroups
        assembled := h }⟩

/-- What the documentation is made of. -/
theorem ContractDoc.exists_of_ofMembers {id : ContractName} {trees : Trees} {members : Members}
    {groups : Groups} {warnings : List String} {doc : ContractDoc}
    (h : ofMembers id trees members groups warnings = .ok doc) :
    ∃ devdoc userdoc, trees = ⟨.obj devdoc, .obj userdoc⟩ ∧ doc = {
      source := .str id.source
      name := .str id.name
      title := Json.field devdoc "title"
      author := Json.field devdoc "author"
      details := Json.field devdoc "details"
      notice := Json.field userdoc "notice"
      constructor := members.constructorRecord
      fallback := (members.get? "fallback()").getD .null
      receive := (members.get? "receive()").getD .null
      events := groups.ofKind "event"
      stateVariables := groups.ofKind Members.stateVariableKind
      methods := groups.ofKind Abi.functionKind
      warnings := warnings } := by
  obtain ⟨devtree, usertree⟩ := trees
  unfold ofMembers at h
  obtain ⟨devdoc, hdevdoc, h⟩ := bind_eq_ok_iff.1 h
  obtain ⟨userdoc, huserdoc, h⟩ := bind_eq_ok_iff.1 h
  obtain rfl := Abi.exists_fieldsOf hdevdoc
  obtain rfl := Abi.exists_fieldsOf huserdoc
  exact ⟨devdoc, userdoc, rfl, (Except.ok.inj h).symm⟩

/-- The documentation shows the record of the constructor among the merged members. -/
theorem Resolution.constructor_eq {contract : String} {fields : Fields} {strict : Bool}
    {doc : ContractDoc} (r : Resolution contract fields strict doc) :
    doc.constructor = r.members.constructorRecord := by
  obtain ⟨devdoc, userdoc, -, hdoc⟩ := ContractDoc.exists_of_ofMembers r.assembled
  exact congrArg ContractDoc.constructor hdoc

/-- Documentation carries the two parts that the name of its contract is read as. -/
theorem parse_of_resolveContract {contract : String} {output : Json} {strict : Bool}
    {doc : ContractDoc} (h : resolveContract contract output strict = .ok doc) :
    ∃ id, ContractName.parse contract = .ok id ∧
      doc.source = .str id.source ∧ doc.name = .str id.name := by
  obtain ⟨fields, rfl, ⟨r⟩⟩ := exists_resolution h
  obtain ⟨devdoc, userdoc, -, hdoc⟩ := ContractDoc.exists_of_ofMembers r.assembled
  exact ⟨r.id, r.parsed, congrArg ContractDoc.source hdoc, congrArg ContractDoc.name hdoc⟩

end NatSpec
