import NatSpec.Proofs.Abi.Repeats
import NatSpec.Proofs.Contract.Faults

/-!
Repeated signatures in a contract. Behind the index of the ABI a strict run does what any other does,
and it gets there just when no signature is repeated. The main statement says what an index holds and
what it reports, for every ABI that has one, and what the two kinds of runs make of it.
-/

namespace NatSpec

variable {contract : String} {id : ContractName} {output : Fields} {trees : Trees}
  {index : Abi.Index} {doc : ContractDoc}

/-- What is left to do for a contract once its ABI has an index. -/
def Abi.Index.document (index : Abi.Index) (contract : String) (id : ContractName) (trees : Trees) :
    Except Failure ContractDoc := do
  let members ← index.annotated trees
  let groups ← members.groups
  ContractDoc.ofMembers id trees members groups
    (index.duplicates.map (duplicateWarning contract))

theorem resolveContract_of_indexed (hid : ContractName.parse contract = .ok id)
    (htrees : Trees.ofOutput contract output = .ok trees)
    (hshallow : Abi.checkEntries (Json.field output "abi") = .ok ())
    (hindex : Abi.index (Json.field output "abi") = .ok index) (strict : Bool) :
    resolveContract contract (.obj output) strict =
      if strict && !index.duplicates.isEmpty then
        (Problem.duplicateSignatures contract index.duplicates).fail
      else index.document contract id trees := by
  have habi : (Json.field output "abi").isNull = false := by
    cases hnull : Json.field output "abi" with
    | null =>
        rw [hnull] at hindex
        cases hindex
    | _ => rfl
  simp only [resolveContract, hid, ok_bind, Abi.fieldsOf, liftM_ok, habi, htrees, hshallow, hindex]
  rfl

theorem resolveContract_lenient (hid : ContractName.parse contract = .ok id)
    (htrees : Trees.ofOutput contract output = .ok trees)
    (hshallow : Abi.checkEntries (Json.field output "abi") = .ok ())
    (hindex : Abi.index (Json.field output "abi") = .ok index) :
    resolveContract contract (.obj output) false = index.document contract id trees := by
  rw [resolveContract_of_indexed hid htrees hshallow hindex, Bool.false_and,
    if_neg Bool.false_ne_true]

/-- A strict run is a run like any other where nothing is repeated, and fails where something is. -/
theorem resolveContract_strict (hid : ContractName.parse contract = .ok id)
    (htrees : Trees.ofOutput contract output = .ok trees)
    (hshallow : Abi.checkEntries (Json.field output "abi") = .ok ())
    (hindex : Abi.index (Json.field output "abi") = .ok index) :
    resolveContract contract (.obj output) true =
      if index.duplicates = [] then resolveContract contract (.obj output) false
      else .error (.problem (.duplicateSignatures contract index.duplicates)) := by
  rw [resolveContract_lenient hid htrees hshallow hindex,
    resolveContract_of_indexed hid htrees hshallow hindex, Bool.true_and]
  cases index.duplicates <;> rfl

theorem Abi.Index.warnings_of_document (h : index.document contract id trees = .ok doc) :
    doc.warnings = index.duplicates.map (duplicateWarning contract) := by
  unfold document at h
  obtain ⟨members, -, h⟩ := bind_eq_ok_iff.1 h
  obtain ⟨groups, -, h⟩ := bind_eq_ok_iff.1 h
  obtain ⟨devdoc, userdoc, -, hdoc⟩ := ContractDoc.exists_of_ofMembers (liftM_eq_ok_iff.1 h)
  exact congrArg ContractDoc.warnings hdoc

/-- Once there is an index nothing is reported any more. -/
theorem Abi.Index.document_ne_problem (htrees : Trees.ofOutput contract output = .ok trees)
    (hindex : Abi.index (Json.field output "abi") = .ok index) (p : Problem) :
    index.document contract id trees ≠ .error (.problem p) := by
  intro h
  have hunrepeated : false = true → index.duplicates = [] := nofun
  obtain ⟨-, fault, hfault⟩ := misshapen_behind_index htrees hindex hunrepeated h
  cases hfault

/-- Every ABI that has an index is accounted for in it. The index has the signatures of the entries
where they first occur, each with the last entry that has it, and reports those that occurred before,
in the order of the entries. A strict run fails with the list of them if there are any, and is a run
like any other if there are none; another run warns of each of them. -/
theorem duplicates_of_index {abi : Json} (hindex : Abi.index abi = .ok index) :
    ∃ entries signatures,
      abi.elements? = some entries ∧ entries.mapM Abi.signatureOf = .ok signatures ∧
      index.members.keys = signatures.eraseDups ∧
      (∀ before entry after s, entries = before ++ entry :: after → Abi.signatureOf entry = .ok s →
        (∀ later ∈ after, Abi.signatureOf later ≠ .ok s) → index.members.get? s = some entry) ∧
      index.duplicates = Abi.repeats signatures ∧
      (∀ s, index.duplicates.count s = signatures.count s - 1) ∧
      index.duplicates.length + index.members.length = entries.length ∧
      ∀ contract id output trees, ContractName.parse contract = .ok id →
        Json.field output "abi" = abi → Trees.ofOutput contract output = .ok trees →
        Abi.checkEntries abi = .ok () →
          ((∃ p : Problem, resolveContract contract (.obj output) true = .error (.problem p) ∧
            p.kind = .duplicateSignature) ↔ ¬signatures.Nodup) ∧
          (¬signatures.Nodup → ∃ p : Problem,
            resolveContract contract (.obj output) true = .error (.problem p) ∧
            p = .duplicateSignatures contract (Abi.repeats signatures) ∧
            p.message = "Duplicate signatures in " ++ contract ++ ": " ++
              ", ".intercalate (Abi.repeats signatures)) ∧
          (signatures.Nodup → resolveContract contract (.obj output) true =
            resolveContract contract (.obj output) false) ∧
          (∀ doc, resolveContract contract (.obj output) false = .ok doc →
            doc.warnings = (Abi.repeats signatures).map (duplicateWarning contract)) ∧
          ((∃ doc, resolveContract contract (.obj output) false = .ok doc) ↔
            ¬MeetsFault contract output false) := by
  obtain ⟨entries, helements, hentries⟩ := Abi.indexEntries_of_index hindex
  obtain ⟨signatures, hsignatures, hkeys, hduplicates⟩ := Abi.exists_signatures hentries
  have hlengths : index.duplicates.length + index.members.length = entries.length := by
    rw [hduplicates, ← List.length_map Prod.fst, show index.members.map Prod.fst = _ from hkeys,
      Abi.length_repeats, (mapM_eq_ok_iff.1 hsignatures).length_eq]
  refine ⟨entries, signatures, helements, hsignatures, hkeys, ?_, hduplicates, ?_, hlengths, ?_⟩
  · rintro before entry after s rfl hs hlast
    exact Abi.get?_index_of_last hentries hs hlast
  · intro s
    rw [hduplicates, Abi.count_repeats]
  rintro contract id output trees hid rfl htrees hshallow
  have hlenient := resolveContract_lenient hid htrees hshallow hindex
  have hstrict := resolveContract_strict hid htrees hshallow hindex
  have hreports (p : Problem) : resolveContract contract (.obj output) false ≠ .error (.problem p) :=
    hlenient ▸ Abi.Index.document_ne_problem htrees hindex p
  simp only [hduplicates, Abi.repeats_eq_nil_iff] at hstrict
  have hunrepeated (hnodup : signatures.Nodup) := hstrict.trans (if_pos hnodup)
  have hrepeated (hnodup : ¬signatures.Nodup) := hstrict.trans (if_neg hnodup)
  refine ⟨⟨?_, ?_⟩, fun hnodup => ⟨_, hrepeated hnodup, rfl, rfl⟩, hunrepeated, ?_, ?_⟩
  · rintro ⟨p, hp, -⟩ hnodup
    rw [hunrepeated hnodup] at hp
    exact hreports p hp
  · intro hnodup
    exact ⟨_, hrepeated hnodup, rfl⟩
  · intro doc hdoc
    rw [← hduplicates]
    exact Abi.Index.warnings_of_document (hlenient.symm.trans hdoc)
  · rw [← exists_fault_iff]
    cases hresult : resolveContract contract (.obj output) false with
    | ok doc => simp
    | error failure =>
        cases failure with
        | problem p => exact absurd hresult (hreports p)
        | fault fault => simp

/-- A function without inputs, with its mutability. -/
def plainFunction (name mutability : String) : Json :=
  .obj [("type", .str "function"), ("name", .str name), ("inputs", .arr []),
    ("stateMutability", .str mutability)]

/-- Three functions, the first and the last of which share a signature. -/
def repeatingAbi : Json :=
  .arr [plainFunction "f" "view", plainFunction "g" "view", plainFunction "f" "pure"]

def repeatingIndex : Abi.Index :=
  ⟨[("f()", plainFunction "f" "pure"), ("g()", plainFunction "g" "view")], ["f()"]⟩

theorem duplicates_of_index_sample :
    Abi.index repeatingAbi = .ok repeatingIndex ∧
    repeatingIndex.members.get? "f()" = some (plainFunction "f" "pure") ∧
    (∃ p : Problem, resolveContract "a.sol:A" (.obj [("abi", repeatingAbi)]) true =
      .error (.problem p) ∧ p.message = "Duplicate signatures in a.sol:A: f()") ∧
    ∃ doc, resolveContract "a.sol:A" (.obj [("abi", repeatingAbi)]) false = .ok doc ∧
      doc.warnings = ["a.sol:A: duplicate signature f(), later ABI entry kept"] := by
  have hindex : Abi.index repeatingAbi = .ok repeatingIndex := by rfl
  obtain ⟨entries, signatures, helements, hsignatures, -, hlast, -, -, -, hresolve⟩ :=
    duplicates_of_index hindex
  obtain rfl := Option.some.inj helements
  obtain rfl : ["f()", "g()", "f()"] = signatures := Except.ok.inj hsignatures
  obtain ⟨-, hstrict, -, hwarnings, -⟩ := hresolve "a.sol:A" ⟨"a.sol", "A"⟩
    [("abi", repeatingAbi)] ⟨.obj [], .obj []⟩ rfl rfl rfl rfl
  obtain ⟨p, hp, -, hmessage⟩ := hstrict (by decide)
  have hdoc : ∃ doc, resolveContract "a.sol:A" (.obj [("abi", repeatingAbi)]) false = .ok doc :=
    ⟨_, rfl⟩
  obtain ⟨doc, hdoc⟩ := hdoc
  refine ⟨hindex, ?_, ⟨p, hp, hmessage⟩, doc, hdoc, hwarnings doc hdoc⟩
  exact hlast [plainFunction "f" "view", plainFunction "g" "view"] _ [] "f()" rfl rfl nofun

end NatSpec
