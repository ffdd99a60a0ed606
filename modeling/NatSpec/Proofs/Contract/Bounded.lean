import NatSpec.BuildInfo
import NatSpec.Proofs.Bundle.Data
import NatSpec.Proofs.Contract.Placement
import NatSpec.Proofs.Contract.Resolve
import NatSpec.Proofs.Json.Accepted
import NatSpec.Proofs.Json.Bounded
import NatSpec.Proofs.Store

/-!
The depth of documentation. What is made of a bounded output is bounded: records take over parts of
the ABI and of the notes, and notes are taken from the output or from the text of its metadata. An
output lies deep in its build-info document. So the records of a document that was read are never too
deep for being read again.
-/

namespace NatSpec

open Json (Bounded bounded_obj_iff bounded_null bounded_str bounded_empty)

/-! ### Members -/

namespace Members

/-- Records under distinct signatures, each of them bounded. -/
structure AreBounded (n : Nat) (members : Members) : Prop where
  distinct : (Table.keys members).Nodup
  records : ∀ entry ∈ members, Bounded n entry.2

/-- A step that keeps records bounded, also if it stops at a fault. -/
def Step.Keeps (n : Nat) (step : Step) : Prop :=
  ∀ members, AreBounded n members → AreBounded n (step members).1

variable {n : Nat} {members : Members} {key name : String} {note tree : Json}

theorem areBounded_nil : AreBounded n [] :=
  ⟨List.nodup_nil, by simp⟩

theorem AreBounded.set (h : AreBounded n members) (key : String) {record : Json}
    (hrecord : Bounded n record) : AreBounded n (members.set key record) where
  distinct := Table.nodup_keys_set key record h.distinct
  records := fun entry he => (Table.forall_mem_set (P := fun _ => True)
    (fun e he => ⟨trivial, h.records e he⟩) trivial hrecord entry he).2

theorem AreBounded.get? (h : AreBounded n members) {record : Json}
    (hrecord : members.get? key = some record) : Bounded n record :=
  h.records _ (Table.mem_of_get? hrecord)

theorem AreBounded.getD (h : AreBounded n members) (key : String) :
    Bounded n ((members.get? key).getD .null) := by
  cases hrecord : members.get? key with
  | none => exact bounded_null
  | some record => exact h.get? hrecord

theorem AreBounded.toJson (h : AreBounded n members) : Bounded (n + 1) members.toJson := by
  refine bounded_obj_iff.2 ⟨Json.TextNames.proper ⟨Table.keys members, h.distinct, ?_⟩,
    List.forall_mem_map.2 h.records⟩
  simp [Table.keys]

theorem keeps_annotate (hnote : Bounded (n + 1) note) :
    Step.Keeps (n + 1) (annotate key note) := by
  intro members h
  unfold annotate
  split
  · exact h
  · exact h
  · rename_i fields hfields
    exact h.set key ((h.get? hfields).overlay hnote)
  · exact h

theorem keeps_annotateVariable (hnote : Bounded (n + 1) note) :
    Step.Keeps (n + 1) (annotateVariable name note) := by
  intro members h
  unfold annotateVariable
  dsimp only
  split
  · rename_i fields hfields
    have hrecord : Bounded (n + 1) (.obj fields) := by
      rw [← hfields]
      cases hget : members.get? (name ++ "()") with
      | none => exact bounded_empty
      | some record => exact h.get? hget
    have hlaid := hrecord.overlay hnote
    split
    · rename_i changed hchanged
      rw [hchanged] at hlaid
      exact h.set _ (hlaid.set (.str "type") (bounded_str _))
    · rename_i changed fault hchanged
      rw [hchanged] at hlaid
      exact h.set _ hlaid
  · exact h

theorem keeps_inTurn {steps : List Step} (h : ∀ step ∈ steps, step.Keeps n) :
    Step.Keeps n (inTurn steps) := by
  intro members hmembers
  induction steps generalizing members with
  | nil => exact hmembers
  | cons step steps ih =>
      obtain ⟨hstep, hsteps⟩ := List.forall_mem_cons.1 h
      have hchanged := hstep members hmembers
      rw [inTurn]
      split
      · rename_i changed heq
        rw [heq] at hchanged
        exact ih hsteps changed hchanged
      · rename_i changed fault heq
        rwa [heq] at hchanged

/-- The notes of a section lie two levels below the tree that it is a part of. -/
theorem bounded_sectionOf (htree : Bounded (n + 2) tree) {entries : List (String × Json)}
    (h : sectionOf tree name = .ok entries) : ∀ entry ∈ entries, Bounded n entry.2 := by
  unfold sectionOf at h
  split at h
  · rename_i fields hfields
    have hroot : Bounded (n + 2) (.obj fields) := hfields ▸ htree.orElse bounded_empty
    split at h
    · rename_i notes hnotes
      obtain rfl := Except.ok.inj h
      have hsection : Bounded (n + 1) (.obj notes) :=
        hnotes ▸ (hroot.field _).orElse bounded_empty
      intro entry hentry
      obtain ⟨⟨key, note⟩, hmem, hkey⟩ := List.mem_filterMap.1 hentry
      obtain ⟨text, -, rfl⟩ := Option.map_eq_some_iff.1 hkey
      exact (bounded_obj_iff.1 hsection).2 _ hmem
    · cases h
  · cases h

theorem keeps_mergeSection {merge : List (String × Json) → Step} (htree : Bounded (n + 2) tree)
    (h : ∀ entries, (∀ entry ∈ entries, Bounded n entry.2) → Step.Keeps n (merge entries)) :
    Step.Keeps n (mergeSection tree name merge) := by
  intro members hmembers
  rw [mergeSection]
  split
  · rename_i entries hentries
    exact h entries (bounded_sectionOf htree hentries) members hmembers
  · exact hmembers

theorem bounded_nameConstructor (members : Members) {entries : List (String × Json)}
    (h : ∀ entry ∈ entries, Bounded n entry.2) :
    ∀ entry ∈ nameConstructor members entries, Bounded n entry.2 := by
  unfold nameConstructor
  split
  · exact h
  · intro entry hentry
    refine (Table.forall_mem_ofList (P := fun _ => True) ?_ entry hentry).2
    exact List.forall_mem_map.2 fun e he => ⟨trivial, h e he⟩

/-- Merging notes keeps records bounded. -/
theorem keeps_merge {devdoc userdoc : Json} (hdevdoc : Bounded (n + 3) devdoc)
    (huserdoc : Bounded (n + 3) userdoc) : Step.Keeps (n + 1) (merge devdoc userdoc) := by
  have hevents : ∀ tree, Bounded (n + 3) tree → Step.Keeps (n + 1) (mergeEvents tree) := by
    intro tree htree
    exact keeps_mergeSection htree fun entries hentries => keeps_inTurn
      (List.forall_mem_map.2 fun entry he => keeps_annotate (hentries entry he))
  have hmethods : ∀ tree, Bounded (n + 3) tree → Step.Keeps (n + 1) (mergeMethods tree) := by
    intro tree htree
    refine keeps_mergeSection htree fun entries hentries members => keeps_inTurn ?_ members
    exact List.forall_mem_map.2 fun entry he =>
      keeps_annotate (bounded_nameConstructor members hentries entry he)
  have hvariables : Step.Keeps (n + 1) (mergeVariables devdoc) :=
    keeps_mergeSection hdevdoc fun entries hentries => keeps_inTurn
      (List.forall_mem_map.2 fun entry he => keeps_annotateVariable (hentries entry he))
  refine keeps_inTurn ?_
  simp only [List.forall_mem_cons, List.not_mem_nil, false_implies, implies_true, and_true]
  exact ⟨hevents _ hdevdoc, hvariables, hmethods _ hdevdoc, hevents _ huserdoc,
    hmethods _ huserdoc⟩

end Members

open Members (AreBounded)

variable {n : Nat}

/-- The records of an index are entries of the ABI. -/
theorem Abi.areBounded_index {abi : Json} {index : Abi.Index} (habi : Bounded (n + 1) abi)
    (h : Abi.index abi = .ok index) : AreBounded n index.members := by
  unfold Abi.index at h
  split at h
  · cases h
  · rename_i entries helements
    refine foldlM_keeps_of_mem (I := fun index => AreBounded n index.members) ?_ h
      Members.areBounded_nil
    intro index entry hentry next hindex hnext
    obtain ⟨fields, s, -, -, hmembers, -⟩ := Index.exists_add hnext
    rw [hmembers]
    exact hindex.set s (habi.elements helements entry hentry)

theorem Abi.Index.areBounded_annotated {index : Abi.Index} {trees : Trees} {members : Members}
    (hindex : AreBounded (n + 1) index.members) (hdevdoc : Bounded (n + 3) trees.devdoc)
    (huserdoc : Bounded (n + 3) trees.userdoc) (h : index.annotated trees = .ok members) :
    AreBounded (n + 1) members := by
  have hmerged := Members.keeps_merge hdevdoc huserdoc index.members hindex
  unfold Abi.Index.annotated at h
  split at h
  · rename_i merged hmerge
    obtain rfl := Except.ok.inj h
    rwa [hmerge] at hmerged
  · cases h

theorem Members.areBounded_groups {members : Members} {groups : Groups}
    (hmembers : AreBounded n members) (h : members.groups = .ok groups) :
    ∀ group ∈ groups, AreBounded n group.2 := by
  refine foldlM_keeps_of_mem (I := fun groups : Groups => ∀ group ∈ groups, AreBounded n group.2)
    ?_ h (by simp)
  intro groups entry hentry next hgroups hnext
  obtain ⟨kind, -, hnext⟩ := bind_eq_ok_iff.1 hnext
  obtain rfl := Except.ok.inj hnext
  have hgroup : AreBounded n ((groups.get? kind).getD []) := by
    cases hfound : groups.get? kind with
    | none => exact Members.areBounded_nil
    | some group =>
        obtain ⟨k, hmem⟩ := Table.exists_mem_of_get?_eq_some hfound
        exact hgroups _ hmem
  intro group hmem
  have hall := Table.forall_mem_set (P := fun _ => True) (fun e he => ⟨trivial, hgroups e he⟩)
    trivial (hgroup.set entry.1 (hmembers.records entry hentry)) group hmem
  exact hall.2

theorem Groups.bounded_ofKind {groups : Groups} (h : ∀ group ∈ groups, AreBounded n group.2)
    (kind : String) : Bounded (n + 1) (groups.ofKind kind) := by
  unfold Groups.ofKind
  split
  · exact bounded_null
  · rename_i group hgroup
    obtain ⟨k, hmem⟩ := Table.exists_mem_of_get?_eq_some hgroup
    exact (h _ hmem).toJson

/-! ### Contracts

What is read is nested no deeper than 990 levels. The output of a contract lies four levels below
the document that holds it, and its metadata may be a text that is read on its own. -/

namespace Trees

variable {contract : String} {trees : Trees}

theorem bounded_metadataFields {metadata : Json} {fields : Fields}
    (hmetadata : Bounded 990 metadata) (h : metadataFields contract metadata = .ok fields) :
    Bounded 990 (.obj fields) := by
  cases metadataFields_eq_ok_iff.1 h with
  | object => exact hmetadata
  | text hread =>
      obtain ⟨hstandard, hdepth⟩ := Json.standard_of_read hread
      exact ⟨hstandard.mono fun _ => Json.TextNames.proper, hdepth⟩

theorem bounded_fromMetadata {devdoc userdoc metadata : Json} (hdevdoc : Bounded 988 devdoc)
    (huserdoc : Bounded 988 userdoc) (hmetadata : Bounded 990 metadata)
    (h : fromMetadata contract devdoc userdoc metadata = .ok trees) :
    Bounded 988 trees.devdoc ∧ Bounded 988 trees.userdoc := by
  unfold fromMetadata at h
  obtain ⟨fields, hfields, h⟩ := bind_eq_ok_iff.1 h
  split at h
  · rename_i output houtput
    obtain rfl := Except.ok.inj h
    have hsection : Bounded 989 (.obj output) :=
      houtput ▸ ((bounded_metadataFields hmetadata hfields).field _).orElse bounded_empty
    constructor
    · dsimp only
      split
      · exact hsection.field _
      · exact hdevdoc
    · dsimp only
      split
      · exact hsection.field _
      · exact huserdoc
  · cases h

theorem bounded_ofOutput {output : Fields} (houtput : Bounded 986 (.obj output))
    (h : ofOutput contract output = .ok trees) :
    Bounded 988 trees.devdoc ∧ Bounded 988 trees.userdoc := by
  have hfield : ∀ key, Bounded 988 (Json.field output key) := fun key =>
    (houtput.field key).mono (by decide)
  have hfound : ∀ found : Trees, Bounded 988 found.devdoc ∧ Bounded 988 found.userdoc →
      Except.ok (ε := Failure) ⟨found.devdoc.orElse (.obj []), found.userdoc.orElse (.obj [])⟩ =
        .ok trees → Bounded 988 trees.devdoc ∧ Bounded 988 trees.userdoc := by
    rintro found ⟨hdevdoc, huserdoc⟩ hfound
    obtain rfl := Except.ok.inj hfound
    exact ⟨hdevdoc.orElse bounded_empty, huserdoc.orElse bounded_empty⟩
  unfold ofOutput at h
  dsimp only at h
  split at h
  · obtain ⟨found, hmetadata, h⟩ := bind_eq_ok_iff.1 h
    exact hfound found
      (bounded_fromMetadata (hfield _) (hfield _) ((hfield _).mono (by decide)) hmetadata) h
  · exact hfound _ ⟨hfield _, hfield _⟩ h

end Trees

theorem ContractDoc.bounded_toJson {doc : ContractDoc} (h : ∀ v ∈ doc.values, Bounded n v) :
    Bounded (n + 1) doc.toJson where
  proper := valid_toJson (fun _ => Json.TextNames.proper) fun v hv => (h v hv).proper
  depth := Json.depth_obj_le_iff.2 (by simpa [values] using fun v hv => (h v hv).depth)

/-- What is made of a bounded output is bounded. -/
theorem bounded_resolveContract {contract : String} {output : Json} {strict : Bool}
    {doc : ContractDoc} (houtput : Bounded 986 output)
    (h : resolveContract contract output strict = .ok doc) : Bounded 988 doc.toJson := by
  obtain ⟨fields, rfl, ⟨r⟩⟩ := exists_resolution h
  obtain ⟨hdevdoc, huserdoc⟩ := Trees.bounded_ofOutput houtput r.placed
  have hindex : AreBounded 986 r.index.members :=
    Abi.areBounded_index ((houtput.field _).mono (by decide)) r.indexed
  have hmembers := r.index.areBounded_annotated hindex hdevdoc huserdoc r.annotated
  have hgroups := Members.areBounded_groups hmembers r.grouped
  obtain ⟨devdoc, userdoc, htrees, hdoc⟩ := ContractDoc.exists_of_ofMembers r.assembled
  rw [htrees] at hdevdoc huserdoc
  have hspecial : ∀ key, Bounded 987 ((r.members.get? key).getD .null) := fun key =>
    (hmembers.getD key).mono (by decide)
  have hconstructor : Bounded 987 r.members.constructorRecord := by
    unfold Members.constructorRecord
    split
    · exact bounded_null
    · exact hspecial _
  refine ContractDoc.bounded_toJson ?_
  rw [hdoc]
  simp only [ContractDoc.values, List.forall_mem_cons, List.not_mem_nil, false_implies,
    implies_true, and_true]
  exact ⟨bounded_str _, bounded_str _, hdevdoc.field _, hdevdoc.field _, hdevdoc.field _,
    huserdoc.field _, hconstructor, hspecial _, hspecial _, Groups.bounded_ofKind hgroups _,
    Groups.bounded_ofKind hgroups _, Groups.bounded_ofKind hgroups _⟩

/-! ### Documents that were read -/

namespace BuildInfo

/-- What is found under a path lies as deep in a document as the path is long. -/
theorem standard_atPath {v found : Json} {names : List String} (hv : v.Standard)
    (h : atPath v names = .ok found) :
    found.Standard ∧ found.depth + names.length ≤ v.depth := by
  induction names generalizing v with
  | nil =>
      obtain rfl := Except.ok.inj h
      exact ⟨hv, le_rfl⟩
  | cons name names ih =>
      obtain ⟨next, hnext, h⟩ := bind_eq_ok_iff.1 h
      unfold lookup at hnext
      split at hnext
      · split at hnext
        · rename_i fields v hget
          obtain rfl := Except.ok.inj hnext
          obtain ⟨k, hmem⟩ := Table.exists_mem_of_get?_eq_some hget
          obtain ⟨hfound, hdepth⟩ := ih (hv.entries _ hmem) h
          have hentry := Json.depthFields_le_iff.1 le_rfl _ hmem
          refine ⟨hfound, ?_⟩
          rw [Json.depth, List.length_cons]
          dsimp only at hentry hdepth
          omega
        · cases hnext
      · cases hnext

/-- The output of a contract in a document that was read. -/
theorem standard_output {document output : Json} {id : ContractName} (h : document.Standard)
    (hdepth : document.depth ≤ Json.Reader.maxNesting)
    (houtput : BuildInfo.output document id = .ok output) :
    output.Standard ∧ output.depth ≤ 986 := by
  unfold BuildInfo.output at houtput
  split at houtput
  · cases houtput
  · rename_i found hpath
    obtain rfl := Except.ok.inj houtput
    obtain ⟨hfound, hdeep⟩ := standard_atPath h hpath
    have : Json.Reader.maxNesting = 990 := rfl
    simp only [List.length_cons, List.length_nil] at hdeep
    exact ⟨hfound, by omega⟩
  · cases houtput

theorem bounded_output {document output : Json} {id : ContractName} (h : document.Standard)
    (hdepth : document.depth ≤ Json.Reader.maxNesting)
    (houtput : BuildInfo.output document id = .ok output) : Bounded 986 output := by
  obtain ⟨hstandard, hdeep⟩ := standard_output h hdepth houtput
  exact ⟨hstandard.mono fun _ => Json.TextNames.proper, hdeep⟩

end BuildInfo

theorem Store.Documented.bounded_records {store : Store} {strict : Bool} {names : List String}
    {docs : Docs} (h : store.Documented strict names docs)
    (houtput : ∀ name ∈ names, ∀ output, store.output name = .ok output → Bounded 986 output) :
    ∀ e ∈ docs, Bounded 988 e.2.toJson := by
  intro e he
  obtain ⟨output, hfetched, hdoc⟩ := h.made e.1 e.2 (Table.get?_of_mem h.distinct he)
  have hname := (h.mem_keys e.1).1 (Table.mem_keys_of_mem he)
  exact bounded_resolveContract (houtput e.1 hname output hfetched) hdoc

theorem Docs.bounded_toJson {docs : Docs} (hdistinct : (Table.keys docs).Nodup)
    (h : ∀ e ∈ docs, Bounded n e.2.toJson) : Bounded (n + 1) docs.toJson :=
  Json.bounded_obj_iff.2 ⟨Json.TextNames.proper ⟨Table.keys docs, hdistinct, docs.keys_toJson⟩,
    List.forall_mem_map.2 h⟩

theorem Docs.bounded_data {docs : Docs} (hdistinct : (Table.keys docs).Nodup)
    (h : ∀ e ∈ docs, Bounded n e.2.toJson) : Bounded (n + 1) docs.data :=
  bounded_toJson (((docs.sorted_perm.map Prod.fst).nodup_iff).2 hdistinct) fun e he =>
    h e (docs.sorted_perm.mem_iff.1 he)

end NatSpec
