import NatSpec.Proofs.Contract.Members
import NatSpec.Proofs.Members.Grouped

/-!
The groups of a contract's documentation. They are cut out of the merged members, which have the
order of the ABI and then that of the notes on state variables. The main statement is that each
member is in the group of its kind and in no other, and that the three groups that are shown are those
of functions, events and state variables.
-/

namespace NatSpec

namespace ContractDoc

/-- The kinds whose members are shown in groups. -/
def ordinaryKinds : List String :=
  [Abi.functionKind, "event", Members.stateVariableKind]

/-- The three groups of members under their kinds. -/
def ordinaryGroups (doc : ContractDoc) : List (String × Json) :=
  [(Abi.functionKind, doc.methods), ("event", doc.events),
    (Members.stateVariableKind, doc.stateVariables)]

/-- The keys of the members in the three groups. -/
def ordinaryKeys (doc : ContractDoc) : List Json.Key :=
  doc.ordinaryGroups.flatMap fun slot => Table.keys (slot.2.asFields?.getD [])

end ContractDoc

theorem Json.Key.text_injective : Function.Injective (Json.Key.text : String → Json.Key) :=
  fun _ _ => Json.Key.text.inj

theorem Members.isKind_text_iff {kind : String} {fields : Fields} :
    isKind kind (.obj fields) = true ↔ Abi.kindOf fields = .str kind := by
  rw [isKind_obj]
  cases Abi.kindOf fields with
  | str own => simp [Json.asKey?, Json.Key.text_beq]
  | float x =>
      simp only [Json.asKey?, Option.any_some, Json.Key.beq_iff, Json.Key.value, reduceCtorEq,
        iff_false]
      split <;> simp
  | _ => simp [Json.asKey?, Json.Key.beq_iff, Json.Key.value]

theorem Members.get?_named (members : Members) (key : String) :
    Table.get? (members.map fun entry => (Json.Key.text entry.1, entry.2)) (.text key) =
      members.get? key :=
  (Table.get?_map Json.Key.text id (fun a b => by rw [Json.Key.text_beq]; rfl) members key).trans
    (Option.map_id_apply ..)

theorem Members.Grouped.ofKind_eq {members : Members} {groups : Groups} (h : Grouped members groups)
    (kind : String) : groups.ofKind kind =
      if members.ofKind kind = [] then .null else (members.ofKind kind).toJson := by
  rw [Groups.ofKind, h.get?]
  by_cases hnone : members.ofKind kind = []
  · rw [if_pos hnone, if_pos hnone]
  · rw [if_neg hnone, if_neg hnone]

theorem Members.Grouped.keys_ofKind {members : Members} {groups : Groups}
    (h : Grouped members groups) (kind : String) :
    Table.keys ((groups.ofKind kind).asFields?.getD []) =
      (members.ofKind kind).keys.map Json.Key.text := by
  rw [h.ofKind_eq]
  split
  · rename_i hnone
    rw [hnone]
    rfl
  · simp [Members.toJson, Json.asFields?, Table.keys, Function.comp_def]

namespace Resolution

variable {contract : String} {fields : Fields} {strict : Bool} {doc : ContractDoc}

theorem groupedByKind (r : Resolution contract fields strict doc) :
    Members.Grouped r.members r.groups :=
  Members.grouped_of_groups r.merged.nodup_keys r.grouped

theorem methods_eq (r : Resolution contract fields strict doc) :
    doc.methods = r.groups.ofKind Abi.functionKind := by
  obtain ⟨devdoc, userdoc, -, hdoc⟩ := ContractDoc.exists_of_ofMembers r.assembled
  exact congrArg ContractDoc.methods hdoc

theorem events_eq (r : Resolution contract fields strict doc) :
    doc.events = r.groups.ofKind "event" := by
  obtain ⟨devdoc, userdoc, -, hdoc⟩ := ContractDoc.exists_of_ofMembers r.assembled
  exact congrArg ContractDoc.events hdoc

theorem stateVariables_eq (r : Resolution contract fields strict doc) :
    doc.stateVariables = r.groups.ofKind Members.stateVariableKind := by
  obtain ⟨devdoc, userdoc, -, hdoc⟩ := ContractDoc.exists_of_ofMembers r.assembled
  exact congrArg ContractDoc.stateVariables hdoc

theorem ordinaryGroups_eq (r : Resolution contract fields strict doc) :
    doc.ordinaryGroups =
      ContractDoc.ordinaryKinds.map fun kind => (kind, r.groups.ofKind kind) := by
  rw [ContractDoc.ordinaryGroups, r.methods_eq, r.events_eq, r.stateVariables_eq]
  rfl

theorem ordinaryKeys_eq (r : Resolution contract fields strict doc) :
    doc.ordinaryKeys = ContractDoc.ordinaryKinds.flatMap fun kind : String =>
      (r.members.ofKind kind).keys.map Json.Key.text := by
  rw [ContractDoc.ordinaryKeys, r.ordinaryGroups_eq, List.flatMap_map]
  simp only [r.groupedByKind.keys_ofKind]

theorem exists_group_of_kind (r : Resolution contract fields strict doc) {kind key : String}
    {record : Fields} (hget : r.members.get? key = some (.obj record))
    (hkind : Abi.kindOf record = .str kind) : ∃ group, r.groups.ofKind kind = .obj group ∧
      Table.get? group (.text key) = some (.obj record) := by
  have hheld : (r.members.ofKind kind).get? key = some (.obj record) :=
    (Members.get?_ofKind r.merged.nodup_keys).2 ⟨hget, Members.isKind_text_iff.2 hkind⟩
  have hsome : r.members.ofKind kind ≠ [] := List.ne_nil_of_mem (Table.mem_of_get? hheld)
  refine ⟨_, (r.groupedByKind.ofKind_eq kind).trans (if_neg hsome), ?_⟩
  exact (Members.get?_named (r.members.ofKind kind) key).trans hheld

/-- A member is in one of the three groups if its kind is one of theirs. -/
theorem mem_ordinaryKeys_iff (r : Resolution contract fields strict doc) {key : String}
    {record : Fields} (hget : r.members.get? key = some (.obj record)) :
    .text key ∈ doc.ordinaryKeys ↔
      ∃ kind ∈ ContractDoc.ordinaryKinds, Abi.kindOf record = .str kind := by
  rw [r.ordinaryKeys_eq, List.mem_flatMap]
  refine exists_congr fun kind => and_congr_right fun _ => ?_
  rw [List.mem_map_of_injective Json.Key.text_injective,
    Members.mem_keys_ofKind_iff r.merged.nodup_keys hget, Members.isKind_text_iff]

end Resolution

/-- The groups of every contract that is resolved are its merged members, each once. The members
stand in the order in which their signatures first occur in the ABI, and then in that of the state
variables that have notes; each group keeps this order. A member is in the group of its kind, where
none counts as that of a function, with the same record, and in no other group. Of the groups the
documentation shows those of functions, events and state variables, each as null just when it has
no member, so a member is in none of the three just when its kind is another one. -/
theorem groups_of_resolveContract {contract : String} {output : Json} {strict : Bool}
    {doc : ContractDoc} (h : resolveContract contract output strict = .ok doc) :
    ∃ fields, output = .obj fields ∧ ∃ r : Resolution contract fields strict doc,
      (∃ entries signatures, (Json.field fields "abi").elements? = some entries ∧
        entries.mapM Abi.signatureOf = .ok signatures ∧
        r.members.keys =
          (signatures ++ r.notedVariables.map fun note => Members.getter note.1).eraseDups) ∧
      Table.Distinct r.groups.keys ∧
      (∀ group ∈ r.groups, group.2 = r.members.ofKind group.1 ∧ group.2 ≠ []) ∧
      (∀ key record, (key, record) ∈ r.members → ∃ held kind, record = .obj held ∧
        (Abi.kindOf held).asKey? = some kind ∧
        ∃ group ∈ r.groups, (kind == group.1) = true ∧ (key, record) ∈ group.2 ∧
          ∀ other ∈ r.groups, key ∈ other.2.keys → other = group) ∧
      (∀ slot ∈ doc.ordinaryGroups, slot.2 = r.groups.ofKind slot.1 ∧
        slot.2 = if r.members.ofKind slot.1 = [] then .null
          else (r.members.ofKind slot.1).toJson) ∧
      ∀ key held, (key, .obj held) ∈ r.members →
        (.text key ∉ doc.ordinaryKeys ↔
          ∀ kind ∈ ContractDoc.ordinaryKinds, Abi.kindOf held ≠ .str kind) := by
  obtain ⟨fields, rfl, ⟨r⟩⟩ := exists_resolution h
  obtain ⟨entries, helements, hentries⟩ := Abi.indexEntries_of_index r.indexed
  obtain ⟨signatures, hsignatures, hkeys, -⟩ := Abi.exists_signatures hentries
  have hdistinct := r.merged.nodup_keys
  refine ⟨fields, rfl, r, ⟨entries, signatures, helements, hsignatures, ?_⟩,
    r.groupedByKind.distinct, fun group hgroup => r.groupedByKind.of_mem hgroup, ?_, ?_, ?_⟩
  · rw [r.merged.keys, hkeys, Table.eraseDups_eraseDups_append]
    rfl
  · intro key record hmem
    obtain ⟨kind, hkind⟩ := Members.exists_groups_iff.1 ⟨_, r.grouped⟩ _ hmem
    obtain ⟨base, -, hheld⟩ := r.exists_record (Table.mem_keys_of_mem hmem)
    obtain rfl := Option.some.inj ((Table.get?_of_mem hdistinct hmem).symm.trans hheld)
    refine ⟨_, kind, rfl, ?_, r.groupedByKind.exists_group hdistinct hmem hkind⟩
    exact Members.groupKey_obj_eq_ok_iff.1 hkind
  · intro slot hslot
    rw [r.ordinaryGroups_eq] at hslot
    obtain ⟨kind, -, rfl⟩ := List.mem_map.1 hslot
    exact ⟨rfl, r.groupedByKind.ofKind_eq kind⟩
  · intro key held hmem
    rw [r.mem_ordinaryKeys_iff (Table.get?_of_mem hdistinct hmem)]
    simp

/-- An ABI with an event, a member of no kind and an error, and a note on a state variable. -/
def mixedOutput : Fields :=
  [("abi", .arr [.obj [("type", .str "event"), ("name", .str "Paid")],
      .obj [("name", .str "pay")], .obj [("type", .str "error"), ("name", .str "Broke")]]),
    ("devdoc", .obj [("stateVariables", .obj [("owner", .obj [("details", .str "set once")])])])]

def mixedMembers : Members :=
  [("Paid()", .obj [("type", .str "event"), ("name", .str "Paid")]),
    ("pay()", .obj [("name", .str "pay")]),
    ("Broke()", .obj [("type", .str "error"), ("name", .str "Broke")]),
    ("owner()", .obj [("details", .str "set once"), ("type", .str "stateVariable")])]

/-- The error is shown nowhere. -/
theorem groups_of_resolveContract_sample :
    ∃ doc, resolveContract "a.sol:A" (.obj mixedOutput) false = .ok doc ∧
      doc.methods = .obj [("pay()", .obj [("name", .str "pay")])] ∧
      .text "Broke()" ∉ doc.ordinaryKeys := by
  have hdoc : ∃ doc, resolveContract "a.sol:A" (.obj mixedOutput) false = .ok doc := ⟨_, rfl⟩
  obtain ⟨doc, hdoc⟩ := hdoc
  obtain ⟨fields, hfields, r, -, -, -, -, hslots, hnone⟩ := groups_of_resolveContract hdoc
  obtain rfl := Json.obj.inj hfields
  have hmembers : r.members = mixedMembers := r.members_eq rfl rfl rfl
  refine ⟨doc, hdoc, ?_, (hnone "Broke()" [("type", .str "error"), ("name", .str "Broke")] ?_).2 ?_⟩
  · obtain ⟨-, hmethods⟩ := hslots ("function", doc.methods) List.mem_cons_self
    rw [hmembers] at hmethods
    exact hmethods
  · rw [hmembers]
    exact .tail _ (.tail _ (.head _))
  · intro kind hkind heq
    obtain rfl : "error" = kind := Json.str.inj heq
    revert hkind
    decide

end NatSpec
