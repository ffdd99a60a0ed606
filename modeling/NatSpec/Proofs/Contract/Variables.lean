import NatSpec.Proofs.Contract.Groups

/-!
State variables of a contract that was resolved. A note on one is laid over the record under its name
with empty brackets. That is the record of its getter if the getter takes no inputs; beside a getter
that takes some, as those of mappings and arrays do, a record of the variable's own is made.
-/

namespace NatSpec

open Members (getter)

/-! ### Signatures of getters -/

namespace Abi

theorem parenthesized_eq_iff {parts : List String} (h : ∀ part ∈ parts, part ≠ "") :
    parenthesized parts = "()" ↔ parts = [] := by
  constructor
  · intro hparts
    cases parts with
    | nil => rfl
    | cons first rest =>
        have hstart : ∃ t, ",".intercalate (first :: rest) = first ++ t := by
          cases rest with
          | nil => exact ⟨"", by simp⟩
          | cons next rest => exact ⟨_, String.intercalate_cons_cons.trans (String.append_assoc ..)⟩
        obtain ⟨t, ht⟩ := hstart
        have hlength := congrArg String.length hparts
        rw [parenthesized, ht] at hlength
        have hfirst : first.length ≠ 0 := fun hzero =>
          h first List.mem_cons_self (String.length_eq_zero_iff.1 hzero)
        simp only [String.length_append] at hlength
        have : ("(" : String).length = 1 := rfl
        have : (")" : String).length = 1 := rfl
        have : ("()" : String).length = 2 := rfl
        omega
  · rintro rfl
    rfl

/-- A member with the name of a variable has the signature of its getter just when it takes no
inputs. -/
theorem signature_eq_getter_iff {member : Fields} {name : String} {types : List Json}
    (hname : nameOf member = .str name) (htypes : inputTypes member = .ok types)
    (hspelled : ∀ type ∈ types, type ≠ .str "") :
    signature member = .ok (getter name) ↔ types = [] := by
  rw [signature, htypes, ok_bind, hname]
  constructor
  · intro h
    obtain ⟨parts, hparts, hsame⟩ := bind_eq_ok_iff.1 h
    rw [texts_eq_ok_iff] at hparts
    have hbrackets : parenthesized parts = "()" :=
      String.append_right_inj name |>.1 (Except.ok.inj hsame)
    have hnone : parts = [] := by
      refine (parenthesized_eq_iff fun part hpart => ?_).1 hbrackets
      rintro rfl
      exact hspelled _ (hparts ▸ List.mem_map_of_mem hpart) rfl
    rw [hparts, hnone, List.map_nil]
  · rintro rfl
    rfl

end Abi

/-- In the documentation of every contract that is resolved the members are those of the ABI and one
for each state variable that has a note, under its name with empty brackets. If the ABI has a member
with that signature, the note lies on it and nothing is made up; so it is for a getter without inputs.
Otherwise the record is made of notes only, also if there is a getter that takes inputs. All that the
note sets is in the record, which stands in the group of state variables if no later note sets its
kind. -/
theorem variables_of_resolveContract {contract : String} {output : Json} {strict : Bool}
    {doc : ContractDoc} (h : resolveContract contract output strict = .ok doc) :
    ∃ fields, output = .obj fields ∧ ∃ r : Resolution contract fields strict doc, ∃ entries,
      (Json.field fields "abi").elements? = some entries ∧
      (∀ key, key ∈ r.members.keys ↔ (∃ entry ∈ entries, Abi.signatureOf entry = .ok key) ∨
        ∃ note ∈ r.notedVariables, getter note.1 = key) ∧
      ∀ name note, (name, note) ∈ r.notedVariables → ∃ base record,
        r.members.get? (getter name) = some (.obj record) ∧
        (r.index.members.get? (getter name)).getD (.obj []) = .obj base ∧
        record = Table.overlay base (r.laid (getter name)) ∧
        (∀ change ∈ note.changes, Table.contains record change.1 = true) ∧
        (¬Members.Sets (r.laidLater (getter name)) "type" → ∃ group,
          doc.stateVariables = .obj group ∧
            Table.get? group (.text (getter name)) = some (.obj record)) ∧
        ((∃ entry ∈ entries, Abi.signatureOf entry = .ok (getter name)) →
          .obj base ∈ entries ∧ Abi.signatureOf (.obj base) = .ok (getter name)) ∧
        ((∀ entry ∈ entries, Abi.signatureOf entry ≠ .ok (getter name)) → base = []) ∧
        ∀ member, .obj member ∈ entries → Abi.nameOf member = .str name →
          ∃ types, Abi.inputTypes member = .ok types ∧ ((∀ type ∈ types, type ≠ .str "") →
            (Abi.signatureOf (.obj member) = .ok (getter name) ↔ types = [])) := by
  obtain ⟨fields, rfl, ⟨r⟩⟩ := exists_resolution h
  obtain ⟨entries, helements, hentries⟩ := Abi.indexEntries_of_index r.indexed
  refine ⟨fields, rfl, r, entries, helements, fun key => ?_, fun name note hnote => ?_⟩
  · rw [← Abi.mem_keys_index_iff hentries]
    exact r.merged.mem_keys_iff
  have hkey : getter name ∈ r.members.keys := r.merged.mem_keys_iff.2 (.inr ⟨_, hnote, rfl⟩)
  obtain ⟨base, hbase, hrecord⟩ := r.exists_record hkey
  refine ⟨base, _, hrecord, hbase, rfl, fun change hchange => ?_, fun hlater => ?_, fun hgetter => ?_,
    fun hnone => ?_, fun member hmember hname => ?_⟩
  · refine Table.contains_overlay_of_mem base ?_
    rw [r.laid_eq]
    exact List.mem_append_left _
      (List.mem_append_right _ (Members.mem_variableFields hnote hchange))
  · rw [r.stateVariables_eq]
    exact r.exists_group_of_kind hrecord (r.kindOf_variable hnote hlater base)
  · obtain ⟨held, hheld⟩ :=
      Table.exists_get?_of_mem_keys ((Abi.mem_keys_index_iff hentries).2 hgetter)
    rw [hheld, Option.getD_some] at hbase
    exact hbase ▸ Abi.of_get?_index hentries hheld
  · -- The index has signatures of entries only.
    have hnew : getter name ∉ r.index.members.keys := fun hmem => by
      obtain ⟨entry, hentry, hs⟩ := (Abi.mem_keys_index_iff hentries).1 hmem
      exact hnone entry hentry hs
    rw [Table.get?_eq_none_iff.2 hnew, Option.getD_none] at hbase
    exact (Json.obj.inj hbase).symm
  · obtain ⟨s, hs⟩ := Abi.exists_signatureOf hentries hmember
    obtain ⟨types, htypes, -⟩ := bind_eq_ok_iff.1 (show Abi.signature member = .ok s from hs)
    exact ⟨types, htypes, Abi.signature_eq_getter_iff hname htypes⟩

/-- A public variable and a note on it. -/
def supplyOutput : Fields :=
  [("abi", .arr [.obj [("type", .str "function"), ("name", .str "supply"), ("inputs", .arr [])]]),
    ("devdoc", .obj [("stateVariables", .obj [("supply", .obj [("details", .str "all of it")])])])]

def supplyRecord : Fields :=
  [("type", .str "stateVariable"), ("name", .str "supply"), ("inputs", .arr []),
    ("details", .str "all of it")]

theorem variables_of_resolveContract_sample :
    ∃ doc, resolveContract "a.sol:A" (.obj supplyOutput) false = .ok doc ∧
      ∃ group, doc.stateVariables = .obj group ∧
        Table.get? group "supply()" = some (.obj supplyRecord) := by
  have hdoc : ∃ doc, resolveContract "a.sol:A" (.obj supplyOutput) false = .ok doc := ⟨_, rfl⟩
  obtain ⟨doc, hdoc⟩ := hdoc
  obtain ⟨fields, hfields, r, entries, -, -, hnotes⟩ := variables_of_resolveContract hdoc
  obtain rfl := Json.obj.inj hfields
  have htrees : r.trees = ⟨.obj [("stateVariables", .obj [("supply",
      .obj [("details", .str "all of it")])])], .obj []⟩ := r.trees_eq rfl
  have hmembers : r.members = [("supply()", .obj supplyRecord)] := r.members_eq rfl rfl rfl
  obtain ⟨base, record, hrecord, -, -, -, hgroup, -⟩ :=
    hnotes "supply" (.obj [("details", .str "all of it")]) <| by
      rw [Resolution.notedVariables, htrees]
      exact List.mem_singleton_self _
  rw [hmembers] at hrecord
  obtain rfl : supplyRecord = record := Json.obj.inj (Option.some.inj hrecord)
  refine ⟨doc, hdoc, hgroup ?_⟩
  -- No section behind that of state variables has a note.
  rw [Resolution.laidLater, htrees, hmembers]
  rintro ⟨change, hchange, -⟩
  cases hchange

/-- The getter of a mapping takes a key. -/
def mappingOutput : Fields :=
  [("abi", .arr [.obj [("type", .str "function"), ("name", .str "balances"),
      ("inputs", .arr [.obj [("type", .str "address")]])]]),
    ("devdoc", .obj [("stateVariables",
      .obj [("balances", .obj [("details", .str "held by each account")])])])]

/-- A record is made up for the mapping beside its getter, which has no note. -/
theorem getter_of_mapping_missed :
    ∃ doc, resolveContract "a.sol:A" (.obj mappingOutput) false = .ok doc ∧
      doc.stateVariables = .obj [("balances()", .obj [("details", .str "held by each account"),
        ("type", .str "stateVariable")])] ∧
      doc.methods = .obj [("balances(address)", .obj [("type", .str "function"),
        ("name", .str "balances"), ("inputs", .arr [.obj [("type", .str "address")]])])] :=
  ⟨_, rfl, rfl, rfl⟩

end NatSpec
