import NatSpec.ProjectFile
import NatSpec.Proofs.Options

/-!
What the content of a project's file can do. A content gives options or a problem with them, or it
is of one of four kinds that are met by no problem: bytes that are not UTF-8, a whole number or a
nesting beyond the limits of the reader, and a value in the place of the table of tools.
-/

namespace NatSpec.ProjectFile

/-- The contents of a project's file that are met by no problem. -/
inductive Unusable (content : ByteArray) : Prop
  | undecodable (h : String.fromUTF8? content = none)
  | longNumber {text : String} (htext : String.fromUTF8? content = some text)
      (hread : Toml.read text = .error .longNumber)
  | deepNesting {text : String} (htext : String.fromUTF8? content = some text)
      (hread : Toml.read text = .error .deepNesting)
  | toolNotTable {text : String} {document : Toml.Entries} {v : Toml.Value}
      (htext : String.fromUTF8? content = some text) (hread : Toml.read text = .ok document)
      (htool : Table.get? document "tool" = some v) (hv : ∀ entries, v ≠ .table entries)

/-- A table that gives no options is a problem with them. -/
theorem exists_of_ofTable_error {table : List (String × Setting)} {failure : Failure}
    (h : Options.ofTable table = .error failure) :
    ∃ p, failure = .problem p ∧ p.kind = .configuration := by
  obtain ⟨_, e, _, p, -, -, hrefuses, rfl⟩ := Options.ofTable_eq_error_iff.1 h
  refine ⟨p, rfl, ?_⟩
  cases hrefuses with
  | unknown => rfl
  | kind => rfl

/-- The options of a document fail by a fault only where the table of tools is another value. -/
theorem optionsOf_error {document : Toml.Entries} {failure : Failure}
    (h : optionsOf document = .error failure) :
    (∃ p, failure = .problem p ∧ p.kind = .configuration) ∨
      ∃ v, failure = .fault .notRecord ∧ Table.get? document "tool" = some v ∧
        ∀ entries, v ≠ .table entries := by
  unfold optionsOf at h
  split at h
  · rename_i tools htools
    refine .inl ?_
    split at h
    · cases h
    · exact exists_of_ofTable_error h
    · obtain rfl := Except.error.inj h
      exact ⟨_, rfl, rfl⟩
  · rename_i hother
    obtain rfl := Except.error.inj h
    cases htool : Table.get? document "tool" with
    | none =>
        rw [htool] at hother
        exact absurd rfl (hother [])
    | some v =>
        rw [htool] at hother
        exact .inr ⟨v, rfl, rfl, hother⟩

theorem optionsOf_of_toolNotTable {document : Toml.Entries} {v : Toml.Value}
    (htool : Table.get? document "tool" = some v) (hv : ∀ entries, v ≠ .table entries) :
    optionsOf document = .error (.fault .notRecord) := by
  unfold optionsOf
  rw [htool, Option.getD_some]
  split
  · rename_i entries
    exact absurd rfl (hv entries)
  · rfl

variable {t : FileTree} {root : Path} {content : ByteArray}

theorem holds_of_readBytes {p : Path} (h : t.readBytes p = .ok content) : t.holds p = .ok true := by
  unfold FileTree.readBytes at h
  split at h
  · cases h
  · rename_i hnull
    rw [FileTree.holds, FileTree.lookup, if_neg hnull]
    split at h
    · rename_i hstatus
      rw [hstatus]
      rfl
    · cases h
    · cases h

/-- What a file makes of the options depends on its content. -/
theorem load_of_readBytes (h : t.readBytes (root / fileName) = .ok content) :
    load t root =
      match String.fromUTF8? content with
      | none => .error (.fault .undecodable)
      | some text =>
        match Toml.read text with
        | .ok document => optionsOf document
        | .error .invalid => (Problem.unreadableOptions (root / fileName).toString .notToml).fail
        | .error .longNumber => .error (.fault .badValue)
        | .error .deepNesting => .error (.fault .deepNesting) := by
  rw [load, holds_of_readBytes h]
  simp only [liftM_ok, ok_bind, h, FileTree.decodeText]
  cases String.fromUTF8? content with
  | none => rfl
  | some text => rfl

/-- Reading options ends in a fault just for the unusable contents, and then in one that no problem
accounts for; all other failures are problems with the options. -/
theorem load_fault_iff (h : t.readBytes (root / fileName) = .ok content) :
    (∃ fault, load t root = .error (.fault fault)) ↔ Unusable content := by
  rw [load_of_readBytes h]
  constructor
  · rintro ⟨fault, hload⟩
    split at hload
    · rename_i htext
      exact .undecodable htext
    · rename_i text htext
      split at hload
      · rename_i document hread
        rcases optionsOf_error hload with ⟨p, hp, -⟩ | ⟨v, -, htool, hv⟩
        · cases hp
        · exact .toolNotTable htext hread htool hv
      · cases hload
      · rename_i hread
        exact .longNumber htext hread
      · rename_i hread
        exact .deepNesting htext hread
  · rintro (hnone | ⟨htext, hread⟩ | ⟨htext, hread⟩ | ⟨htext, hread, htool, hv⟩)
    · exact ⟨.undecodable, by rw [hnone]⟩
    · exact ⟨.badValue, by simp only [htext, hread]⟩
    · exact ⟨.deepNesting, by simp only [htext, hread]⟩
    · exact ⟨.notRecord, by simp only [htext, hread, optionsOf_of_toolNotTable htool hv]⟩

theorem configuration_of_load {p : Problem} (h : load t root = .error (.problem p)) :
    p.kind = .configuration := by
  unfold load at h
  rcases bind_eq_error_iff.1 h with hfail | ⟨found, -, h⟩
  · obtain ⟨fault, -, hfault⟩ := liftM_eq_error_iff.1 hfail
    cases hfault
  · split at h
    · cases h
    · split at h
      · obtain ⟨⟩ := h
        rfl
      · cases h
      · rcases bind_eq_error_iff.1 h with hfail | ⟨text, -, h⟩
        · obtain ⟨fault, -, hfault⟩ := liftM_eq_error_iff.1 hfail
          cases hfault
        · split at h
          · rcases optionsOf_error h with ⟨_, hp, hkind⟩ | ⟨v, hfault, -⟩
            · obtain rfl := Failure.problem.inj hp
              exact hkind
            · cases hfault
          · obtain ⟨⟩ := h
            rfl
          · cases h
          · cases h

end NatSpec.ProjectFile
