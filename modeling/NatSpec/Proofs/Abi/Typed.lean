import NatSpec.Abi.Depth
import NatSpec.Proofs.Abi.Index

/-!
Which ABIs have an index. A parameter has a type if that is a text, and so are the types of its
components as far as they are mentioned; a member is an object with such parameters. The main
statement is that the passes over an ABI succeed just when all its entries are members and none of
them is nested too deep.
-/

namespace NatSpec.Abi

/-- The items of a list, of which there are none if it counts as missing. -/
def Lists (v : Json) (items : List Json) : Prop :=
  v = .arr items ∨ v.truthy = false ∧ items = []

/-- A parameter whose type is a text, and so are those of its components if it mentions any. -/
inductive Typed : Json → Prop
  | plain {fields : Fields} {type : String} (htype : Table.get? fields "type" = some (.str type))
      (hword : Text.occurs tupleWord type = false) : Typed (.obj fields)
  | tuple {fields : Fields} {type : String} {items : List Json}
      (htype : Table.get? fields "type" = some (.str type))
      (hword : Text.occurs tupleWord type = true)
      (hitems : Lists (Json.field fields "components") items)
      (htyped : ∀ item ∈ items, Typed item) : Typed (.obj fields)

/-- The description of a member: an object whose inputs have types. -/
def IsMember (entry : Json) : Prop :=
  ∃ fields inputs, entry = .obj fields ∧ Lists (Json.field fields "inputs") inputs ∧
    ∀ input ∈ inputs, Typed input

/-- An ABI made of members, none of which is nested too deep. -/
def IsReadable (abi : Json) : Prop :=
  ∃ entries, abi.elements? = some entries ∧ (∀ entry ∈ entries, IsMember entry) ∧
    depthOfAll (entries.flatMap inputsOf) ≤ maxDepth

/-! ### Types of parameters -/

/-- The types of the parameters in a list that may be missing. -/
def typesIn : Json → Except Fault (List Json)
  | .arr items => typesOf items
  | other => if other.truthy then .error .wrongKind else .ok []

theorem componentTypes_eq_typesIn (fields : Fields) :
    componentTypes fields = typesIn (Json.field fields "components") := by
  induction fields with
  | nil => rfl
  | cons entry fields ih =>
      obtain ⟨name, v⟩ := entry
      unfold componentTypes
      rw [Json.field, Table.get?]
      split
      · cases v <;> rfl
      · exact ih

theorem typesIn_eq_ok_iff {v : Json} {types : List Json} :
    typesIn v = .ok types ↔ ∃ items, Lists v items ∧ typesOf items = .ok types := by
  constructor
  · intro h
    unfold typesIn at h
    split at h
    · exact ⟨_, .inl rfl, h⟩
    · split at h
      · cases h
      · rename_i hfalsy
        exact ⟨[], .inr ⟨by simpa using hfalsy, rfl⟩, h⟩
  · rintro ⟨items, rfl | ⟨hfalsy, rfl⟩, h⟩
    · exact h
    · unfold typesIn
      split
      · rename_i items
        obtain rfl : items = [] := by simpa [Json.truthy] using hfalsy
        exact h
      · rw [if_neg (by simp [hfalsy])]
        exact h

theorem exists_typesOf {items : List Json} (h : ∀ item ∈ items, ∃ s, typeOf item = .ok (.str s)) :
    ∃ parts : List String, typesOf items = .ok (parts.map .str) := by
  induction items with
  | nil => exact ⟨[], rfl⟩
  | cons item items ih =>
      obtain ⟨⟨s, hs⟩, hrest⟩ := List.forall_mem_cons.1 h
      obtain ⟨parts, hparts⟩ := ih hrest
      exact ⟨s :: parts, by rw [typesOf, hs, hparts]; rfl⟩

theorem exists_typeOf {p : Json} (h : Typed p) : ∃ s, typeOf p = .ok (.str s) := by
  induction h with
  | @plain fields type htype hword =>
      refine ⟨type, ?_⟩
      simp only [typeOf, htype, mentionsTuple, hword, ok_bind]
      rfl
  | @tuple fields type items htype hword hitems _ ih =>
      obtain ⟨parts, hparts⟩ := exists_typesOf ih
      have hcomponents : componentTypes fields = .ok (parts.map .str) := by
        rw [componentTypes_eq_typesIn]
        exact typesIn_eq_ok_iff.2 ⟨items, hitems, hparts⟩
      refine ⟨Text.replaceFirst tupleWord (parenthesized parts) type, ?_⟩
      simp only [typeOf, htype, mentionsTuple, hword, ok_bind, if_true, hcomponents, texts_map_str]

mutual

theorem typed_of_typeOf : ∀ {p : Json} {s : String}, typeOf p = .ok (.str s) → Typed p
  | .obj fields, s, h => by
      unfold typeOf at h
      split at h
      · cases h
      · rename_i type htype
        obtain ⟨mentions, hmentions, h⟩ := bind_eq_ok_iff.1 h
        split at h
        · rename_i hyes
          obtain ⟨types, htypes, h⟩ := bind_eq_ok_iff.1 h
          obtain ⟨parts, hparts, h⟩ := bind_eq_ok_iff.1 h
          rw [texts_eq_ok_iff.1 hparts] at htypes
          obtain ⟨items, hitems, htyped⟩ := typed_of_componentTypes htypes
          split at h
          · obtain rfl := Except.ok.inj hmentions
            exact .tuple htype hyes hitems htyped
          · cases h
        · rename_i hno
          obtain rfl := Except.ok.inj h
          obtain rfl := Except.ok.inj hmentions
          exact .plain htype (by simpa using hno)
  | .null, _, h | .bool _, _, h | .int _, _, h | .float _, _, h | .str _, _, h
  | .arr _, _, h => by cases h

theorem typed_of_componentTypes : ∀ {fields : List (Json.Key × Json)} {parts : List String},
    componentTypes fields = .ok (parts.map .str) →
      ∃ items, Lists (Json.field fields "components") items ∧ ∀ item ∈ items, Typed item
  | [], _, _ => ⟨[], .inr ⟨rfl, rfl⟩, by simp⟩
  | (name, v) :: rest, parts, h => by
      unfold componentTypes at h
      rw [Json.field, Table.get?]
      split at h
      · rename_i hname
        rw [if_pos hname]
        split at h
        · exact ⟨_, .inl rfl, typed_of_typesOf h⟩
        · split at h
          · cases h
          · rename_i hfalsy
            exact ⟨[], .inr ⟨by simpa using hfalsy, rfl⟩, by simp⟩
      · rename_i hname
        rw [if_neg hname]
        exact typed_of_componentTypes h

theorem typed_of_typesOf : ∀ {items : List Json} {parts : List String},
    typesOf items = .ok (parts.map .str) → ∀ item ∈ items, Typed item
  | [], _, _ => by simp
  | p :: rest, parts, h => by
      obtain ⟨type, htype, h⟩ := bind_eq_ok_iff.1 h
      obtain ⟨types, htypes, h⟩ := bind_eq_ok_iff.1 h
      cases parts with
      | nil => cases h
      | cons s parts =>
          obtain ⟨rfl, rfl⟩ := List.cons.inj (Except.ok.inj h)
          exact List.forall_mem_cons.2 ⟨typed_of_typeOf htype, typed_of_typesOf htypes⟩

end

theorem exists_typesOf_iff {items : List Json} :
    (∃ parts : List String, typesOf items = .ok (parts.map .str)) ↔ ∀ item ∈ items, Typed item :=
  ⟨fun ⟨_, h⟩ => typed_of_typesOf h, fun h => exists_typesOf fun item hitem =>
    exists_typeOf (h item hitem)⟩

/-! ### Members -/

theorem exists_signatureOf_iff {entry : Json} :
    (∃ s, signatureOf entry = .ok s) ↔ IsMember entry := by
  have hsignature (fields : Fields) : (∃ s, signature fields = .ok s) ↔
      ∃ inputs, Lists (Json.field fields "inputs") inputs ∧ ∀ input ∈ inputs, Typed input := by
    simp only [← exists_typesOf_iff]
    constructor
    · rintro ⟨s, h⟩
      obtain ⟨types, htypes, h⟩ := bind_eq_ok_iff.1 h
      obtain ⟨parts, hparts, -⟩ := bind_eq_ok_iff.1 h
      obtain rfl := texts_eq_ok_iff.1 hparts
      obtain ⟨inputs, hlists, htypes⟩ := typesIn_eq_ok_iff.1 htypes
      exact ⟨inputs, hlists, parts, htypes⟩
    · rintro ⟨inputs, hlists, parts, htypes⟩
      have hinputs : inputTypes fields = .ok (parts.map .str) :=
        typesIn_eq_ok_iff.2 ⟨inputs, hlists, htypes⟩
      exact ⟨_, bind_eq_ok_iff.2 ⟨_, hinputs, bind_eq_ok_iff.2 ⟨_, texts_map_str parts, rfl⟩⟩⟩
  constructor
  · rintro ⟨s, h⟩
    obtain ⟨fields, hfields, h⟩ := bind_eq_ok_iff.1 h
    obtain ⟨inputs, hinputs⟩ := (hsignature fields).1 ⟨s, h⟩
    exact ⟨fields, inputs, exists_fieldsOf hfields, hinputs⟩
  · rintro ⟨fields, inputs, rfl, hinputs⟩
    exact (hsignature fields).2 ⟨inputs, hinputs⟩

theorem exists_add_iff {index : Index} {entry : Json} :
    (∃ next, index.add entry = .ok next) ↔ IsMember entry := by
  rw [← exists_signatureOf_iff]
  constructor
  · rintro ⟨next, h⟩
    obtain ⟨s, hs, -⟩ := bind_eq_ok_iff.1 h
    exact ⟨s, hs⟩
  · rintro ⟨s, hs⟩
    exact ⟨_, bind_eq_ok_iff.2 ⟨s, hs, rfl⟩⟩

/-- A list of entries has an index just when all of them are members. -/
theorem exists_indexEntries_iff {entries : List Json} :
    (∃ index, indexEntries entries = .ok index) ↔ ∀ entry ∈ entries, IsMember entry := by
  have hstep (index : Index) (entry : Json) :
      (∃ next, index.add entry = .ok next) ↔ IsMember entry := exists_add_iff
  exact exists_foldlM_eq_ok_iff hstep

theorem checkEntries_eq_ok_iff {abi : Json} : checkEntries abi = .ok () ↔
    depthOfAll (((abi.elements?).getD []).flatMap inputsOf) ≤ maxDepth := by
  rw [checkEntries, checkDepth, ← Nat.not_lt]
  split <;> simp_all

/-- The passes over an ABI succeed just when it can be read. -/
theorem isReadable_iff {abi : Json} :
    IsReadable abi ↔ checkEntries abi = .ok () ∧ ∃ index, Abi.index abi = .ok index := by
  rw [checkEntries_eq_ok_iff, Abi.index]
  constructor
  · rintro ⟨entries, helements, hmembers, hshallow⟩
    rw [helements]
    exact ⟨hshallow, exists_indexEntries_iff.2 hmembers⟩
  · rintro ⟨hshallow, hindex⟩
    cases helements : abi.elements? with
    | none =>
        rw [helements] at hindex
        obtain ⟨index, hindex⟩ := hindex
        cases hindex
    | some entries =>
        rw [helements] at hindex hshallow
        exact ⟨entries, helements, exists_indexEntries_iff.1 hindex, hshallow⟩

end NatSpec.Abi
