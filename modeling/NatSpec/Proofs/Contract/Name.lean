import NatSpec.Contract.Name
import NatSpec.Proofs.Text.Search

/-!
Qualified names and their two parts. A text with a colon is the qualified name of exactly one
contract whose source is free of colons, and that contract is what the text is read as.
-/

namespace NatSpec.ContractName

/-- The source holds no colon. The name of the contract may. -/
def ColonFree (id : ContractName) : Prop := ':' ∉ id.source.toList

instance (id : ContractName) : Decidable id.ColonFree :=
  inferInstanceAs (Decidable (':' ∉ id.source.toList))

theorem toList_qualified (id : ContractName) :
    id.qualified.toList = id.source.toList ++ ':' :: id.name.toList := by
  simp [qualified, separator, String.toList_append]

theorem eq_qualified_iff {text : String} {id : ContractName} :
    text = id.qualified ↔ text.toList = id.source.toList ++ ':' :: id.name.toList := by
  rw [← toList_qualified, String.toList_inj]

theorem parse_eq_ok_iff {text : String} {id : ContractName} :
    parse text = .ok id ↔ id.ColonFree ∧ text = id.qualified := by
  have hseparator : separator.toList = [':'] := rfl
  constructor
  · intro h
    unfold parse Text.splitFirst? at h
    rw [hseparator] at h
    cases hcut : Text.cut? [':'] text.toList with
    | none =>
        rw [hcut] at h
        cases h
    | some parts =>
        rw [hcut] at h
        obtain rfl := Except.ok.inj h
        obtain ⟨hfree, htext⟩ := Text.cut?_singleton_eq_some_iff.1 hcut
        refine ⟨?_, ?_⟩
        · rwa [ColonFree, String.toList_ofList]
        · rw [eq_qualified_iff, htext, String.toList_ofList, String.toList_ofList]
  · rintro ⟨hfree, rfl⟩
    have hcut := Text.cut?_singleton_append id.name.toList hfree
    rw [← toList_qualified] at hcut
    rw [parse, Text.splitFirst?, hseparator, hcut]
    simp only [Option.map_some, String.ofList_toList]

/-- A qualified name whose source is free of colons is read as itself. -/
theorem parse_qualified {id : ContractName} (h : id.ColonFree) : parse id.qualified = .ok id :=
  parse_eq_ok_iff.2 ⟨h, rfl⟩

theorem qualified_inj {id other : ContractName} (h : id.ColonFree) (hother : other.ColonFree) :
    id.qualified = other.qualified ↔ id = other := by
  constructor
  · intro heq
    have hparse := parse_qualified h
    rw [heq, parse_qualified hother] at hparse
    exact (Except.ok.inj hparse).symm
  · rintro rfl
    rfl

/-- A text is read as a name if it has a colon. -/
theorem exists_parse_iff {text : String} : (∃ id, parse text = .ok id) ↔ ':' ∈ text.toList := by
  constructor
  · rintro ⟨id, h⟩
    obtain ⟨-, rfl⟩ := parse_eq_ok_iff.1 h
    rw [toList_qualified]
    simp
  · intro h
    obtain ⟨before, after, htext, hbefore⟩ := List.eq_append_cons_of_mem h
    refine ⟨⟨String.ofList before, String.ofList after⟩, parse_eq_ok_iff.2 ⟨?_, ?_⟩⟩
    · rwa [ColonFree, String.toList_ofList]
    · rw [eq_qualified_iff, htext, String.toList_ofList, String.toList_ofList]

theorem parse_eq_error {text : String} {f : Failure} (h : parse text = .error f) :
    f = .problem (.notQualified text) := by
  unfold parse at h
  split at h
  · cases h
  · exact (Except.error.inj h).symm

/-- Any qualified name is that of a contract whose source is free of colons. -/
theorem exists_colonFree (id : ContractName) :
    ∃ first : ContractName, first.ColonFree ∧ id.qualified = first.qualified := by
  have hmem : ':' ∈ id.qualified.toList := by
    rw [toList_qualified]
    simp
  obtain ⟨first, hfirst⟩ := exists_parse_iff.2 hmem
  exact ⟨first, parse_eq_ok_iff.1 hfirst⟩

end NatSpec.ContractName
