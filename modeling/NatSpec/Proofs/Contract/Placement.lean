import Mathlib.Data.List.Permutation
import NatSpec.Contract.Resolve
import NatSpec.Json.Equality
import NatSpec.Proofs.Except

/-!
Where the documentation trees stand in a compiler output. Each tree stands at top level or in the
output section of the metadata, and metadata is an object or the text of one. The main statement
is that the documentation of a contract does not depend on the choice.
-/

namespace NatSpec

namespace Trees

/-- The fields of metadata, which are an object or the text of one. -/
inductive Means : Json → Fields → Prop
  | object (fields : Fields) : Means (.obj fields) fields
  | text {text : String} {fields : Fields} (hread : Json.read text = .ok (.obj fields)) :
      Means (.str text) fields

/-- The fields of the output section of metadata, which may be missing. -/
inductive Holds : Json → Fields → Prop
  | missing : Holds .null []
  | object {fields held : Fields}
      (h : (Json.field fields "output").orElse (.obj []) = .obj held) : Holds (.obj fields) held
  | text {text : String} {fields held : Fields} (hread : Json.read text = .ok (.obj fields))
      (h : (Json.field fields "output").orElse (.obj []) = .obj held) : Holds (.str text) held

/-- A tree stands under its name at top level or only in what the metadata holds. -/
inductive Carries (output held : Fields) (name : String) (tree : Json) : Prop
  | atTop (htop : Json.field output name = tree)
      (hheld : tree = .null → Json.field held name = .null)
  | inMetadata (htop : Json.field output name = .null) (hheld : Json.field held name = tree)

/-- Both trees stand somewhere in an output. -/
structure Placed (output : Fields) (devdoc userdoc : Json) (held : Fields) : Prop where
  metadata : Holds (Json.field output "metadata") held
  devdoc : Carries output held "devdoc" devdoc
  userdoc : Carries output held "userdoc" userdoc

/-- Both trees stand at top level, and there is no metadata. -/
structure AtTop (output : Fields) (devdoc userdoc : Json) : Prop where
  metadata : Json.field output "metadata" = .null
  devdoc : Json.field output "devdoc" = devdoc
  userdoc : Json.field output "userdoc" = userdoc

theorem isNull_iff {v : Json} : v.isNull = true ↔ v = .null := by
  cases v <;> simp [Json.isNull]

theorem isNull_eq_false {v : Json} (h : v ≠ .null) : v.isNull = false := by
  cases hnull : v.isNull with
  | true => exact absurd (isNull_iff.1 hnull) h
  | false => rfl

/-- Looking in the metadata where the top level has nothing finds the tree. -/
theorem Carries.found {output held : Fields} {name : String} {tree : Json}
    (h : Carries output held name tree) :
    (if (Json.field output name).isNull then Json.field held name else Json.field output name) =
      tree := by
  cases h with
  | atTop htop hheld =>
      rw [htop]
      split
      · rename_i hnull
        obtain rfl := isNull_iff.1 hnull
        exact hheld rfl
      · rfl
  | inMetadata htop hheld =>
      rw [htop]
      exact hheld

/-- Where the metadata holds nothing, or the top level has something, the tree is at top level. -/
theorem Carries.top_eq {output held : Fields} {name : String} {tree : Json}
    (h : Carries output held name tree)
    (hleft : held = [] ∨ (Json.field output name).isNull = false) :
    Json.field output name = tree := by
  have hfound := h.found
  rcases hleft with rfl | htop
  · split at hfound
    · rename_i hnull
      rw [isNull_iff.1 hnull]
      exact hfound
    · exact hfound
  · rwa [if_neg (by simp [htop])] at hfound

theorem metadataFields_eq_ok_iff {contract : String} {metadata : Json} {fields : Fields} :
    metadataFields contract metadata = .ok fields ↔ Means metadata fields := by
  constructor
  · intro h
    unfold metadataFields at h
    dsimp only at h
    split at h
    · split at h
      · rename_i v hread
        rw [pure_bind] at h
        split at h
        · obtain rfl := Except.ok.inj h
          exact .text hread
        · cases h
      · cases h
      · cases h
    · rw [pure_bind] at h
      split at h
      · obtain rfl := Except.ok.inj h
        exact .object _
      · cases h
  · rintro (_ | ⟨hread⟩)
    · rfl
    · rw [metadataFields]
      simp only [hread]
      rfl

theorem metadataFields_of_holds (contract : String) {metadata : Json} {held : Fields}
    (h : Holds metadata held) (htruthy : metadata.truthy = true) :
    ∃ fields, metadataFields contract metadata = .ok fields ∧
      (Json.field fields "output").orElse (.obj []) = .obj held := by
  cases h with
  | missing => cases htruthy
  | object h => exact ⟨_, metadataFields_eq_ok_iff.2 (.object _), h⟩
  | text hread h => exact ⟨_, metadataFields_eq_ok_iff.2 (.text hread), h⟩

/-- Metadata that does not count as present holds nothing. -/
theorem Holds.eq_nil {metadata : Json} {held : Fields} (h : Holds metadata held)
    (hfalsy : metadata.truthy = false) : held = [] := by
  cases h with
  | missing => rfl
  | @object fields held h =>
      obtain rfl : fields = [] := by simpa [Json.truthy] using hfalsy
      exact (Json.obj.inj h).symm
  | @text text fields held hread h =>
      -- Of all texts only the empty one does not count as present, and it is not JSON.
      obtain rfl : text = "" := by simpa [Json.truthy] using hfalsy
      have hempty : (Json.read "" : Except Json.Refusal Json) =
          .error (.misread (.ofLeft [] .expectingValue [])) := by rfl
      rw [hempty] at hread
      cases hread

/-- Whether the trees of an output are looked up in its metadata. -/
def looksUp (output : Fields) : Bool :=
  ((Json.field output "devdoc").isNull || (Json.field output "userdoc").isNull) &&
    (Json.field output "metadata").truthy

theorem ofOutput_of_not_looksUp (contract : String) {output : Fields}
    (h : looksUp output = false) :
    ofOutput contract output = .ok
      ⟨(Json.field output "devdoc").orElse (.obj []),
        (Json.field output "userdoc").orElse (.obj [])⟩ := by
  unfold looksUp at h
  simp only [ofOutput, h]
  rfl

theorem ofOutput_of_looksUp {contract : String} {output fields held : Fields}
    (h : looksUp output = true)
    (hfields : metadataFields contract (Json.field output "metadata") = .ok fields)
    (hheld : (Json.field fields "output").orElse (.obj []) = .obj held) :
    ofOutput contract output = .ok
      ⟨(if (Json.field output "devdoc").isNull then Json.field held "devdoc"
          else Json.field output "devdoc").orElse (.obj []),
        (if (Json.field output "userdoc").isNull then Json.field held "userdoc"
          else Json.field output "userdoc").orElse (.obj [])⟩ := by
  unfold looksUp at h
  simp only [ofOutput, h, if_true, fromMetadata, hfields, bind, Except.bind, hheld]

/-- The trees of an output are the placed ones; one that does not count as present is empty. -/
theorem ofOutput_of_placed (contract : String) {output held : Fields} {devdoc userdoc : Json}
    (h : Placed output devdoc userdoc held) :
    ofOutput contract output =
      .ok ⟨devdoc.orElse (.obj []), userdoc.orElse (.obj [])⟩ := by
  cases hlook : looksUp output with
  | true =>
      have htruthy : (Json.field output "metadata").truthy = true :=
        (Bool.and_eq_true_iff.1 hlook).2
      obtain ⟨fields, hfields, hheld⟩ :=
        metadataFields_of_holds contract h.metadata htruthy
      rw [ofOutput_of_looksUp hlook hfields hheld, h.devdoc.found, h.userdoc.found]
  | false =>
      rw [ofOutput_of_not_looksUp contract hlook]
      rcases Bool.and_eq_false_iff.1 hlook with htop | hfalsy
      · obtain ⟨hdev, huser⟩ := Bool.or_eq_false_iff.1 htop
        rw [h.devdoc.top_eq (.inr hdev), h.userdoc.top_eq (.inr huser)]
      · have hheld := h.metadata.eq_nil hfalsy
        rw [h.devdoc.top_eq (.inl hheld), h.userdoc.top_eq (.inl hheld)]

theorem AtTop.placed {output : Fields} {devdoc userdoc : Json}
    (h : AtTop output devdoc userdoc) : Placed output devdoc userdoc [] where
  metadata := h.metadata ▸ .missing
  devdoc := .atTop h.devdoc fun _ => rfl
  userdoc := .atTop h.userdoc fun _ => rfl

end Trees

/-- The documentation of a contract depends on the ABI and the trees of its output only. -/
theorem resolveContract_congr {contract : String} {output other : Fields}
    (habi : Json.field output "abi" = Json.field other "abi")
    (htrees : Trees.ofOutput contract output = Trees.ofOutput contract other) (strict : Bool) :
    resolveContract contract (.obj output) strict =
      resolveContract contract (.obj other) strict := by
  simp only [resolveContract, Abi.fieldsOf, liftM_ok, ok_bind, habi, htrees]

/-- Wherever its trees stand, an output has the trees and the documentation of the output that has
them at top level. If both stand at top level then nothing depends on the metadata. -/
theorem resolveContract_placement :
    (∀ (contract : String) (devdoc userdoc : Json) (output held top : Fields),
      Trees.Placed output devdoc userdoc held → Trees.AtTop top devdoc userdoc →
      Json.field output "abi" = Json.field top "abi" →
        Trees.ofOutput contract output = Trees.ofOutput contract top ∧
        ∀ strict, resolveContract contract (.obj output) strict =
          resolveContract contract (.obj top) strict) ∧
    ∀ (contract : String) (output other : Fields),
      Json.field output "devdoc" ≠ .null → Json.field output "userdoc" ≠ .null →
      (∀ name ∈ ["abi", "devdoc", "userdoc"],
        Json.field output (.text name) = Json.field other (.text name)) →
        Trees.ofOutput contract output = Trees.ofOutput contract other ∧
        ∀ strict, resolveContract contract (.obj output) strict =
          resolveContract contract (.obj other) strict := by
  constructor
  · intro contract devdoc userdoc output held top hplaced htop habi
    have htrees : Trees.ofOutput contract output = Trees.ofOutput contract top := by
      rw [Trees.ofOutput_of_placed contract hplaced,
        Trees.ofOutput_of_placed contract htop.placed]
    exact ⟨htrees, resolveContract_congr habi htrees⟩
  · intro contract output other hdev huser hsame
    have habi := hsame "abi" (by simp)
    have hdevdoc := hsame "devdoc" (by simp)
    have huserdoc := hsame "userdoc" (by simp)
    have hnone (fields : Fields) (hd : Json.field fields "devdoc" ≠ .null)
        (hu : Json.field fields "userdoc" ≠ .null) : Trees.looksUp fields = false := by
      rw [Trees.looksUp, Trees.isNull_eq_false hd, Trees.isNull_eq_false hu]
      rfl
    have htrees : Trees.ofOutput contract output = Trees.ofOutput contract other := by
      rw [Trees.ofOutput_of_not_looksUp contract (hnone output hdev huser),
        Trees.ofOutput_of_not_looksUp contract
          (hnone other (hdevdoc ▸ hdev) (huserdoc ▸ huser)), hdevdoc, huserdoc]
    exact ⟨htrees, resolveContract_congr habi htrees⟩

def sampleDevdoc : Json := .obj [("title", .str "Token")]

def sampleUserdoc : Json := .obj [("notice", .str "Holds value")]

/-- The developer notes stand in metadata, which is a text, and the user notes at top level. -/
def sampleSplit : Fields :=
  [("metadata", .str "\x7b\"output\": \x7b\"devdoc\": \x7b\"title\": \"Token\"\x7d\x7d\x7d"),
    ("userdoc", sampleUserdoc), ("abi", .arr []), ("devdoc", .null)]

def sampleTop : Fields :=
  [("abi", .arr []), ("devdoc", sampleDevdoc), ("userdoc", sampleUserdoc)]

/-- Both trees stand at top level, next to metadata that is no JSON. -/
def sampleGarbled : Fields :=
  ("metadata", .str "\x7b") :: sampleTop

theorem resolveContract_placement_sample :
    Trees.ofOutput "A.sol:A" sampleSplit = .ok ⟨sampleDevdoc, sampleUserdoc⟩ ∧
    resolveContract "A.sol:A" (.obj sampleSplit) false =
      resolveContract "A.sol:A" (.obj sampleTop) false ∧
    resolveContract "A.sol:A" (.obj sampleGarbled) true =
      resolveContract "A.sol:A" (.obj sampleTop) true := by
  have hread : Json.read "\x7b\"output\": \x7b\"devdoc\": \x7b\"title\": \"Token\"\x7d\x7d\x7d" =
      .ok (.obj [("output", .obj [("devdoc", sampleDevdoc)])]) := by
    decide +kernel
  have hplaced : Trees.Placed sampleSplit sampleDevdoc sampleUserdoc
      [("devdoc", sampleDevdoc)] := {
    metadata := .text hread rfl
    devdoc := .inMetadata rfl rfl
    userdoc := .atTop rfl fun h => by cases h }
  have htop : Trees.AtTop sampleTop sampleDevdoc sampleUserdoc := ⟨rfl, rfl, rfl⟩
  obtain ⟨htrees, hsplit⟩ :=
    resolveContract_placement.1 "A.sol:A" _ _ _ _ _ hplaced htop rfl
  obtain ⟨-, hgarbled⟩ := resolveContract_placement.2 "A.sol:A" sampleGarbled sampleTop
    (by intro h; cases h) (by intro h; cases h)
    (by simp [sampleGarbled, Json.field, Table.get?, Json.Key.text_beq])
  exact ⟨htrees.trans rfl, hsplit false, hgarbled true⟩

end NatSpec
