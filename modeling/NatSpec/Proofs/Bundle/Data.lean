import NatSpec.Bundle.Render
import NatSpec.Proofs.FileTree.Read
import NatSpec.Proofs.Json.Printed
import NatSpec.Proofs.Text.Sorting

/-!
The data of a bundle. The records of all contracts are written in increasing order of their names,
and reading the data file gives them back, with the fields of each record in their order.
-/

namespace NatSpec

open Json (Standard Layout)
open Json.Reader (maxNesting)

/-! ### Records -/

/-- Documentation as JSON has it: each name stands once, and so do the names in all objects. -/
structure Docs.IsStandard (docs : Docs) : Prop where
  distinct : (Table.keys docs).Nodup
  records : ∀ entry ∈ docs, entry.2.toJson.Standard

/-- The values of a record, in their order. -/
def ContractDoc.values (doc : ContractDoc) : List Json :=
  [doc.source, doc.name, doc.title, doc.author, doc.details, doc.notice, doc.constructor,
    doc.fallback, doc.receive, doc.events, doc.stateVariables, doc.methods]

/-- The names in a record are suitable wherever names of JSON are. -/
theorem ContractDoc.valid_toJson {P : List Json.Key → Prop}
    (hP : ∀ keys, Json.TextNames keys → P keys) {doc : ContractDoc}
    (h : ∀ v ∈ doc.values, Json.Valid P v) : Json.Valid P doc.toJson := by
  refine .obj (hP _ ⟨["source", "name", "title", "author", "details", "notice", "constructor",
    "fallback", "receive", "events", "stateVariables", "methods"], by decide, rfl⟩) ?_
  simpa [values] using h

theorem Docs.keys_toJson (docs : Docs) :
    Table.keys (docs.map fun entry => (Json.Key.text entry.1, entry.2.toJson)) =
      (Table.keys docs).map .text := by
  simp [Table.keys]

theorem Docs.IsStandard.toJson {docs : Docs} (h : docs.IsStandard) : docs.toJson.Standard := by
  refine .obj ⟨Table.keys docs, h.distinct, docs.keys_toJson⟩ ?_
  exact List.forall_mem_map.2 h.records

theorem Docs.sorted_perm (docs : Docs) : docs.sorted.Perm docs :=
  List.mergeSort_perm _ _

theorem Docs.IsStandard.sorted {docs : Docs} (h : docs.IsStandard) : docs.sorted.IsStandard where
  distinct := ((docs.sorted_perm.map Prod.fst).nodup_iff).2 h.distinct
  records := fun entry hentry => h.records entry (docs.sorted_perm.mem_iff.1 hentry)

/-! ### The data file -/

namespace Bundle

theorem exists_dataText (docs : Docs) {indent : Json}
    (hindent : indent = .null ∨ ∃ n, indent = .int n) :
    ∃ l : Layout, l.IsPlain ∧ l.IsPrinted ∧
      dataText docs indent = .ok (docs.data.write l ++ "\n") := by
  rcases hindent with rfl | ⟨n, rfl⟩
  · exact ⟨.compact, Json.isPlain_compact, Json.isPrinted_compact, rfl⟩
  · exact ⟨.spaces n, Json.isPlain_spaces n, Json.isPrinted_spaces n, rfl⟩

/-- The data file, whether it is indented or not, is read back as the records of all contracts in
increasing order of their names. Only records that are nested deeper than a reader allows are
refused. -/
theorem read_dataText {docs : Docs} (hdocs : docs.IsStandard) {indent : Json}
    (hindent : indent = .null ∨ ∃ n, indent = .int n) :
    ∃ (text : String) (sorted : Docs), dataText docs indent = .ok text ∧ sorted.Perm docs ∧
      (Table.keys sorted).Pairwise (· < ·) ∧
      (∀ fuel room, text.length ≤ fuel → Json.Reader.value fuel room text.toList =
        if sorted.toJson.depth ≤ room then .ok (sorted.toJson, ['\n']) else .error .deepNesting) ∧
      Json.read text =
        (if sorted.toJson.depth ≤ maxNesting then .ok sorted.toJson else .error .deepNesting) ∧
      (sorted.toJson.depth ≤ maxNesting → ∀ (t : FileTree) (place : Location), t.Sound →
        t.at? place = some (.file text.toUTF8) →
        (Path.ofTop place).toString.utf8ByteSize ≤ FileTree.maxPath →
        t.readValue (.ofTop place) = .ok sorted.toJson) := by
  obtain ⟨l, hplain, hprinted, htext⟩ := exists_dataText docs hindent
  have hdata : docs.data.Standard := hdocs.sorted.toJson
  have hvalid := hdata.mono fun _ => Json.TextNames.distinctTexts
  have hbehind : Json.Blanks "\n".toList := by simp [Json.Blanks, Json.IsBlank]
  have hvalue := fun fuel room =>
    @Json.value_write _ _ _ l hplain docs.data hvalid "\n" hbehind fuel room
  have hread := Json.read_write hplain hvalid hbehind
  rw [Json.named_of_standard hdata] at hread hvalue
  refine ⟨_, docs.sorted, htext, docs.sorted_perm, pairwise_mergeSort_lt Prod.fst hdocs.distinct,
    hvalue, hread, fun hdepth t place hsound hfile hshort => ?_⟩
  refine hsound.readValue_eq hfile hshort (FileTree.holds_toUTF8 ?_)
  have hsame := Json.withLineFeeds_write hprinted hdata (by decide : Json.AllPrinted "\n".toList)
  rw [hsame, hread]
  exact if_pos hdepth

/-- A contract whose texts need escapes and whose members stand against the alphabet. -/
def spelledOut : ContractDoc :=
  { source := .str "b/\\B.sol", name := .str "B", title := .str "tab\t\u0001\"😀\"",
    author := .null, details := .str "", notice := .str "</script>", constructor := .null,
    fallback := .null, receive := .obj [], events := .null,
    stateVariables := .arr [.arr [], .int (-98765432109876543210), .bool true],
    methods := .obj [(.text "z()", .obj [(.text "returns", .obj [])]), (.text "a()", .obj [])],
    warnings := ["left out"] }

/-- Two contracts that stand against the alphabet, too. -/
def unordered : Docs :=
  [("b:B", spelledOut), ("a:A", { spelledOut with methods := .null })]

theorem isStandard_unordered : unordered.IsStandard := by
  have hlength : (Text.decimalDigits (-98765432109876543210 : Int).natAbs).length ≤ 20 :=
    (Text.length_decimalDigits_le_iff (by decide)).2 (by decide)
  have hnumber : (Json.int (-98765432109876543210) : Json).Standard := .int (hlength.trans (by decide))
  have hempty : (Json.obj [] : Json).Standard := .obj ⟨[], by decide, rfl⟩ (by simp)
  have hvariables :
      (Json.arr [.arr [], .int (-98765432109876543210), .bool true] : Json).Standard :=
    .arr (by simp [hnumber, Json.Valid.bool, Json.Valid.arr])
  have hrecord : (Json.obj [(.text "returns", .obj [])]).Standard :=
    .obj ⟨["returns"], by decide, rfl⟩ (by simp [hempty])
  have hmembers : (Json.obj [(.text "z()", .obj [(.text "returns", .obj [])]),
      (.text "a()", .obj [])]).Standard :=
    .obj ⟨["z()", "a()"], by decide, rfl⟩ (by simp [hrecord, hempty])
  refine ⟨by decide, ?_⟩
  simp only [unordered, List.forall_mem_cons, List.not_mem_nil, false_implies, implies_true,
    and_true]
  constructor <;> refine ContractDoc.valid_toJson (fun _ h => h) ?_ <;>
    simp [ContractDoc.values, spelledOut, hempty, hvariables, hmembers, Json.Valid.null,
      Json.Valid.str]

theorem depth_unordered {docs : Docs} (h : docs.Perm unordered) :
    docs.toJson.depth ≤ maxNesting := by
  have hdepth : ∀ entry ∈ unordered, entry.2.toJson.depth ≤ 4 := by decide
  refine (Json.depth_obj_le_iff.2 ?_ : _ ≤ 4 + 1).trans (by decide)
  exact List.forall_mem_map.2 fun entry hentry => hdepth entry (h.mem_iff.1 hentry)

/-- No number of blanks stands in front of a line, and the contracts change places. -/
theorem read_dataText_sample :
    unordered.IsStandard ∧
    ∃ (text : String) (sorted : Docs), dataText unordered (.int (-1)) = .ok text ∧
      sorted.Perm unordered ∧ (Table.keys sorted).Pairwise (· < ·) ∧
      Json.read text = .ok sorted.toJson := by
  obtain ⟨text, sorted, htext, hperm, horder, -, hread, -⟩ :=
    read_dataText isStandard_unordered (.inr ⟨-1, rfl⟩)
  exact ⟨isStandard_unordered, text, sorted, htext, hperm, horder,
    hread.trans (if_pos (depth_unordered hperm))⟩

end Bundle

end NatSpec
