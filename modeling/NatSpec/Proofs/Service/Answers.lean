import NatSpec.Proofs.BuildInfo
import NatSpec.Proofs.Json.Bounded
import NatSpec.Proofs.Json.Printed
import NatSpec.Proofs.Json.Wide
import NatSpec.Proofs.Text.Sorting
import NatSpec.Service.Respond

/-!
What a client of the service is told. An object that is posted to an endpoint is answered by that
endpoint, whatever files there are, and the text of an answer is read as the value that it was
written from, with its fields in increasing order.
-/

namespace NatSpec.Service

open BuildInfo (textFields)
open Json (Bounded Valid DistinctTexts sorted? sortFields)
open Json.Reader (maxNesting)

/-! ### Posting -/

/-- A request that posts an object to a path, in a body of a size that is read. As the texts of the
object are strings, no half of a pair of units stands on its own in those of the body. -/
structure Posts (r : Request) (path : String) (fields : Fields) : Prop where
  method : r.method = "POST"
  address : r.address = path
  contentType : holdsLineEnd (r.contentType.getD "") = false
  fits : r.isTooLarge = false
  value : r.value = .ok (some (.obj fields))
  wide : r.value = .ok (some (Json.obj fields).wide)

/-- A request that is posted to a path, whatever its body. -/
structure Reaches (r : Request) (path : String) : Prop where
  method : r.method = "POST"
  address : r.address = path
  contentType : holdsLineEnd (r.contentType.getD "") = false

/-- A request is answered in one way, whatever files there are. -/
def Answers (r : Request) (response : Response) : Prop :=
  ∀ t bundle, respond t bundle r = .ok response

variable {r : Request} {path query : String} {fields : Fields}

theorem Posts.reaches (h : Posts r path fields) : Reaches r path :=
  ⟨h.method, h.address, h.contentType⟩

theorem bodyFields_of_posts (h : Posts r path fields) : bodyFields r = .ok fields := by
  rw [bodyFields, h.value]

/-- A request is answered by the endpoint that its path leads to. -/
theorem respond_of_reaches (endpoint : Endpoint) (h : Reaches r path)
    (haddress : Address.ofRequest? path = some ⟨"", "localhost", path, ""⟩)
    (hpath : Text.unescape path = path) (hne : path ≠ "")
    (hroute : Route.of true "POST" (String.ofList (path.toList.dropWhile (· = '/'))) =
      .found endpoint) (t : FileTree) (bundle : Option Location) :
    respond t bundle r = .ok (endpoint.answer t bundle r) := by
  have hmethod : methodName r.method = "POST" := by
    rw [h.method]
    decide +kernel
  have hserver : Label.areSized (Address.serverName ⟨"", "localhost", path, ""⟩) = true := by
    change Label.areSized (("localhost".toList.takeWhile (· ≠ ':')).map Char.toLower) = true
    decide +kernel
  have hrouted : routeOf ⟨"", "localhost", path, ""⟩ "POST" = .found endpoint := by
    unfold routeOf
    dsimp only
    rw [hpath, if_neg hne]
    exact hroute
  unfold respond
  rw [h.address, haddress]
  simp only [h.contentType, ne_eq, not_true_eq_false, decide_false, Bool.or_false,
    Bool.false_eq_true, if_false]
  rw [respondTo, hmethod]
  simp only [hserver, if_true, hrouted, Route.answer]
  rfl

theorem Reaches.answers_resolve (h : Reaches r "/api/resolve") :
    Answers r (answerBody r (resolve r)) := by
  have hname : String.ofList ("/api/resolve".toList.dropWhile (· = '/')) = "api/resolve" := by
    decide
  refine respond_of_reaches .resolve h (by decide +kernel) (by decide +kernel) (by decide) ?_
  rw [hname]
  decide +kernel

theorem Reaches.answers_generate (h : Reaches r "/api/generate") :
    Answers r (answerBody r (generate r)) := by
  have hname : String.ofList ("/api/generate".toList.dropWhile (· = '/')) = "api/generate" := by
    decide
  refine respond_of_reaches .generate h (by decide +kernel) (by decide +kernel) (by decide) ?_
  rw [hname]
  decide +kernel

/-- A body of a size that is read is answered by what comes of it. -/
theorem answerBody_of_fits (h : r.isTooLarge = false) (result : Except Failure Response) :
    answerBody r result = answer result := by
  rw [answerBody, h, if_neg Bool.false_ne_true]

theorem answers_resolve (h : Posts r "/api/resolve" fields) : Answers r (answer (resolve r)) :=
  answerBody_of_fits h.fits _ ▸ h.reaches.answers_resolve

theorem answers_generate (h : Posts r "/api/generate" fields) :
    Answers r (answer (generate r)) :=
  answerBody_of_fits h.fits _ ▸ h.reaches.answers_generate

def posting (path query : String) (fields : Fields) : Request :=
  ⟨"POST", path, query, some "application/json", some ((Json.obj fields).write .compact)⟩

theorem isJsonType_json : isJsonType "application/json" = true := by decide +kernel

theorem isTooLarge_posting (path query : String)
    (h : ((Json.obj fields).write .compact).utf8ByteSize ≤ maxBody) :
    (posting path query fields).isTooLarge = false := by
  simpa [posting, Request.isTooLarge, isJsonType_json] using h

/-- The text of a body in printable ASCII is the body. -/
theorem bodyText?_of_printed {body : String} (h : Json.AllPrinted body.toList) :
    bodyText? body = some body := by
  unfold bodyText?
  split
  · rename_i rest hbody
    rw [hbody] at h
    exact absurd (h '\uFEFF' List.mem_cons_self) (by decide)
  · rw [if_neg]
    intro hzero
    exact absurd (h '\x00' (List.mem_of_mem_take (List.contains_iff_mem.1 hzero))) (by decide)

theorem value_posting {τ : Type} [DecidableEq τ] [IsText τ] (path query : String)
    (h : (Json.obj fields).Standard) {v : Json τ}
    (hread : Json.read ((Json.obj fields).write .compact) = .ok v) :
    (posting path query fields).value = .ok (some v) := by
  have hprinted : Json.AllPrinted ((Json.obj fields).write .compact).toList := by
    rw [Json.write, String.toList_ofList]
    exact Json.printed_value Json.isPrinted_compact h 0
  rw [Request.value]
  simp only [posting, isJsonType_json, if_true, bodyText?_of_printed hprinted, Option.map_some,
    hread]

theorem posts_posting (h : (Json.obj fields).Standard)
    (hdepth : (Json.obj fields).depth ≤ maxNesting)
    (hfits : (posting path query fields).isTooLarge = false) :
    Posts (posting path query fields) path fields where
  method := rfl
  address := rfl
  contentType := by
    change holdsLineEnd "application/json" = false
    decide
  fits := hfits
  value := by
    have hread := Json.read_write Json.isPlain_compact
      (h.mono fun _ => Json.TextNames.distinctTexts) (by simp [Json.Blanks] : Json.Blanks "".toList)
    rw [String.append_empty, if_pos hdepth, Json.named_of_standard h] at hread
    exact value_posting path query h hread
  wide := value_posting path query h (Json.read_write_wide Json.isPlain_compact h hdepth)

/-! ### Telling -/

/-- An answer has a status, and a text that is read as a value. -/
structure Response.Tells (response : Response) (status : Nat) (v : Json) : Prop where
  status : response.status = status
  body : ∃ text, response.body = some text ∧ Json.read text = .ok v

variable {response : Response} {status : Nat} {v w : Json} {name : String} {warnings : List String}

theorem Response.tells_json (status : Nat) (h : Valid DistinctTexts v)
    (hdepth : v.depth ≤ maxNesting) : (Response.json status v).Tells status v.named where
  status := rfl
  body := by
    have hread := Json.read_write Json.isPlain_tight h
      (by simp [Json.Blanks, Json.IsBlank] : Json.Blanks "\n".toList)
    exact ⟨_, rfl, hread.trans (if_pos hdepth)⟩

theorem Response.tells_error (status : Nat) (message : String) :
    (Response.error status message).Tells status (.obj [("error", .str message)]) := by
  have hstandard : (Json.obj [("error", .str message)]).Standard :=
    .obj ⟨["error"], by decide, rfl⟩ (by simp [Valid.str])
  rw [← Json.named_of_standard hstandard]
  refine tells_json status (hstandard.mono fun _ => Json.TextNames.distinctTexts) ?_
  exact (Json.depth_obj_le_iff.2 (by simp [Json.depth]) : _ ≤ 0 + 1).trans (by decide)

theorem status_sorted (h : Response.sorted v = .ok response) : response.status = 200 := by
  unfold Response.sorted at h
  split at h
  · obtain rfl := Except.ok.inj h
    rfl
  · cases h

/-- A success is that of a computation that succeeds. -/
theorem exists_of_status_answer {result : Except Failure Response}
    (h : (answer result).status = 200) : ∃ response, result = .ok response := by
  unfold answer at h
  split at h
  · exact ⟨_, rfl⟩
  · split at h <;> cases h
  · cases h

/-- A client error is an answer of its own, or tells of a problem with artifacts. -/
theorem of_status_answer {result : Except Failure Response} (h : (answer result).status = 400) :
    (∃ response, result = .ok response ∧ response.status = 400) ∨
      ∃ p, result = .error (.problem p) ∧ p.isArtifact = true ∧
        answer result = .error 400 p.message := by
  unfold answer at h ⊢
  split at h
  · exact .inl ⟨_, rfl, h⟩
  · split at h
    · rename_i p hartifact
      exact .inr ⟨p, rfl, hartifact, if_pos hartifact⟩
    · cases h
  · cases h

/-! ### Telling in order -/

theorem sortFields_textFields {α : Type} (f : α → Json) (t : Table String α) :
    sortFields (textFields f t) = some (textFields f (t.mergeSort fun a b => a.1 ≤ b.1)) := by
  have hkinds : (textFields f t).keys.map Json.Key.kind = t.map fun _ => .text := by
    rw [textFields, Table.keys, List.map_map, List.map_map]
    rfl
  have hall : ((textFields f t).keys.map Json.Key.kind).all
      (fun kind => ((textFields f t).keys.map Json.Key.kind).head? = some kind) = true := by
    rw [hkinds]
    cases t <;> simp
  unfold sortFields
  rw [if_pos hall, textFields, textFields, List.map_mergeSort]
  intro a _ b _
  change decide (a.1 ≤ b.1) = !decide (b.1 < a.1)
  rw [← decide_not, decide_eq_decide]
  exact String.not_lt.symm

/-- What is told of a success: its result under a name, and the warnings. -/
def success (name : String) (v : Json) (warnings : List String) : Json :=
  .obj [(.text name, v), ("success", .bool true), ("warnings", textArray warnings)]

theorem sorted?_textArray (texts : List String) :
    sorted? (textArray texts) = some (textArray texts) := by
  have hitems : Json.sortedItems? (texts.map .str) = some (texts.map .str) :=
    Json.sortedItems?_eq_some_iff.2 (List.forall₂_same.2 (List.forall_mem_map.2 fun _ _ => rfl))
  rw [textArray, sorted?, hitems, Option.map_some]

section Success

variable (hname : name < "success")
include hname

theorem increasing_success : [name, "success", "warnings"].Pairwise (· < ·) := by
  have hlast : name < "warnings" := String.lt_trans hname (by decide)
  simp only [List.pairwise_cons, List.forall_mem_cons, List.not_mem_nil, false_implies,
    implies_true, and_true, List.Pairwise.nil]
  exact ⟨⟨hname, hlast⟩, by decide⟩

theorem sorted?_success (v : Json) (warnings : List String) :
    sorted? (.obj [("success", .bool true), (.text name, v), ("warnings", textArray warnings)]) =
      (sorted? v).map fun w => success name w warnings := by
  cases hv : sorted? v with
  | none => simp [sorted?, Json.sortedFields?, hv]
  | some w =>
      have hfields : Json.sortedFields? [("success", .bool true), (.text name, v),
          ("warnings", textArray warnings)] =
          some (textFields id [("success", .bool true), (name, w),
            ("warnings", textArray warnings)]) := by
        simp [Json.sortedFields?, hv, sorted?_textArray, textFields, sorted?]
      have hmerge := mergeSort_eq_of_perm Prod.fst
        (List.Perm.swap (name, w) ("success", .bool true) [("warnings", textArray warnings)])
        (increasing_success hname)
      rw [sorted?, hfields, Option.bind_some, sortFields_textFields, hmerge]
      rfl

/-- A result is answered if it can be sorted. -/
theorem sorted_success_eq_ok_iff : Response.sorted (.obj [("success", .bool true), (.text name, v),
      ("warnings", textArray warnings)]) = .ok response ↔
    ∃ w, sorted? v = some w ∧ .json 200 (success name w warnings) = response := by
  rw [Response.sorted, sorted?_success hname]
  cases sorted? v with
  | none => simp
  | some w => simp

theorem tells_success (hv : Bounded 989 v) (hw : sorted? v = some w) (warnings : List String) :
    (Response.json 200 (success name w warnings)).Tells 200 (success name w.named warnings) := by
  have hsorted := Json.sortedAs_of_sorted? hv.proper hw
  have hnames : DistinctTexts [.text name, "success", "warnings"] := by
    refine List.Pairwise.imp ?_ (increasing_success hname)
    rintro a _ hlt rfl
    exact String.lt_irrefl a hlt
  have hwarnings : Bounded 1 (textArray warnings) :=
    Json.bounded_arr_iff.2 (List.forall_mem_map.2 fun s _ => Json.bounded_str s)
  have hnamed : (success name w warnings).named = success name w.named warnings := by
    simp [success, Json.named, Json.namedFields, textArray, Json.namedItems_eq, Function.comp_def,
      Json.Writer.keyText]
  rw [← hnamed]
  refine Response.tells_json 200 (.obj hnames ?_) (Json.depth_obj_le_iff.2 ?_ : _ ≤ 989 + 1)
  · simp only [List.forall_mem_cons, List.not_mem_nil, false_implies, implies_true, and_true]
    exact ⟨hsorted.sortedTexts, .bool true, .arr (List.forall_mem_map.2 fun s _ => .str s)⟩
  · simp only [List.forall_mem_cons, List.not_mem_nil, false_implies, implies_true, and_true]
    exact ⟨hsorted.depth.trans hv.depth, Nat.zero_le _, hwarnings.depth.trans (by decide)⟩

end Success

end NatSpec.Service
