import NatSpec.Proofs.Contract.Bounded
import NatSpec.Proofs.Docgen.Written
import NatSpec.Proofs.Service.Answers

/-!
The surfaces agree. The service resolves a whole build-info document or one contract of it, and a
run writes the data of a bundle. For one document all of them tell the same records and warnings, or
the same first problem.
-/

namespace NatSpec.Service

open BuildInfo (textFields)
open Json (Bounded Reordered sorted?)
open Json.Reader (maxNesting)

variable {r q : Request} {path contract : String} {fields B : Fields} {store : Store}
  {strict : Bool} {docs : Docs} {response : Response}

/-! ### The store of a posted document -/

theorem standard_of_posts (h : Posts r path fields) :
    (Json.obj fields).Standard ∧ (Json.obj fields).depth ≤ maxNesting := by
  have hvalue := h.value
  unfold Request.value at hvalue
  split at hvalue
  · split at hvalue
    · split at hvalue
      · rename_i v hread
        obtain ⟨text, -, hread⟩ := Option.map_eq_some_iff.1 hread
        rw [Option.some.inj (Except.ok.inj hvalue)] at hread
        exact Json.standard_of_read hread
      · cases hvalue
      · cases hvalue
      · cases hvalue
    · cases hvalue
  · cases hvalue

theorem exists_of_store {doc : Json} (h : BuildInfo.store doc = .ok store) :
    ∃ table, BuildInfo.contracts doc = .ok table ∧
      store.listing = (do .ok ⟨← BuildInfo.names table, []⟩) ∧
      ∀ name, store.output name = ContractName.parse name >>= BuildInfo.output doc := by
  obtain ⟨table, htable, h⟩ := bind_eq_ok_iff.1 h
  obtain rfl := Except.ok.inj h
  exact ⟨table, htable, rfl, fun _ => rfl⟩

/-- A store lists its names in increasing order, without warnings, or meets a fault. -/
theorem listing_of_store {doc : Json} (h : BuildInfo.store doc = .ok store) :
    (∃ listed, store.listing = .ok ⟨listed, []⟩ ∧ listed.Pairwise (· ≤ ·)) ∨
      ∃ fault, store.listing = .error (.fault fault) := by
  obtain ⟨table, -, hlisting, -⟩ := exists_of_store h
  rw [hlisting]
  cases hnames : BuildInfo.names table with
  | error fault => exact .inr ⟨fault, rfl⟩
  | ok listed =>
      refine .inl ⟨listed, rfl, ?_⟩
      obtain ⟨perSource, -, hnames⟩ := bind_eq_ok_iff.1 hnames
      rw [← Except.ok.inj hnames]
      exact pairwise_mergeSort_le id _

/-- The output of a contract in a posted document. -/
theorem standard_output (hr : Posts r path B) (h : BuildInfo.store (.obj B) = .ok store)
    {name : String} {output : Json} (houtput : store.output name = .ok output) :
    output.Standard ∧ output.depth ≤ 986 := by
  obtain ⟨hstandard, hdepth⟩ := standard_of_posts hr
  obtain ⟨-, -, -, hfetch⟩ := exists_of_store h
  rw [hfetch] at houtput
  obtain ⟨id, -, houtput⟩ := bind_eq_ok_iff.1 houtput
  exact BuildInfo.standard_output hstandard hdepth houtput

theorem bounded_output (hr : Posts r path B) (h : BuildInfo.store (.obj B) = .ok store)
    {name : String} {output : Json} (houtput : store.output name = .ok output) :
    Bounded 986 output := by
  obtain ⟨hstandard, hdepth⟩ := standard_output hr h houtput
  exact ⟨hstandard.mono fun _ => Json.TextNames.proper, hdepth⟩

/-! ### Records in answers -/

/-- The record of a contract as it is answered: with its fields in order and texts for names. -/
def answered (doc : ContractDoc) : Json :=
  ((sorted? doc.toJson).getD .null).named

theorem sortedFields?_textFields {α : Type} {f : α → Json} {t : Table String α} {changed : Fields}
    (h : Json.sortedFields? (textFields f t) = some changed) :
    (∀ e ∈ t, ∃ w, sorted? (f e.2) = some w) ∧
      changed = textFields (fun a => (sorted? (f a)).getD .null) t := by
  induction t generalizing changed with
  | nil =>
      obtain rfl := Option.some.inj h
      exact ⟨by simp, rfl⟩
  | cons e t ih =>
      rw [textFields, List.map_cons, Json.sortedFields?] at h
      simp only [Option.bind_eq_bind, Option.bind_eq_some_iff, Option.some.injEq] at h
      obtain ⟨w, hw, rest, hrest, rfl⟩ := h
      obtain ⟨hall, rfl⟩ := ih hrest
      refine ⟨List.forall_mem_cons.2 ⟨⟨w, hw⟩, hall⟩, ?_⟩
      rw [textFields, textFields, List.map_cons, hw]
      rfl

/-- Records that are answered in one table can be answered one by one, and the table has the order
of the names. -/
theorem sorted?_docs (hkeys : (Table.keys docs).Pairwise (· < ·)) {w : Json}
    (h : sorted? docs.toJson = some w) :
    (∀ e ∈ docs, ∃ v, sorted? e.2.toJson = some v ∧ v.named = answered e.2) ∧
      w.named = .obj (textFields answered docs) := by
  obtain ⟨changed, hchanged, h⟩ := Option.bind_eq_some_iff.1 h
  obtain ⟨hall, rfl⟩ := sortedFields?_textFields (f := ContractDoc.toJson) hchanged
  rw [sortFields_textFields, mergeSort_eq_of_perm Prod.fst (List.Perm.refl _) hkeys] at h
  obtain rfl := Option.some.inj h
  constructor
  · intro e he
    obtain ⟨v, hv⟩ := hall e he
    refine ⟨v, hv, ?_⟩
    rw [answered, hv]
    rfl
  · rw [Json.named, Json.namedFields_eq, textFields, List.map_map]
    rfl

/-! ### One contract -/

/-- A request to resolve one contract, with its output and perhaps a wish for strictness. -/
def AsksFor (q : Request) (contract : String) (output : Json) (strict : Bool) : Prop :=
  ∃ fields, Posts q "/api/resolve" fields ∧ Json.field fields "contract" = .str contract ∧
    Json.field fields "output" = output ∧ (Json.field fields "strict").truthy = strict

/-- The request for one contract in the fewest fields. -/
def asking (contract : String) (output : Json) (strict : Bool) : Request :=
  posting "/api/resolve" "" [("contract", .str contract), ("output", output),
    ("strict", .bool strict)]

/-- What can be posted in a document can be posted on its own, unless it is then too large. -/
theorem asksFor_asking {output : Json} (h : output.Standard) (hdepth : output.depth ≤ 986)
    {strict : Bool} (hfits : (asking contract output strict).isTooLarge = false) :
    AsksFor (asking contract output strict) contract output strict := by
  have hstandard : (Json.obj [("contract", .str contract), ("output", output),
      ("strict", .bool strict)]).Standard := by
    refine .obj ⟨["contract", "output", "strict"], by decide, rfl⟩ ?_
    simp [h, Json.Valid.str, Json.Valid.bool]
  refine ⟨_, posts_posting hstandard ?_ hfits, rfl, rfl, ?_⟩
  · refine (Json.depth_obj_le_iff.2 ?_ : _ ≤ 986 + 1).trans (by decide)
    simp [hdepth, Json.depth]
  · cases strict <;> rfl

theorem resolve_of_asks {output : Json} {doc : ContractDoc} (hq : AsksFor q contract output strict)
    (hdoc : resolveContract contract output strict = .ok doc) :
    resolve q = Response.sorted (.obj [("success", .bool true), ("contract", doc.toJson),
      ("warnings", textArray doc.warnings)]) := by
  obtain ⟨fields, hposts, hcontract, houtput, hstrict⟩ := hq
  obtain ⟨found, rfl, -⟩ := exists_resolution hdoc
  rw [resolve, bodyFields_of_posts hposts, ok_bind, hcontract, houtput, hstrict]
  dsimp only
  rw [hdoc, ok_bind]

/-- A contract whose record can be answered is answered on its own with that record and its own
warnings. -/
theorem exists_single {output v : Json} {doc : ContractDoc}
    (hq : AsksFor q contract output strict)
    (hdoc : resolveContract contract output strict = .ok doc) (hbounded : Bounded 988 doc.toJson)
    (hv : sorted? doc.toJson = some v) :
    ∃ single, Answers q single ∧ single.Tells 200 (success "contract" v.named doc.warnings) := by
  have hname : "contract" < "success" := by decide
  have hanswer : resolve q = .ok (.json 200 (success "contract" v doc.warnings)) :=
    (resolve_of_asks hq hdoc).trans ((sorted_success_eq_ok_iff hname).2 ⟨v, hv, rfl⟩)
  obtain ⟨fields, hposts, -⟩ := hq
  have hanswers := answers_resolve hposts
  rw [hanswer] at hanswers
  exact ⟨_, hanswers, tells_success hname (hbounded.mono (by decide)) hv _⟩

/-! ### All contracts -/

theorem generate_of_posts (hr : Posts r path B) : generate r = (do
    let store ← BuildInfo.store (.obj B)
    let docs ← store.resolveAll (isStrict r)
    Response.sorted (.obj [("success", .bool true), ("contracts", docs.toJson),
      ("warnings", textArray docs.warnings)])) := by
  rw [generate, bodyFields_of_posts hr, ok_bind]

/-- What stands behind the answer of a success. -/
theorem exists_of_generate (hr : Posts r path B) (h : generate r = .ok response) :
    ∃ store listed docs w, BuildInfo.store (.obj B) = .ok store ∧
      store.listing = .ok ⟨listed, []⟩ ∧ listed.Pairwise (· ≤ ·) ∧
      store.resolve (isStrict r) listed = .ok docs ∧ sorted? docs.toJson = some w ∧
      .json 200 (success "contracts" w docs.warnings) = response := by
  rw [generate_of_posts hr] at h
  obtain ⟨store, hstore, h⟩ := bind_eq_ok_iff.1 h
  obtain ⟨docs, hdocs, h⟩ := bind_eq_ok_iff.1 h
  obtain ⟨w, hw, hresponse⟩ := (sorted_success_eq_ok_iff (by decide)).1 h
  rcases listing_of_store hstore with ⟨listed, hlisting, hsorted⟩ | ⟨fault, hlisting⟩
  · rw [Store.resolveAll, hlisting, ok_bind] at hdocs
    exact ⟨store, listed, docs, w, hstore, hlisting, hsorted, hdocs, hw, hresponse⟩
  · rw [Store.resolveAll, hlisting] at hdocs
    cases hdocs

/-- A document all of whose contracts can be resolved, to records as JSON has them, is answered. -/
theorem status_generate_of_resolve (hr : Posts r path B)
    (hstore : BuildInfo.store (.obj B) = .ok store) {listing : Listing}
    (hlisting : store.listing = .ok listing)
    (hdocs : store.resolve (isStrict r) listing.names = .ok docs) (hstandard : docs.IsStandard) :
    (answer (generate r)).status = 200 := by
  obtain ⟨w, hw⟩ := Json.exists_sorted? hstandard.toJson
  have hname : "contracts" < "success" := by decide
  rw [generate_of_posts hr, hstore, ok_bind, Store.resolveAll, hlisting, ok_bind, hdocs, ok_bind,
    (sorted_success_eq_ok_iff hname).2 ⟨w, hw, rfl⟩]
  rfl

/-- A document is refused for a problem of its artifacts. -/
theorem status_generate_of_refused (hr : Posts r path B)
    (hstore : BuildInfo.store (.obj B) = .ok store) {listing : Listing}
    (hlisting : store.listing = .ok listing) {p : Problem}
    (hdocs : store.resolve (isStrict r) listing.names = .error (.problem p))
    (hartifact : p.isArtifact = true) : (answer (generate r)).status = 400 := by
  rw [generate_of_posts hr, hstore, ok_bind, Store.resolveAll, hlisting, ok_bind, hdocs]
  exact congrArg Response.status (if_pos hartifact)

/-- The warnings of a contract, if it is documented. -/
def warningsIn (docs : Docs) (name : String) : List String :=
  ((Table.get? docs name).map ContractDoc.warnings).getD []

theorem warnings_eq_flatMap (h : (Table.keys docs).Nodup) :
    docs.warnings = (Table.keys docs).flatMap (warningsIn docs) := by
  rw [Docs.warnings, Table.keys, List.flatMap_map]
  refine List.flatMap_congr fun e he => ?_
  rw [warningsIn, Table.get?_of_mem h he]
  rfl

/-- The data of a bundle are read as the records of its contracts. -/
theorem read_data {indent : Json} (hindent : indent = .null ∨ ∃ n, indent = .int n)
    (hkeys : (Table.keys docs).Pairwise (· < ·)) (hbounded : Bounded 989 docs.toJson)
    (hvalid : Json.Valid Json.DistinctTexts docs.toJson) {text : String}
    (htext : Bundle.dataText docs indent = .ok text) :
    Json.read text = .ok docs.toJson.named ∧ Text.withLineFeeds text = text := by
  obtain ⟨l, hplain, hprinted, hwritten⟩ := Bundle.exists_dataText docs hindent
  obtain rfl := Except.ok.inj (hwritten.symm.trans htext)
  have hdata : docs.data = docs.toJson := by
    rw [Docs.data, Docs.sorted, mergeSort_eq_of_perm Prod.fst (List.Perm.refl _) hkeys]
  rw [hdata]
  have hread := Json.read_write hplain hvalid
    (by simp [Json.Blanks, Json.IsBlank] : Json.Blanks "\n".toList)
  have hbehind : Json.AllPrinted "\n".toList := by simp [Json.AllPrinted, Json.Printed]
  have hdepth : docs.toJson.depth ≤ maxNesting := hbounded.depth.trans (Nat.le_succ 989)
  rw [if_pos hdepth] at hread
  exact ⟨hread, Json.withLineFeeds_write hprinted hvalid hbehind⟩

/-! ### The surfaces together -/

/-- The names that a store lists, in increasing order and each of them once. -/
structure Enumerates (store : Store) (names : List String) : Prop where
  increasing : names.Pairwise (· < ·)
  listed : ∃ listed, store.listing = .ok ⟨listed, []⟩ ∧ ∀ name, name ∈ names ↔ name ∈ listed

/-- Whoever posts what a store has for one contract is told a record and warnings. It can be posted
unless the request for it is too large to be read. -/
def AnswersAlone (store : Store) (strict : Bool) (contract : String) (record : Json)
    (warnings : List String) : Prop :=
  ∃ output, store.output contract = .ok output ∧
    ((asking contract output strict).isTooLarge = false →
      AsksFor (asking contract output strict) contract output strict) ∧
    ∀ q, AsksFor q contract output strict → ∃ response, Answers q response ∧
      response.Tells 200 (success "contract" record warnings)

/-- Runs on a store that succeed report warnings, and write data that are a table up to the order of
fields. -/
def RunsGive (store : Store) (strict : Bool) (table : Fields) (warnings : List String) : Prop :=
  ∀ (t : FileTree) (root : String) (options : Options) (render : RenderOptions) (report : Report)
    (t' : FileTree), (render.jsonIndent = .null ∨ ∃ n, render.jsonIndent = .int n) →
    runDocgen (.ofString root) options (some store) render strict t = (.ok report, t') →
    report.warnings = warnings ∧
      ∃ data, Reordered data (.obj table) ∧ report.HasData t t' data

/-- Runs on a store that choose their output directory fail with a problem and change nothing. -/
def RunsFail (store : Store) (strict : Bool) (p : Problem) : Prop :=
  ∀ (t : FileTree) (root : Path) (options : Options) (render : RenderOptions)
    (rootPlace output : Location), Chosen t root options rootPlace output →
    runDocgen root options (some store) render strict t = (.error (.problem p), t)

/-- A run on a store that resolves all its contracts documents just these. -/
theorem of_runDocgen_store {root : Path} {t t' : FileTree} {options : Options}
    {render : RenderOptions} {report : Report} {listed : List String}
    (hlisting : store.listing = .ok ⟨listed, []⟩) (hdocs : store.resolve strict listed = .ok docs)
    (h : runDocgen root options (some store) render strict t = (.ok report, t')) :
    report.docs = docs ∧ report.warnings = docs.warnings := by
  obtain ⟨p, hplan, hreport, -⟩ := exists_of_runDocgen h
  obtain ⟨output, opened, listing, hlisted, -, hplanned, hwarnings⟩ := exists_of_plan hplan
  obtain ⟨rootPlace, -, hopened⟩ := hlisted.chosen
  obtain rfl := Except.ok.inj hopened
  obtain rfl := Except.ok.inj (hlisting.symm.trans hlisted.listing)
  obtain rfl := Except.ok.inj (hdocs.symm.trans hplanned)
  exact ⟨congrArg Report.docs hreport, (congrArg Report.warnings hreport).trans hwarnings⟩

/-- A whole document is answered with the records and warnings that its contracts are answered with
one by one, and a run on its store writes and reports the same. -/
theorem exists_of_success (hr : Posts r path B) (h : generate r = .ok response) :
    ∃ (store : Store) (names : List String) (table : Fields) (warningsOf : String → List String),
      BuildInfo.store (.obj B) = .ok store ∧ Enumerates store names ∧
      Table.keys table = names.map .text ∧
      response.Tells 200 (success "contracts" (.obj table) (names.flatMap warningsOf)) ∧
      (∀ name ∈ names, ∃ record, Table.get? table (.text name) = some record ∧
        AnswersAlone store (isStrict r) name record (warningsOf name)) ∧
      RunsGive store (isStrict r) table (names.flatMap warningsOf) := by
  obtain ⟨store, listed, docs, w, hstore, hlisting, hsorted, hdocs, hw, rfl⟩ :=
    exists_of_generate hr h
  have hdocumented := Store.documented_of_resolve hdocs
  have hkeys := Store.increasing_of_resolve hdocs hsorted
  have hbounded : Bounded 989 docs.toJson :=
    Docs.bounded_toJson hdocumented.distinct <| hdocumented.bounded_records fun _ _ _ =>
      bounded_output hr hstore
  have hsortedAs := Json.sortedAs_of_sorted? hbounded.proper hw
  obtain ⟨hrecords, htable⟩ := sorted?_docs hkeys hw
  have hwarnings := warnings_eq_flatMap hdocumented.distinct
  refine ⟨store, Table.keys docs, textFields answered docs, warningsIn docs, hstore,
    ⟨hkeys, listed, hlisting, hdocumented.mem_keys⟩, by simp [textFields, Table.keys], ?_, ?_, ?_⟩
  · rw [← htable, ← hwarnings]
    exact tells_success (by decide) hbounded hw docs.warnings
  · intro name hname
    obtain ⟨doc, hdoc⟩ := Table.exists_get?_of_mem_keys hname
    obtain ⟨output, houtput, hresolve⟩ := hdocumented.made name doc hdoc
    obtain ⟨v, hv, hanswered⟩ := hrecords _ (Table.mem_of_get? hdoc)
    obtain ⟨hstandard, hdepth⟩ := standard_output hr hstore houtput
    refine ⟨answered doc, ?_, output, houtput, asksFor_asking hstandard hdepth, ?_⟩
    · rw [BuildInfo.get?_textFields, hdoc]
      rfl
    · intro q hq
      have hbounded := bounded_resolveContract (bounded_output hr hstore houtput) hresolve
      have hsingle := exists_single hq hresolve hbounded hv
      rw [hanswered] at hsingle
      rwa [warningsIn, hdoc]
  · intro t root options render report t' hindent hrun
    obtain ⟨hreported, hreportedWarnings⟩ := of_runDocgen_store hlisting hdocs hrun
    refine ⟨hreportedWarnings.trans hwarnings, docs.toJson.named, ?_, ?_⟩
    · rw [← htable]
      exact hsortedAs.reordered
    · refine hasData_of_runDocgen hrun fun text htext => ?_
      rw [hreported] at htext
      exact read_data hindent hkeys hbounded hsortedAs.texts htext

theorem enumerates_dedup {listed : List String} (hlisting : store.listing = .ok ⟨listed, []⟩)
    (hsorted : listed.Pairwise (· ≤ ·)) : Enumerates store listed.dedup where
  increasing := by
    have hpairs := (hsorted.sublist (List.dedup_sublist listed)).and (List.nodup_dedup listed)
    exact hpairs.imp fun ⟨hle, hne⟩ => String.not_le.1 fun hge => hne (String.le_antisymm hle hge)
  listed := ⟨listed, hlisting, fun _ => List.mem_dedup⟩

/-- A document that is refused for one of its contracts is refused for the first one that cannot be
fetched or resolved, and a run on its store fails with the same problem. -/
theorem exists_of_refusal (hr : Posts r path B) (hstore : BuildInfo.store (.obj B) = .ok store)
    (hstatus : (answer (generate r)).status = 400) :
    ∃ names name p, Enumerates store names ∧ name ∈ names ∧
      (∀ other ∈ names, other < name → store.Resolves (isStrict r) other) ∧
      store.Refuses (isStrict r) name (.problem p) ∧ p.isArtifact = true ∧
      (answer (generate r)).Tells 400 (.obj [("error", .str p.message)]) ∧
      RunsFail store (isStrict r) p := by
  have hgenerate := generate_of_posts hr
  rw [hstore, ok_bind] at hgenerate
  obtain ⟨p, hp, hartifact, hanswer⟩ : ∃ p, generate r = .error (.problem p) ∧
      p.isArtifact = true ∧ answer (generate r) = .error 400 p.message := by
    rcases of_status_answer hstatus with ⟨response, hresponse, hbad⟩ | hproblem
    · rw [hgenerate] at hresponse
      obtain ⟨docs, -, hresponse⟩ := bind_eq_ok_iff.1 hresponse
      rw [status_sorted hresponse] at hbad
      cases hbad
    · exact hproblem
  have hresolve : store.resolveAll (isStrict r) = .error (.problem p) := by
    rw [hgenerate] at hp
    rcases bind_eq_error_iff.1 hp with hresolve | ⟨docs, -, hsorted⟩
    · exact hresolve
    · unfold Response.sorted at hsorted
      split at hsorted <;> cases hsorted
  rcases listing_of_store hstore with ⟨listed, hlisting, hordered⟩ | ⟨fault, hlisting⟩
  · rw [Store.resolveAll, hlisting, ok_bind] at hresolve
    obtain ⟨done, name, rest, hnames, hdone, hname⟩ := Store.resolve_eq_error_iff.1 hresolve
    obtain rfl : listed = done ++ name :: rest := hnames
    refine ⟨_, name, p, enumerates_dedup hlisting hordered, by simp, ?_, hname, hartifact, ?_, ?_⟩
    · intro other hother hlt
      have hbehind := (List.pairwise_cons.1 (List.pairwise_append.1 hordered).2.1).1
      rcases List.mem_append.1 (List.mem_dedup.1 hother) with hmem | hmem
      · exact hdone other hmem
      · rcases List.mem_cons.1 hmem with rfl | hmem
        · exact absurd hlt (String.lt_irrefl other)
        · exact absurd (hbehind other hmem) (String.not_le.2 hlt)
    · rw [hanswer]
      exact Response.tells_error 400 p.message
    · intro t root options render rootPlace output hchosen
      exact runDocgen_of_stops render
        (.contract ⟨⟨rootPlace, hchosen, rfl⟩, hlisting⟩ rfl hdone hname)
  · rw [Store.resolveAll, hlisting] at hresolve
    cases hresolve

/-- An entry of an ABI that may stand twice. -/
def emptyFunction : Json :=
  .obj [("type", .str "function"), ("name", .str "f"), ("inputs", .arr [])]

theorem standard_emptyFunction : emptyFunction.Standard :=
  .obj ⟨["type", "name", "inputs"], by decide, rfl⟩ (by simp [Json.Valid.str, Json.Valid.arr])

/-- Two sources against the alphabet, and a contract with a duplicate. -/
def twoSources : Fields :=
  [("output", .obj [("contracts", .obj [
    ("b.sol", .obj [("B", .obj [("abi", .arr [emptyFunction, emptyFunction])])]),
    ("a.sol", .obj [("A", .obj [("abi", .arr [])])])])])]

theorem posts_twoSources (query : String) :
    Posts (posting "/api/generate" query twoSources) "/api/generate" twoSources := by
  have habi : ∀ entries : List Json, (∀ v ∈ entries, v.Standard) →
      (Json.obj [("abi", .arr entries)]).Standard := fun entries h =>
    .obj ⟨["abi"], by decide, rfl⟩ (by simp [Json.Valid.arr h])
  have hfirst : (Json.obj [("B", .obj [("abi", .arr [emptyFunction, emptyFunction])])]).Standard :=
    .obj ⟨["B"], by decide, rfl⟩ (by simp [habi, standard_emptyFunction])
  have hsecond : (Json.obj [("A", .obj [("abi", .arr [])])]).Standard :=
    .obj ⟨["A"], by decide, rfl⟩ (by simp [habi])
  have hcontracts : (Json.obj [("contracts", .obj [
      ("b.sol", .obj [("B", .obj [("abi", .arr [emptyFunction, emptyFunction])])]),
      ("a.sol", .obj [("A", .obj [("abi", .arr [])])])])]).Standard :=
    .obj ⟨["contracts"], by decide, rfl⟩ (by
      simpa using Json.Valid.obj ⟨["b.sol", "a.sol"], by decide, rfl⟩ (by simp [hfirst, hsecond]))
  exact posts_posting (.obj ⟨["output"], by decide, rfl⟩ (by simpa [twoSources] using hcontracts))
    (by decide) (isTooLarge_posting _ _ (by decide +kernel))

def repeatedDoc : ContractDoc :=
  { source := .str "b.sol", name := .str "B", title := .null, author := .null, details := .null,
    notice := .null, constructor := .null, fallback := .null, receive := .null, events := .null,
    stateVariables := .null, methods := .obj [("f()", emptyFunction)],
    warnings := ["b.sol:B: duplicate signature f(), later ABI entry kept"] }

def emptyDoc : ContractDoc :=
  { source := .str "a.sol", name := .str "A", title := .null, author := .null, details := .null,
    notice := .null, constructor := .null, fallback := .null, receive := .null, events := .null,
    stateVariables := .null, methods := .null, warnings := [] }

/-- A strict run refuses the duplicate, another one warns of it. -/
theorem exists_store_twoSources : ∃ store, BuildInfo.store (.obj twoSources) = .ok store ∧
    store.listing = .ok ⟨["a.sol:A", "b.sol:B"], []⟩ ∧
    store.resolve false ["a.sol:A", "b.sol:B"] =
      .ok [("a.sol:A", emptyDoc), ("b.sol:B", repeatedDoc)] ∧
    store.resolve true ["a.sol:A", "b.sol:B"] =
      .error (.problem (.duplicateSignatures "b.sol:B" ["f()"])) := by
  obtain ⟨table, htable⟩ : ∃ table, BuildInfo.contracts (.obj twoSources) = .ok table := ⟨_, rfl⟩
  have hmerge := mergeSort_eq_of_perm id (List.Perm.swap "a.sol:A" "b.sol:B" [])
    (by decide : ["a.sol:A", "b.sol:B"].Pairwise (· < ·))
  have hnames : BuildInfo.names table = .ok ["a.sol:A", "b.sol:B"] := by
    rw [← hmerge]
    obtain rfl := Except.ok.inj htable
    rfl
  obtain ⟨store, hstore, hlisting, hfetch⟩ := BuildInfo.exists_store htable hnames
  have hfirst : store.output "a.sol:A" = .ok (.obj [("abi", .arr [])]) := by
    rw [hfetch]
    rfl
  have hsecond : store.output "b.sol:B" =
      .ok (.obj [("abi", .arr [emptyFunction, emptyFunction])]) := by
    rw [hfetch]
    rfl
  have hempty : ∀ strict,
      resolveContract "a.sol:A" (.obj [("abi", .arr [])]) strict = .ok emptyDoc := by
    intro strict
    cases strict <;> rfl
  have hrepeated : resolveContract "b.sol:B"
      (.obj [("abi", .arr [emptyFunction, emptyFunction])]) false = .ok repeatedDoc := by rfl
  have hrefused : resolveContract "b.sol:B"
      (.obj [("abi", .arr [emptyFunction, emptyFunction])]) true =
      .error (.problem (.duplicateSignatures "b.sol:B" ["f()"])) := by rfl
  refine ⟨store, hstore, hlisting, ?_, ?_⟩
  · simp only [Store.resolve, List.foldlM_cons, List.foldlM_nil, Store.document, hfirst, hsecond,
      hempty, hrepeated, ok_bind]
    rfl
  · exact Store.resolve_eq_error_iff.2 ⟨["a.sol:A"], "b.sol:B", [], rfl,
      by simpa using ⟨_, _, hfirst, hempty true⟩, .resolving hsecond hrefused⟩

theorem isStandard_twoSources :
    Docs.IsStandard [("a.sol:A", emptyDoc), ("b.sol:B", repeatedDoc)] where
  distinct := by decide
  records := by
    have hmethods : (Json.obj [("f()", emptyFunction)]).Standard :=
      .obj ⟨["f()"], by decide, rfl⟩ (by simp [standard_emptyFunction])
    simp only [List.forall_mem_cons, List.not_mem_nil, false_implies, implies_true, and_true]
    constructor <;> refine ContractDoc.valid_toJson (fun _ h => h) ?_ <;>
      simp [ContractDoc.values, emptyDoc, repeatedDoc, hmethods, Json.Valid.null, Json.Valid.str]

end NatSpec.Service
