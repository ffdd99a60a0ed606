import NatSpec.Proofs.Contract.Faults
import NatSpec.Proofs.Service.Agreement

/-!
The status of an answer. A request that cannot be resolved is answered as a client error when a
problem of the compiler's artifacts is reported, and as an internal error when a pass meets a value
of a shape it cannot work on. The main statement is which requests are answered as internal errors,
namely those with a malformed artifact that no pass reports.
-/

namespace NatSpec.Service

open Json (Mixes sorted?)

variable {r : Request} {path : String} {fields table : Fields} {store : Store} {docs : Docs}

/-! ### Answers of computations -/

/-- A success, or an error that tells what is wrong with the request or that the service failed. -/
inductive Response.IsAnswer (response : Response) : Prop
  | success (h : response.status = 200)
  | clientError {message : String} (h : response.Tells 400 (.obj [("error", .str message)]))
  | internalError (h : response.Tells 500 (.obj [("error", .str "Internal server error")]))

/-- A computation that gives a success or a client error, or fails with a problem of artifacts or a
fault. -/
structure IsHandled (result : Except Failure Response) : Prop where
  answers : ∀ response, result = .ok response →
    response.status = 200 ∨ ∃ message, response = .error 400 message
  reports : ∀ p, result = .error (.problem p) → p.isArtifact = true

theorem IsHandled.isAnswer {result : Except Failure Response} (h : IsHandled result) :
    (answer result).IsAnswer ∧
      ((answer result).status = 500 ↔ ∃ fault, result = .error (.fault fault)) := by
  rcases result with (p | fault) | response
  · rw [answer, if_pos (h.reports p rfl)]
    exact ⟨.clientError (Response.tells_error 400 _), by simp [Response.error, Response.json]⟩
  · exact ⟨.internalError (Response.tells_error 500 _), by simp [answer, internalError,
      Response.error, Response.json]⟩
  · rw [answer]
    rcases h.answers response rfl with hstatus | ⟨message, rfl⟩
    · exact ⟨.success hstatus, by simp [hstatus]⟩
    · exact ⟨.clientError (Response.tells_error 400 _), by simp [Response.error, Response.json]⟩

theorem bodyFields_eq_ok_iff :
    bodyFields r = .ok fields ↔ r.value = .ok (some (.obj fields)) := by
  unfold bodyFields
  split <;> simp_all [Problem.fail]

/-- The body of a request is refused if it is not an object. Only a text beyond the limits of the
reader is a fault. -/
theorem bodyFields_eq_error {f : Failure} (h : bodyFields r = .error f) :
    f = .problem .bodyNotObject ∨
      ∃ refusal, f = .fault (.ofRefusal refusal) ∧ r.value (τ := String) = .error refusal := by
  unfold bodyFields at h
  split at h
  · cases h
  · exact .inl (Except.error.inj h).symm
  · exact .inr ⟨_, (Except.error.inj h).symm, ‹_›⟩

theorem sorted_success_eq_error {name : String} (hname : name < "success") {v : Json}
    {warnings : List String} {f : Failure}
    (h : Response.sorted (.obj [("success", .bool true), (.text name, v),
      ("warnings", textArray warnings)]) = .error f) : Mixes v ∧ f = .fault .wrongKind := by
  rw [Response.sorted, sorted?_success hname] at h
  cases hv : sorted? v with
  | none =>
      rw [hv] at h
      exact ⟨Json.sorted?_eq_none_iff.1 hv, (Except.error.inj h).symm⟩
  | some w =>
      rw [hv] at h
      cases h

theorem sorted_of_mixes {name : String} (hname : name < "success") {v : Json} (h : Mixes v)
    (warnings : List String) :
    Response.sorted (.obj [("success", .bool true), (.text name, v),
      ("warnings", textArray warnings)]) = .error (.fault .wrongKind) := by
  rw [Response.sorted, sorted?_success hname, Json.sorted?_eq_none_iff.2 h]
  rfl

/-- What is told of a body that is too large. -/
def tooLargeError : Json :=
  .obj [("error", .str "Request too large. Maximum size is 50MB.")]

theorem tells_of_tooLarge (result : Except Failure Response) (h : r.isTooLarge = true) :
    (answerBody r result).Tells 413 tooLargeError := by
  rw [answerBody, if_pos h]
  exact Response.tells_error 413 _

/-! ### One contract -/

/-- Why resolving the contract of a request ends in an internal error. -/
inductive BreaksResolve (r : Request) : Prop
  | body {refusal : Json.Refusal} (h : r.value (τ := String) = .error refusal)
  | output {fields output : Fields} {contract : String} (hvalue : r.value = .ok (some (.obj fields)))
      (hcontract : Json.field fields "contract" = .str contract)
      (houtput : Json.field fields "output" = .obj output)
      (h : MeetsFault contract output (Json.field fields "strict").truthy)
  | record {fields output : Fields} {contract : String} {doc : ContractDoc}
      (hvalue : r.value = .ok (some (.obj fields)))
      (hcontract : Json.field fields "contract" = .str contract)
      (houtput : Json.field fields "output" = .obj output)
      (hdoc : resolveContract contract (.obj output) (Json.field fields "strict").truthy = .ok doc)
      (h : Mixes doc.toJson)

/-- Resolving a contract fails with a problem of artifacts, or with a fault. -/
theorem resolve_eq_error {f : Failure} (h : resolve r = .error f) :
    (∃ p : Problem, f = .problem p ∧ p.isArtifact = true) ∨
      BreaksResolve r ∧ ∃ fault, f = .fault fault := by
  rcases bind_eq_error_iff.1 h with hbody | ⟨fields, hbody, h⟩
  · rcases bodyFields_eq_error hbody with rfl | ⟨refusal, rfl, hvalue⟩
    · exact .inl ⟨_, rfl, rfl⟩
    · exact .inr ⟨.body hvalue, _, rfl⟩
  have hvalue := bodyFields_eq_ok_iff.1 hbody
  split at h
  · rename_i contract output hcontract houtput
    rcases bind_eq_error_iff.1 h with hdoc | ⟨doc, hdoc, h⟩
    · rcases resolveContract_eq_error hdoc with ⟨-, hproblem⟩ | ⟨hmeets, hfault⟩
      · exact .inl hproblem
      · exact .inr ⟨.output hvalue hcontract houtput hmeets, hfault⟩
    · obtain ⟨hmixes, rfl⟩ := sorted_success_eq_error (by decide) h
      exact .inr ⟨.record hvalue hcontract houtput hdoc hmixes, _, rfl⟩
  · cases h
  · cases h

theorem resolve_of_output {output : Fields} {contract : String}
    (hvalue : r.value = .ok (some (.obj fields)))
    (hcontract : Json.field fields "contract" = .str contract)
    (houtput : Json.field fields "output" = .obj output) :
    resolve r = (do
      let doc ← resolveContract contract (.obj output) (Json.field fields "strict").truthy
      Response.sorted (.obj [("success", .bool true), ("contract", doc.toJson),
        ("warnings", textArray doc.warnings)])) := by
  rw [resolve, bodyFields_eq_ok_iff.2 hvalue, ok_bind, hcontract, houtput]

theorem BreaksResolve.exists_fault (h : BreaksResolve r) :
    ∃ fault, resolve r = .error (.fault fault) := by
  cases h with
  | @body refusal hvalue =>
      refine ⟨.ofRefusal refusal, bind_eq_error_iff.2 (.inl ?_)⟩
      rw [bodyFields, hvalue]
  | output hvalue hcontract houtput hmeets =>
      obtain ⟨fault, hfault⟩ := exists_fault_iff.2 hmeets
      rw [resolve_of_output hvalue hcontract houtput, hfault]
      exact ⟨fault, rfl⟩
  | record hvalue hcontract houtput hdoc hmixes =>
      rw [resolve_of_output hvalue hcontract houtput, hdoc, ok_bind]
      exact ⟨_, sorted_of_mixes (by decide) hmixes _⟩

theorem isHandled_resolve (r : Request) : IsHandled (resolve r) where
  answers := by
    intro response h
    obtain ⟨fields, -, h⟩ := bind_eq_ok_iff.1 h
    split at h
    · obtain ⟨doc, -, h⟩ := bind_eq_ok_iff.1 h
      exact .inl (status_sorted h)
    · exact .inr ⟨_, (Except.ok.inj h).symm⟩
    · exact .inr ⟨_, (Except.ok.inj h).symm⟩
  reports := by
    intro p h
    rcases resolve_eq_error h with ⟨q, hq, hartifact⟩ | ⟨-, fault, hfault⟩
    · rwa [Failure.problem.inj hq]
    · cases hfault

theorem breaksResolve_iff : (∃ fault, resolve r = .error (.fault fault)) ↔ BreaksResolve r := by
  constructor
  · rintro ⟨fault, h⟩
    rcases resolve_eq_error h with ⟨p, hp, -⟩ | ⟨hbreaks, -⟩
    · cases hp
    · exact hbreaks
  · exact BreaksResolve.exists_fault

/-! ### All contracts -/

/-- Why resolving the contracts of a posted document ends in an internal error. -/
inductive BreaksGenerate (r : Request) : Prop
  | body {refusal : Json.Refusal} (h : r.value (τ := String) = .error refusal)
  | source {fields table : Fields} {source : Json.Key × Json}
      (hvalue : r.value = .ok (some (.obj fields)))
      (htable : BuildInfo.contracts (.obj fields) = .ok table) (hsource : source ∈ table)
      (h : source.2.elements? = none)
  | output {fields output : Fields} {store : Store} {done rest : List String} {name : String}
      (hvalue : r.value = .ok (some (.obj fields)))
      (hstore : BuildInfo.store (.obj fields) = .ok store)
      (hlisting : store.listing = .ok ⟨done ++ name :: rest, []⟩)
      (hdone : ∀ n ∈ done, store.Resolves (isStrict r) n)
      (houtput : store.output name = .ok (.obj output)) (h : MeetsFault name output (isStrict r))
  | record {fields : Fields} {store : Store} {listed : List String} {docs : Docs}
      {entry : String × ContractDoc} (hvalue : r.value = .ok (some (.obj fields)))
      (hstore : BuildInfo.store (.obj fields) = .ok store)
      (hlisting : store.listing = .ok ⟨listed, []⟩)
      (hdocs : store.resolve (isStrict r) listed = .ok docs) (hentry : entry ∈ docs)
      (h : Mixes entry.2.toJson)

theorem exists_names_iff : (∃ listed, BuildInfo.names table = .ok listed) ↔
    ∀ source ∈ table, source.2.elements? ≠ none := by
  have hsource (source : Json.Key × Json) :
      (∃ names, BuildInfo.sourceNames source.1.display source.2 = .ok names) ↔
        source.2.elements? ≠ none := by
    rw [BuildInfo.sourceNames]
    cases source.2.elements? <;> simp
  simp only [← hsource]
  rw [← exists_mapM_eq_ok_iff]
  constructor
  · rintro ⟨listed, h⟩
    obtain ⟨perSource, hperSource, -⟩ := bind_eq_ok_iff.1 h
    exact ⟨perSource, hperSource⟩
  · rintro ⟨perSource, hperSource⟩
    exact ⟨_, bind_eq_ok_iff.2 ⟨perSource, hperSource, rfl⟩⟩

/-- A store lists its contracts if the names of those of each source can be listed. -/
theorem exists_listing_iff {doc : Json} (h : BuildInfo.store doc = .ok store)
    (htable : BuildInfo.contracts doc = .ok table) :
    (∃ listing, store.listing = .ok listing) ↔ ∀ source ∈ table, source.2.elements? ≠ none := by
  obtain ⟨found, hfound, hlisting, -⟩ := exists_of_store h
  obtain rfl := Except.ok.inj (htable.symm.trans hfound)
  rw [hlisting, ← exists_names_iff]
  cases BuildInfo.names table with
  | ok listed => exact ⟨fun _ => ⟨listed, rfl⟩, fun _ => ⟨_, rfl⟩⟩
  | error fault => simp [bind, Except.bind, liftM, monadLift, MonadLift.monadLift]

/-- What a store gives is an object, and if it gives nothing then it reports a problem. -/
theorem output_of_store {doc : Json} (h : BuildInfo.store doc = .ok store) (name : String) :
    (∃ output, store.output name = .ok (.obj output)) ∨
      ∃ p : Problem, store.output name = .error (.problem p) ∧ p.isArtifact = true := by
  obtain ⟨-, -, -, hfetch⟩ := exists_of_store h
  rw [hfetch]
  cases hparse : ContractName.parse name with
  | error f =>
      obtain rfl := ContractName.parse_eq_error hparse
      exact .inr ⟨_, rfl, rfl⟩
  | ok id =>
      rw [ok_bind, BuildInfo.output]
      split
      · exact .inr ⟨_, rfl, rfl⟩
      · exact .inl ⟨_, rfl⟩
      · exact .inr ⟨_, rfl, rfl⟩

theorem exists_of_output {doc : Json} (h : BuildInfo.store doc = .ok store) {name : String}
    {v : Json} (hv : store.output name = .ok v) : ∃ output, v = .obj output := by
  rcases output_of_store h name with ⟨output, houtput⟩ | ⟨p, houtput, -⟩
  · exact ⟨output, Except.ok.inj (hv.symm.trans houtput)⟩
  · rw [houtput] at hv
    cases hv

theorem mixes_docs_iff : Mixes docs.toJson ↔ ∃ entry ∈ docs, Mixes entry.2.toJson := by
  constructor
  · intro h
    cases h with
    | @names _ a b ha hb hkind =>
        rw [docs.keys_toJson] at ha hb
        obtain ⟨name, -, rfl⟩ := List.mem_map.1 ha
        obtain ⟨other, -, rfl⟩ := List.mem_map.1 hb
        exact absurd rfl hkind
    | entry hmem h =>
        obtain ⟨entry, hentry, rfl⟩ := List.mem_map.1 hmem
        exact ⟨entry, hentry, h⟩
  · rintro ⟨entry, hentry, h⟩
    exact .entry (List.mem_map_of_mem hentry) h

theorem generate_of_store (hvalue : r.value = .ok (some (.obj fields)))
    (hstore : BuildInfo.store (.obj fields) = .ok store) :
    generate r = (do
      let docs ← store.resolveAll (isStrict r)
      Response.sorted (.obj [("success", .bool true), ("contracts", docs.toJson),
        ("warnings", textArray docs.warnings)])) := by
  rw [generate, bodyFields_eq_ok_iff.2 hvalue, ok_bind, hstore, ok_bind]

/-- Resolving a document fails with a problem of artifacts, or with a fault. -/
theorem generate_eq_error {f : Failure} (h : generate r = .error f) :
    (∃ p : Problem, f = .problem p ∧ p.isArtifact = true) ∨
      BreaksGenerate r ∧ ∃ fault, f = .fault fault := by
  rcases bind_eq_error_iff.1 h with hbody | ⟨fields, hbody, h⟩
  · rcases bodyFields_eq_error hbody with rfl | ⟨refusal, rfl, hvalue⟩
    · exact .inl ⟨_, rfl, rfl⟩
    · exact .inr ⟨.body hvalue, _, rfl⟩
  have hvalue := bodyFields_eq_ok_iff.1 hbody
  rcases bind_eq_error_iff.1 h with hstore | ⟨store, hstore, h⟩
  · rcases bind_eq_error_iff.1 hstore with htable | ⟨table, -, hstore⟩
    · unfold BuildInfo.contracts at htable
      split at htable
      · cases htable
      · exact .inl ⟨_, (Except.error.inj htable).symm, rfl⟩
    · cases hstore
  obtain ⟨table, htable, -, -⟩ := exists_of_store hstore
  rcases listing_of_store hstore with ⟨listed, hlisting, -⟩ | ⟨fault, hlisting⟩
  · rw [Store.resolveAll, hlisting, ok_bind] at h
    rcases bind_eq_error_iff.1 h with hdocs | ⟨docs, hdocs, h⟩
    · obtain ⟨done, name, rest, rfl, hdone, hname⟩ := Store.resolve_eq_error_iff.1 hdocs
      rcases hname with hfetch | ⟨houtput, hresolve⟩
      · rcases output_of_store hstore name with ⟨output, houtput⟩ | ⟨p, houtput, hp⟩
        · rw [houtput] at hfetch
          cases hfetch
        · exact .inl ⟨p, Except.error.inj (hfetch.symm.trans houtput), hp⟩
      · obtain ⟨output, rfl⟩ := exists_of_output hstore houtput
        rcases resolveContract_eq_error hresolve with ⟨-, hproblem⟩ | ⟨hmeets, hfault⟩
        · exact .inl hproblem
        · exact .inr ⟨.output hvalue hstore hlisting hdone houtput hmeets, hfault⟩
    · obtain ⟨hmixes, rfl⟩ := sorted_success_eq_error (by decide) h
      obtain ⟨entry, hentry, hmixes⟩ := mixes_docs_iff.1 hmixes
      exact .inr ⟨.record hvalue hstore hlisting hdocs hentry hmixes, _, rfl⟩
  · rw [Store.resolveAll, hlisting] at h
    refine .inr ⟨?_, fault, (Except.error.inj h).symm⟩
    obtain ⟨source, hsource, hnone⟩ : ∃ source ∈ table, source.2.elements? = none := by
      by_contra hall
      push Not at hall
      obtain ⟨listing, hok⟩ := (exists_listing_iff hstore htable).2 hall
      rw [hlisting] at hok
      cases hok
    exact .source hvalue htable hsource hnone

theorem BreaksGenerate.exists_fault (h : BreaksGenerate r) :
    ∃ fault, generate r = .error (.fault fault) := by
  cases h with
  | @body refusal hvalue =>
      refine ⟨.ofRefusal refusal, bind_eq_error_iff.2 (.inl ?_)⟩
      rw [bodyFields, hvalue]
  | source hvalue htable hsource hnone =>
      obtain ⟨store, hstore⟩ : ∃ store, BuildInfo.store (.obj _) = .ok store :=
        ⟨_, bind_eq_ok_iff.2 ⟨_, htable, rfl⟩⟩
      rcases listing_of_store hstore with ⟨listed, hlisting, -⟩ | ⟨fault, hlisting⟩
      · exact absurd hnone ((exists_listing_iff hstore htable).1 ⟨_, hlisting⟩ _ hsource)
      · rw [generate_of_store hvalue hstore, Store.resolveAll, hlisting]
        exact ⟨fault, rfl⟩
  | output hvalue hstore hlisting hdone houtput hmeets =>
      obtain ⟨fault, hfault⟩ := exists_fault_iff.2 hmeets
      rw [generate_of_store hvalue hstore, Store.resolveAll, hlisting, ok_bind,
        Store.resolve_eq_error_iff.2 ⟨_, _, _, rfl, hdone, .resolving houtput hfault⟩]
      exact ⟨fault, rfl⟩
  | record hvalue hstore hlisting hdocs hentry hmixes =>
      rw [generate_of_store hvalue hstore, Store.resolveAll, hlisting, ok_bind, hdocs, ok_bind]
      exact ⟨_, sorted_of_mixes (by decide) (mixes_docs_iff.2 ⟨_, hentry, hmixes⟩) _⟩

theorem isHandled_generate (r : Request) : IsHandled (generate r) where
  answers := by
    intro response h
    obtain ⟨fields, -, h⟩ := bind_eq_ok_iff.1 h
    obtain ⟨store, -, h⟩ := bind_eq_ok_iff.1 h
    obtain ⟨docs, -, h⟩ := bind_eq_ok_iff.1 h
    exact .inl (status_sorted h)
  reports := by
    intro p h
    rcases generate_eq_error h with ⟨q, hq, hartifact⟩ | ⟨-, fault, hfault⟩
    · rwa [Failure.problem.inj hq]
    · cases hfault

theorem breaksGenerate_iff : (∃ fault, generate r = .error (.fault fault)) ↔ BreaksGenerate r := by
  constructor
  · rintro ⟨fault, h⟩
    rcases generate_eq_error h with ⟨p, hp, -⟩ | ⟨hbreaks, -⟩
    · cases hp
    · exact hbreaks
  · exact BreaksGenerate.exists_fault

/-! ### The statuses -/

mutual

/-- The texts that stand in a value. -/
def textsIn : Json → List String
  | .str s => [s]
  | .arr vs => textsInItems vs
  | .obj fields => textsInFields fields
  | .null | .bool _ | .int _ | .float _ => []

def textsInItems : List Json → List String
  | [] => []
  | v :: rest => textsIn v ++ textsInItems rest

def textsInFields : List (Json.Key × Json) → List String
  | [] => []
  | (_, v) :: rest => textsIn v ++ textsInFields rest

end

/-- A body in whose texts no half of a pair of units stands on its own, nor in what they hold as
JSON. -/
def Request.IsWhole (r : Request) : Prop :=
  ∀ v : Json Utf16, r.value = .ok (some v) → ∃ w : Json, v = w.wide ∧
    ∀ text ∈ textsIn w, ∀ held : Json Utf16, Json.read text = .ok held → ∃ u : Json, held = u.wide

theorem Posts.isWhole (h : Posts r path fields)
    (htexts : ∀ text ∈ textsInFields fields, ∀ held : Json Utf16,
      Json.read text = .ok held → ∃ u : Json, held = u.wide) : r.IsWhole := by
  intro v hv
  obtain rfl := Option.some.inj (Except.ok.inj (h.wide.symm.trans hv))
  exact ⟨_, rfl, htexts⟩

/-- Any posted body of a size that is read is answered as a success, as a client error or as an
internal error, and each error tells what it is. An internal error is the answer just when something
in the body has a shape that a pass over it cannot work on and does not report. A larger body is
refused as such, whatever it holds.

The passes are over strings, in which half a pair of units cannot stand on its own. Which bodies end
in an internal error is therefore said of those in which none does. -/
theorem status_of_reaches (r : Request) :
    (Reaches r "/api/resolve" → ∃ response, Answers r response ∧
      (r.isTooLarge = true → response.Tells 413 tooLargeError) ∧
      (r.isTooLarge = false → response.IsAnswer ∧
        (r.IsWhole → (response.status = 500 ↔ BreaksResolve r)))) ∧
    (Reaches r "/api/generate" → ∃ response, Answers r response ∧
      (r.isTooLarge = true → response.Tells 413 tooLargeError) ∧
      (r.isTooLarge = false → response.IsAnswer ∧
        (r.IsWhole → (response.status = 500 ↔ BreaksGenerate r)))) := by
  constructor
  · intro h
    obtain ⟨hanswer, hstatus⟩ := (isHandled_resolve r).isAnswer
    refine ⟨_, h.answers_resolve, tells_of_tooLarge _, fun hfits => ?_⟩
    rw [answerBody_of_fits hfits]
    exact ⟨hanswer, fun _ => hstatus.trans breaksResolve_iff⟩
  · intro h
    obtain ⟨hanswer, hstatus⟩ := (isHandled_generate r).isAnswer
    refine ⟨_, h.answers_generate, tells_of_tooLarge _, fun hfits => ?_⟩
    rw [answerBody_of_fits hfits]
    exact ⟨hanswer, fun _ => hstatus.trans breaksGenerate_iff⟩

def withAbi (abi : Json) : Fields :=
  [("contract", .str "a.sol:A"), ("output", .obj [("abi", abi)])]

theorem posts_withAbi {abi : Json} (h : abi.Standard) (hdepth : abi.depth ≤ 986)
    (hfits : (posting "/api/resolve" "" (withAbi abi)).isTooLarge = false) :
    Posts (posting "/api/resolve" "" (withAbi abi)) "/api/resolve" (withAbi abi) := by
  have houtput : (Json.obj [("abi", abi)]).Standard := .obj ⟨["abi"], by decide, rfl⟩ (by simpa)
  refine posts_posting (.obj ⟨["contract", "output"], by decide, rfl⟩
    (by simp [withAbi, houtput, Json.Valid.str])) ?_ hfits
  have hfields : (Json.obj [("abi", abi)]).depth ≤ 986 + 1 :=
    Json.depth_obj_le_iff.2 (by simpa using hdepth)
  refine (Json.depth_obj_le_iff.2 ?_ : _ ≤ (986 + 1) + 1).trans (by decide)
  simp only [withAbi, List.forall_mem_cons, List.not_mem_nil, false_implies, implies_true, and_true]
  exact ⟨Nat.zero_le _, hfields⟩

/-- A document whose source has a truth value in place of its contracts. -/
def flagSource : Fields :=
  [("output", .obj [("contracts", .obj [("a.sol", .bool true)])])]

theorem posts_flagSource :
    Posts (posting "/api/generate" "" flagSource) "/api/generate" flagSource := by
  have htable : (Json.obj [("a.sol", .bool true)]).Standard :=
    .obj ⟨["a.sol"], by decide, rfl⟩ (by simp [Json.Valid.bool])
  have hcontracts : (Json.obj [("contracts", .obj [("a.sol", .bool true)])]).Standard :=
    .obj ⟨["contracts"], by decide, rfl⟩ (by simpa)
  exact posts_posting (.obj ⟨["output"], by decide, rfl⟩ (by simpa [flagSource])) (by decide)
    (isTooLarge_posting _ _ (by decide +kernel))

/-- An empty ABI is answered, and a source that is no table is an internal error. -/
theorem status_of_reaches_sample :
    (∃ response, Answers (posting "/api/resolve" "" (withAbi (.arr []))) response ∧
      response.IsAnswer ∧ response.status ≠ 500) ∧
    ∃ response, Answers (posting "/api/generate" "" flagSource) response ∧
      response.IsAnswer ∧ response.status = 500 := by
  constructor
  · have hposts : Posts _ "/api/resolve" (withAbi (.arr [])) :=
      posts_withAbi (.arr (by simp)) (by decide) (isTooLarge_posting _ _ (by decide +kernel))
    obtain ⟨response, hanswers, -, hread⟩ := (status_of_reaches _).1 hposts.reaches
    obtain ⟨hanswer, hstatus⟩ := hread hposts.fits
    have hwhole : (posting "/api/resolve" "" (withAbi (.arr []))).IsWhole := by
      refine hposts.isWhole fun text htext held hheld => ?_
      obtain rfl : text = "a.sol:A" := List.mem_singleton.1 htext
      have hrefused : (Json.read (τ := Utf16) "a.sol:A").toBool = false := by decide +kernel
      rw [hheld] at hrefused
      cases hrefused
    refine ⟨response, hanswers, hanswer, (hstatus hwhole).not.2 fun hbreaks => ?_⟩
    have hstandard : emptyDoc.toJson.Standard := isStandard_twoSources.records _ List.mem_cons_self
    obtain ⟨w, hw⟩ := Json.exists_sorted? hstandard
    have hdoc : resolveContract "a.sol:A" (.obj [("abi", .arr [])]) false = .ok emptyDoc := by rfl
    have hname : "contract" < "success" := by decide
    have hresolved := (resolve_of_asks ⟨_, hposts, rfl, rfl, rfl⟩ hdoc).trans
      ((sorted_success_eq_ok_iff hname).2 ⟨w, hw, rfl⟩)
    obtain ⟨fault, hfault⟩ := breaksResolve_iff.2 hbreaks
    rw [hresolved] at hfault
    cases hfault
  · have hbreaks : BreaksGenerate (posting "/api/generate" "" flagSource) :=
      .source posts_flagSource.value rfl List.mem_cons_self rfl
    obtain ⟨response, hanswers, -, hread⟩ := (status_of_reaches _).2 posts_flagSource.reaches
    obtain ⟨hanswer, hstatus⟩ := hread posts_flagSource.fits
    have hwhole := posts_flagSource.isWhole fun text htext => absurd htext List.not_mem_nil
    exact ⟨response, hanswers, hanswer, (hstatus hwhole).2 hbreaks⟩

/-- An ABI that is a truth value is not reported, but an internal error. -/
theorem internal_error_of_flag_abi :
    ∃ response, Posts (posting "/api/resolve" "" (withAbi (.bool true))) "/api/resolve"
        (withAbi (.bool true)) ∧
      Answers (posting "/api/resolve" "" (withAbi (.bool true))) response ∧
      response.Tells 500 (.obj [("error", .str "Internal server error")]) := by
  have hposts : Posts _ "/api/resolve" (withAbi (.bool true)) :=
    posts_withAbi (.bool true) (by decide) (isTooLarge_posting _ _ (by decide +kernel))
  have hfault : resolveContract "a.sol:A" (.obj [("abi", .bool true)]) false =
      .error (.fault .wrongKind) := by rfl
  have hresolve : resolve (posting "/api/resolve" "" (withAbi (.bool true))) =
      .error (.fault .wrongKind) :=
    (resolve_of_output hposts.value rfl rfl).trans (bind_eq_error_iff.2 (.inl hfault))
  refine ⟨_, hposts, answers_resolve hposts, ?_⟩
  rw [hresolve]
  exact Response.tells_error 500 _

end NatSpec.Service
