import NatSpec.Proofs.Bundle.Write
import NatSpec.Proofs.Store

/-!
What a run does before it writes: the output directory is chosen, a store is opened and listed, and
all listed contracts are resolved. Whatever is refused on the way ends the run and leaves the file
tree as it was. A run that gets as far as writing has resolved all contracts, and fails from there
on for reasons of its bundle.
-/

namespace NatSpec

/-- The output path that options give, if they give one. -/
def Options.outputPath (o : Options) : Except Fault (Option String) :=
  if o.path.isNull then .ok none else do .ok (some (← pathText o.path))

/-- The resolved root of a run and the output directory that was accepted for it. -/
structure Chosen (t : FileTree) (root : Path) (options : Options) (rootPlace output : Location) :
    Prop where
  root : t.resolve root = .ok rootPlace
  output : ∃ path, options.outputPath = .ok path ∧
    outputDirectory t (.ofTop rootPlace) path = .ok output

/-- A run that has chosen its output directory, and opened and listed its store. -/
structure Listed (t : FileTree) (root : Path) (options : Options) (store : Option Store)
    (output : Location) (opened : Store) (listing : Listing) : Prop where
  chosen : ∃ rootPlace, Chosen t root options rootPlace output ∧
    openStore t rootPlace options store = .ok opened
  listing : opened.listing = .ok listing

/-- Why a run ends before it writes. -/
inductive Stops (t : FileTree) (root : Path) (options : Options) (store : Option Store)
    (strict : Bool) : Failure → Prop
  /-- The root cannot be resolved. -/
  | root {f : Fault} : t.resolve root = .error f → Stops t root options store strict (.fault f)
  /-- The options give no text for the output path. -/
  | path {rootPlace : Location} {f : Fault} : t.resolve root = .ok rootPlace →
      options.outputPath = .error f → Stops t root options store strict (.fault f)
  /-- The output directory is refused. -/
  | output {rootPlace : Location} {path : Option String} {f : Failure} :
      t.resolve root = .ok rootPlace → options.outputPath = .ok path →
      outputDirectory t (.ofTop rootPlace) path = .error f → Stops t root options store strict f
  /-- The store cannot be opened. -/
  | opening {rootPlace output : Location} {f : Failure} :
      Chosen t root options rootPlace output → openStore t rootPlace options store = .error f →
      Stops t root options store strict f
  /-- The store cannot be listed. -/
  | listing {rootPlace output : Location} {opened : Store} {f : Failure} :
      Chosen t root options rootPlace output → openStore t rootPlace options store = .ok opened →
      opened.listing = .error f → Stops t root options store strict f
  /-- A contract, the first such one, cannot be fetched or resolved. -/
  | contract {output : Location} {opened : Store} {listing : Listing} {done rest : List String}
      {name : String} {f : Failure} : Listed t root options store output opened listing →
      listing.names = done ++ name :: rest → (∀ n ∈ done, opened.Resolves strict n) →
      opened.Refuses strict name f → Stops t root options store strict f

/-- The part of a run that writes. -/
def writeOut (options : Options) (render : RenderOptions) (p : Plan) : Run (List Path) := do
  if options.clear.truthy then clearOutput p.output
  Bundle.render p.docs p.output render

variable {t : FileTree} {root : Path} {options : Options} {store : Option Store} {strict : Bool}

theorem plan_eq : plan t root options store strict = (do
    let rootPlace ← t.resolve root
    let path ← options.outputPath
    let output ← outputDirectory t (.ofTop rootPlace) path
    let opened ← openStore t rootPlace options store
    let listing ← opened.listing
    let docs ← opened.resolve strict listing.names
    .ok ⟨.ofTop output, docs, listing.warnings ++ docs.warnings⟩) := by
  unfold plan Options.outputPath
  cases options.path.isNull with
  | true => rfl
  | false =>
      cases pathText options.path with
      | error f => rfl
      | ok s => rfl

theorem plan_eq_error_iff {f : Failure} :
    plan t root options store strict = .error f ↔ Stops t root options store strict f := by
  rw [plan_eq]
  constructor
  · intro h
    rcases bind_eq_error_iff.1 h with h | ⟨rootPlace, hroot, h⟩
    · obtain ⟨fault, hfault, rfl⟩ := liftM_eq_error_iff.1 h
      exact .root hfault
    rw [liftM_eq_ok_iff] at hroot
    rcases bind_eq_error_iff.1 h with h | ⟨path, hpath, h⟩
    · obtain ⟨fault, hfault, rfl⟩ := liftM_eq_error_iff.1 h
      exact .path hroot hfault
    rw [liftM_eq_ok_iff] at hpath
    rcases bind_eq_error_iff.1 h with h | ⟨output, houtput, h⟩
    · exact .output hroot hpath h
    have hchosen : Chosen t root options rootPlace output := ⟨hroot, path, hpath, houtput⟩
    rcases bind_eq_error_iff.1 h with h | ⟨opened, hopened, h⟩
    · exact .opening hchosen h
    rcases bind_eq_error_iff.1 h with h | ⟨listing, hlisting, h⟩
    · exact .listing hchosen hopened h
    rcases bind_eq_error_iff.1 h with h | ⟨docs, -, ⟨⟩⟩
    obtain ⟨done, name, rest, hnames, hdone, hname⟩ := Store.resolve_eq_error_iff.1 h
    exact .contract ⟨⟨rootPlace, hchosen, hopened⟩, hlisting⟩ hnames hdone hname
  · intro h
    cases h with
    | root h => rw [h]; rfl
    | path hroot h => rw [hroot, h]; rfl
    | output hroot hpath h => rw [hroot, hpath, liftM_ok, ok_bind, liftM_ok, ok_bind, h]; rfl
    | opening hchosen h =>
        obtain ⟨hroot, path, hpath, houtput⟩ := hchosen
        rw [hroot, hpath, liftM_ok, ok_bind, liftM_ok, ok_bind, houtput, ok_bind, h]
        rfl
    | listing hchosen hopened h =>
        obtain ⟨hroot, path, hpath, houtput⟩ := hchosen
        rw [hroot, hpath, liftM_ok, ok_bind, liftM_ok, ok_bind, houtput, ok_bind, hopened, ok_bind,
          h]
        rfl
    | contract hlisted hnames hdone h =>
        obtain ⟨⟨rootPlace, ⟨hroot, path, hpath, houtput⟩, hopened⟩, hlisting⟩ := hlisted
        have hresolve := Store.resolve_eq_error_iff.2 ⟨_, _, _, hnames, hdone, h⟩
        rw [hroot, hpath, liftM_ok, ok_bind, liftM_ok, ok_bind, houtput, ok_bind, hopened, ok_bind,
          hlisting, ok_bind, hresolve]
        rfl

/-- A run that has resolved all listed contracts has a plan. -/
theorem plan_of_listed {output : Location} {opened : Store} {listing : Listing} {docs : Docs}
    (h : Listed t root options store output opened listing)
    (hdocs : opened.resolve strict listing.names = .ok docs) :
    plan t root options store strict =
      .ok ⟨.ofTop output, docs, listing.warnings ++ docs.warnings⟩ := by
  obtain ⟨⟨rootPlace, ⟨hroot, path, hpath, houtput⟩, hopened⟩, hlisting⟩ := h
  rw [plan_eq, hroot, hpath, liftM_ok, ok_bind, liftM_ok, ok_bind, houtput, ok_bind, hopened,
    ok_bind, hlisting, ok_bind, hdocs, ok_bind]

/-- What stands behind a plan. -/
theorem exists_of_plan {p : Plan} (h : plan t root options store strict = .ok p) :
    ∃ output opened listing, Listed t root options store output opened listing ∧
      p.output = .ofTop output ∧ opened.resolve strict listing.names = .ok p.docs ∧
      p.warnings = listing.warnings ++ p.docs.warnings := by
  rw [plan_eq] at h
  obtain ⟨rootPlace, hroot, h⟩ := bind_eq_ok_iff.1 h
  obtain ⟨path, hpath, h⟩ := bind_eq_ok_iff.1 h
  obtain ⟨output, houtput, h⟩ := bind_eq_ok_iff.1 h
  obtain ⟨opened, hopened, h⟩ := bind_eq_ok_iff.1 h
  obtain ⟨listing, hlisting, h⟩ := bind_eq_ok_iff.1 h
  obtain ⟨docs, hdocs, h⟩ := bind_eq_ok_iff.1 h
  rw [liftM_eq_ok_iff] at hroot hpath
  obtain rfl := Except.ok.inj h
  exact ⟨output, opened, listing, ⟨⟨rootPlace, ⟨hroot, path, hpath, houtput⟩, hopened⟩, hlisting⟩,
    rfl, hdocs, rfl⟩

variable {render : RenderOptions}

theorem runDocgen_of_plan {p : Plan} (h : plan t root options store strict = .ok p) :
    runDocgen root options store render strict t =
      (do return ⟨p.output, p.docs, ← writeOut options render p, p.warnings⟩ : Run Report) t := by
  have hplan : (liftM (plan t root options store strict) : Run Plan) t = (.ok p, t) := by
    rw [h]
    rfl
  unfold runDocgen writeOut
  rw [bind_apply_of_ok _ getRun_apply, bind_apply_of_ok _ hplan]
  cases options.clear.truthy with
  | true => simp
  | false => simp

theorem runDocgen_of_stops (render : RenderOptions) {f : Failure}
    (h : Stops t root options store strict f) :
    runDocgen root options store render strict t = (.error f, t) := by
  have hplan : (liftM (plan t root options store strict) : Run Plan) t = (.error f, t) := by
    rw [plan_eq_error_iff.2 h]
    rfl
  unfold runDocgen
  rw [bind_apply_of_ok _ getRun_apply, bind_apply_of_error _ hplan]

/-- A run that has a plan leaves what writing leaves, and fails as writing fails. -/
theorem runDocgen_eq_writeOut (render : RenderOptions) {p : Plan}
    (h : plan t root options store strict = .ok p) :
    (runDocgen root options store render strict t).2 = (writeOut options render p t).2 ∧
      ∀ f, (runDocgen root options store render strict t).1 = .error f ↔
        (writeOut options render p t).1 = .error f := by
  rw [runDocgen_of_plan h]
  obtain ⟨result, t', hwrite⟩ : ∃ result t', writeOut options render p t = (result, t') :=
    ⟨_, _, rfl⟩
  cases result with
  | error e =>
      rw [bind_apply_of_error _ hwrite, hwrite]
      simp
  | ok written =>
      rw [bind_apply_of_ok _ hwrite, hwrite, pure_apply]
      simp

theorem writeOut_eq (options : Options) (render : RenderOptions) (p : Plan) :
    writeOut options render p =
      (if options.clear.truthy then clearOutput p.output else pure ()) >>= fun _ =>
        Bundle.render p.docs p.output render := by
  unfold writeOut
  cases options.clear.truthy with
  | true => simp
  | false => simp

theorem failsBy_writeOut (options : Options) (render : RenderOptions) (p : Plan) :
    FailsBy Failure.OfWriting (writeOut options render p) := by
  rw [writeOut_eq]
  refine .bind ?_ fun _ => Bundle.failsBy_render _ _ _
  split
  · exact failsBy_clearOutput _
  · exact .pure _

/-- Whatever ends a run before it writes leaves the file tree as it was. Every other run has chosen
its output directory, opened and listed its store and resolved all listed contracts, and changes the
tree only by writing; if it fails then with a problem of the bundle, or by a fault. -/
theorem runDocgen_before_writing (t : FileTree) (root : Path) (options : Options)
    (store : Option Store) (render : RenderOptions) (strict : Bool) :
    (∀ f, Stops t root options store strict f →
      runDocgen root options store render strict t = (.error f, t)) ∧
    ((∃ f, Stops t root options store strict f) ∨
      ∃ output opened listing p, Listed t root options store output opened listing ∧
        (∀ name ∈ listing.names, opened.Resolves strict name) ∧ p.output = .ofTop output ∧
        opened.resolve strict listing.names = .ok p.docs ∧
        (runDocgen root options store render strict t).2 = (writeOut options render p t).2) ∧
    (∀ p t', runDocgen root options store render strict t = (.error (.problem p), t') →
      p.kind ≠ .bundle → t' = t) := by
  refine ⟨fun f => runDocgen_of_stops render, ?_, ?_⟩
  · cases hplan : plan t root options store strict with
    | error f => exact .inl ⟨f, plan_eq_error_iff.1 hplan⟩
    | ok p =>
        obtain ⟨output, opened, listing, hlisted, houtput, hdocs, -⟩ := exists_of_plan hplan
        exact .inr ⟨output, opened, listing, p, hlisted, fun _ => Store.resolves_of_resolve hdocs,
          houtput, hdocs, (runDocgen_eq_writeOut render hplan).1⟩
  · intro p t' hrun hkind
    cases hplan : plan t root options store strict with
    | error f =>
        rw [runDocgen_of_stops render (plan_eq_error_iff.1 hplan)] at hrun
        exact (Prod.mk.inj hrun).2.symm
    | ok made =>
        obtain ⟨-, herror⟩ := runDocgen_eq_writeOut render hplan
        have hfails := (herror (.problem p)).1 (congrArg Prod.fst hrun)
        exact absurd (failsBy_writeOut options render made t _ _ (Prod.ext hfails rfl) p rfl) hkind

end NatSpec
