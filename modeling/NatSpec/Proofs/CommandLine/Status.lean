import NatSpec.CommandLine.Run
import NatSpec.Json.Equality
import NatSpec.Proofs.CompilerInput
import NatSpec.Proofs.ProjectFile

/-!
The status of the program where its two input files decide it. The main statement covers every
content of a project's file and of a compiler input: a content is used, or is reported as a problem
of configuration and gives the status one, or it is one of the unusable contents, which end the
program without a status.
-/

namespace NatSpec.CommandLine

variable {α : Type}

theorem liftRun_apply (x : Run α) (c : Console) :
    (liftM x : Talking α) c = ((x c.tree).1, { c with tree := (x c.tree).2 }) := rfl

theorem getConsole_apply (c : Console) : (getThe Console : Talking Console) c = (.ok c, c) := rfl

/-- Talking never fails. -/
theorem exists_log (l : Loudness) (message : String) (c : Console) :
    ∃ c', log l message c = (.ok (), c') := by
  unfold log
  cases l.quiet with
  | true => exact ⟨_, rfl⟩
  | false => exact ⟨_, rfl⟩

/-- Preparing a compiler input succeeds or fails as patching it does. -/
theorem perform_prepareInput (input : String) (l : Loudness) (c : Console) :
    (perform (.prepareInput input l) c).1 =
      (CompilerInput.patch (Path.ofString input) c.tree).1.map fun _ => () := by
  obtain ⟨result, t', hpatch⟩ : ∃ result t',
      CompilerInput.patch (Path.ofString input) c.tree = (result, t') := ⟨_, _, rfl⟩
  have hlift : (liftM (CompilerInput.patch (Path.ofString input)) : Talking (Json Utf16)) c =
      (result, { c with tree := t' }) := by
    rw [liftRun_apply, hpatch]
  rw [hpatch]
  cases result with
  | error failure =>
      rw [perform, bind_apply_of_error _ hlift]
      rfl
  | ok patched =>
      obtain ⟨c', hlog⟩ := exists_log l ("Requested devdoc/userdoc in " ++ input)
        { c with tree := t' }
      rw [perform, bind_apply_of_ok _ hlift, hlog]
      rfl

/-- The root of the project that an invocation works on. -/
def Invocation.root? : Invocation → Option String
  | .docgen root .. | .compile root .. => some root
  | .prepareInput .. => none

/-- An invocation on a project reads its options first and fails as that does. -/
theorem perform_of_load_error {invocation : Invocation} {root : String} {place : Path}
    {c : Console} {failure : Failure} (hroot : invocation.root? = some root)
    (hplace : resolvedRoot root c.tree = (.ok place, c.tree))
    (hload : ProjectFile.load c.tree place = .error failure) :
    (perform invocation c).1 = .error failure := by
  have hlift : (liftM (resolvedRoot root) : Talking Path) c = (.ok place, c) := by
    rw [liftRun_apply, hplace]
  have hoptions {α : Type} (f : Options → Talking α) :
      ((do
        let c ← getThe Console
        let options ← (ProjectFile.load c.tree place : Except Failure Options)
        f options : Talking α) c).1 = .error failure := by
    rw [bind_apply_of_ok _ (getConsole_apply c), hload]
    rfl
  cases invocation with
  | docgen =>
      obtain rfl := Option.some.inj hroot
      rw [perform, bind_apply_of_ok _ hlift]
      exact hoptions _
  | compile =>
      obtain rfl := Option.some.inj hroot
      rw [perform, bind_apply_of_ok _ hlift]
      exact hoptions _
  | prepareInput => cases hroot

/-- The status of a run that ends in a way. -/
def statusOf : Except Failure Unit → Option Nat
  | .ok _ => some 0
  | .error (.problem _) => some 1
  | .error (.fault _) => none

theorem status_run {args : List String} {invocation : Invocation}
    (h : Invocation.ofArguments args = .ok invocation) (t : FileTree) :
    (run args t).status = statusOf (perform invocation ⟨t, []⟩).1 := by
  unfold run
  rw [h]
  obtain ⟨result, c, hperform⟩ : ∃ result c, perform invocation ⟨t, []⟩ = (result, c) := ⟨_, _, rfl⟩
  simp only [hperform]
  rcases result with (p | f) | _ <;> rfl

/-- Every content of the two files is used, is reported as a problem of configuration, or is one of
the unusable contents. Only the last end the program without a status. -/
theorem status_of_user_files (t : FileTree) (content : ByteArray) :
    (∀ root : Path, t.readBytes (root / ProjectFile.fileName) = .ok content →
        ((∃ fault, ProjectFile.load t root = .error (.fault fault)) ↔
          ProjectFile.Unusable content) ∧
        ∀ p, ProjectFile.load t root = .error (.problem p) → p.kind = .configuration) ∧
    (∀ input : Path, t.readBytes input = .ok content →
        ((∃ fault, (CompilerInput.patch input t).1 = .error (.fault fault)) ↔
          CompilerInput.Unusable content) ∧
        ∀ p, (CompilerInput.patch input t).1 = .error (.problem p) → p.kind = .configuration) ∧
    (∀ (args : List String) (input : String) (l : Loudness),
      Invocation.ofArguments args = .ok (.prepareInput input l) →
      t.readBytes (Path.ofString input) = .ok content →
        ((run args t).status = none ↔ CompilerInput.Unusable content) ∧
        (¬CompilerInput.Unusable content →
          (run args t).status = some 0 ∨ (run args t).status = some 1)) ∧
    ∀ (args : List String) (invocation : Invocation) (root : String) (place : Path),
      Invocation.ofArguments args = .ok invocation → invocation.root? = some root →
      resolvedRoot root t = (.ok place, t) →
      t.readBytes (place / ProjectFile.fileName) = .ok content →
        (ProjectFile.Unusable content → (run args t).status = none) ∧
        ∀ p, ProjectFile.load t place = .error (.problem p) → (run args t).status = some 1 := by
  refine ⟨fun root h => ⟨ProjectFile.load_fault_iff h, fun p =>
      ProjectFile.configuration_of_load⟩,
    fun input h => ⟨CompilerInput.patch_fault_iff h, fun p =>
      CompilerInput.configuration_of_patch⟩, ?_, ?_⟩
  · intro args input l hargs h
    have hperform := perform_prepareInput input l ⟨t, []⟩
    have hfault := CompilerInput.patch_fault_iff h
    rw [status_run hargs, hperform]
    obtain ⟨result, hpatch⟩ :
        ∃ result, (CompilerInput.patch (Path.ofString input) t).1 = result := ⟨_, rfl⟩
    rw [hpatch] at hfault ⊢
    rw [← hfault]
    rcases result with (p | f) | v
    · simp [Except.map, statusOf]
    · simp [Except.map, statusOf]
    · simp [Except.map, statusOf]
  · intro args invocation root place hargs hroot hplace h
    have hstatus (failure : Failure) (hload : ProjectFile.load t place = .error failure) :
        (run args t).status = statusOf (.error failure) := by
      rw [status_run hargs, perform_of_load_error (c := ⟨t, []⟩) hroot hplace hload]
    refine ⟨fun hunusable => ?_, fun p hload => hstatus _ hload⟩
    obtain ⟨fault, hload⟩ := (ProjectFile.load_fault_iff h).2 hunusable
    exact hstatus _ hload

/-- A directory with a project's file and a compiler input. -/
def userFiles (project input : ByteArray) : FileTree :=
  ⟨[], [(["pyproject.toml"], .file project), (["input.json"], .file input)]⟩

theorem readBytes_project (project input : ByteArray) :
    (userFiles project input).readBytes (Path.ofTop [] / ProjectFile.fileName) = .ok project := by
  have hpath : Path.ofTop [] / ProjectFile.fileName = .ofTop ["pyproject.toml"] := by decide +kernel
  have hlocate : (userFiles project input).locate true (.ofTop ["pyproject.toml"]) =
      .ok (["pyproject.toml"], some (.file project)) := by
    rw [FileTree.locate, if_neg (by decide)]
    exact FileTree.walk_file (by decide) (by decide) (by decide) rfl
  rw [hpath]
  exact FileTree.readBytes_of_locate (by decide) hlocate

theorem readBytes_input (project input : ByteArray) :
    (userFiles project input).readBytes (Path.ofString "input.json") = .ok input := by
  have hlocate : (userFiles project input).locate true (Path.ofString "input.json") =
      .ok (["input.json"], some (.file input)) := by
    rw [FileTree.locate, if_neg (by decide)]
    exact FileTree.walk_file (by decide) (by decide) (by decide) rfl
  exact FileTree.readBytes_of_locate (by decide) hlocate

theorem resolvedRoot_here (project input : ByteArray) :
    resolvedRoot "." (userFiles project input) = (.ok (Path.ofTop []), userFiles project input) := by
  have hparts : (Path.ofString ".").parts = [] := by decide
  have hfollow : Path.normalize [] ((userFiles project input).follow
      (userFiles project input).linkCount [] ((userFiles project input).startOf (.ofString "."))
      (Path.ofString ".").parts).place = [] := by
    rw [hparts, FileTree.follow]
    rfl
  have hlocate : (userFiles project input).locate true (.ofTop []) =
      .ok ([], some .directory) := by
    rw [FileTree.locate, if_neg (by decide)]
    change FileTree.walk _ true _ [] [] = _
    rw [FileTree.walk]
  have hresolve := FileTree.resolve_of_locate (by decide +kernel) hfollow hlocate
  rw [resolvedRoot, bind_apply_of_ok _ getRun_apply, hresolve]
  rfl

theorem ofArguments_docgen : Invocation.ofArguments ["docgen"] =
    .ok (.docgen "." ⟨false, false⟩ none false none false) := by
  decide +kernel

theorem ofArguments_prepareInput : Invocation.ofArguments ["prepare-input", "input.json"] =
    .ok (.prepareInput "input.json" ⟨false, false⟩) := by
  decide +kernel

/-- An unknown option is reported, and so is a compiler input that is no object. -/
theorem status_of_user_files_sample :
    (run ["docgen"] (userFiles "tool.soldocgen.colour = 1".toUTF8 ByteArray.empty)).status =
      some 1 ∧
    ((run ["prepare-input", "input.json"] (userFiles ByteArray.empty "[]".toUTF8)).status = some 0 ∨
      (run ["prepare-input", "input.json"] (userFiles ByteArray.empty "[]".toUTF8)).status =
        some 1) := by
  constructor
  · have hbytes := readBytes_project "tool.soldocgen.colour = 1".toUTF8 ByteArray.empty
    obtain ⟨-, -, -, hproject⟩ := status_of_user_files
      (userFiles "tool.soldocgen.colour = 1".toUTF8 ByteArray.empty)
      "tool.soldocgen.colour = 1".toUTF8
    refine (hproject _ _ _ _ ofArguments_docgen rfl (resolvedRoot_here _ _) hbytes).2
      (.unknownOption "colour") ?_
    rw [ProjectFile.load_of_readBytes hbytes]
    decide +kernel
  · obtain ⟨-, -, hinput, -⟩ := status_of_user_files (userFiles ByteArray.empty "[]".toUTF8)
      "[]".toUTF8
    refine (hinput _ _ _ ofArguments_prepareInput
      (readBytes_input ByteArray.empty "[]".toUTF8)).2 fun hunusable => ?_
    have htext : String.fromUTF8? "[]".toUTF8 = some "[]" := by decide +kernel
    have hread : Json.read (Text.withLineFeeds "[]") = .ok (.arr [] : Json Utf16) := by decide +kernel
    rcases hunusable with hnone | ⟨hsome, hfail⟩ | ⟨hsome, hfail⟩ | ⟨⟨text, hsome, hobj⟩, -⟩
    · rw [htext] at hnone
      cases hnone
    · obtain rfl := Option.some.inj (htext.symm.trans hsome)
      rw [hread] at hfail
      cases hfail
    · obtain rfl := Option.some.inj (htext.symm.trans hsome)
      rw [hread] at hfail
      cases hfail
    · obtain rfl := Option.some.inj (htext.symm.trans hsome)
      rw [hread] at hobj
      cases hobj

/-- Bytes that are not UTF-8 end the program without a status, in either file. -/
theorem status_of_undecodable_files :
    ProjectFile.load (userFiles ⟨#[0xff]⟩ ⟨#[0xff]⟩) (.ofTop []) = .error (.fault .undecodable) ∧
    (run ["docgen"] (userFiles ⟨#[0xff]⟩ ⟨#[0xff]⟩)).status = none ∧
    (CompilerInput.patch (.ofString "input.json") (userFiles ⟨#[0xff]⟩ ⟨#[0xff]⟩)).1 =
      .error (.fault .undecodable) ∧
    (run ["prepare-input", "input.json"] (userFiles ⟨#[0xff]⟩ ⟨#[0xff]⟩)).status = none := by
  have htext : String.fromUTF8? ⟨#[0xff]⟩ = none := by decide +kernel
  have hload : ProjectFile.load (userFiles ⟨#[0xff]⟩ ⟨#[0xff]⟩) (Path.ofTop []) =
      .error (.fault .undecodable) := by
    rw [ProjectFile.load_of_readBytes (readBytes_project _ _), htext]
  have hpatch : (CompilerInput.patch (.ofString "input.json")
      (userFiles ⟨#[0xff]⟩ ⟨#[0xff]⟩)).1 = .error (.fault .undecodable) := by
    rw [CompilerInput.patch_apply, FileTree.readValue_eq_of_readBytes (readBytes_input _ _),
      htext]
  refine ⟨hload, ?_, hpatch, ?_⟩
  · rw [status_run ofArguments_docgen,
      perform_of_load_error (c := ⟨userFiles ⟨#[0xff]⟩ ⟨#[0xff]⟩, []⟩) rfl (resolvedRoot_here _ _)
        hload]
    rfl
  · have hperform := perform_prepareInput "input.json" ⟨false, false⟩
      ⟨userFiles ⟨#[0xff]⟩ ⟨#[0xff]⟩, []⟩
    rw [status_run ofArguments_prepareInput, hperform, hpatch]
    rfl

end NatSpec.CommandLine
