import NatSpec.Proofs.Bundle.Frame
import NatSpec.Proofs.Docgen.Plan
import NatSpec.Proofs.FileTree.Read

/-!
The frame of a run: what it leaves alone. In a tree of a file system in which no link leads back to
itself, the output directory of a run is reached without links and is strictly inside the root. The
run changes what is inside that directory, and makes it and those above it where they are missing;
everything else stays as it was, however the run ends and whatever links the old bundle holds. A
link that leads back to itself breaks this: where it stands in a path, the rest of the path is not
resolved.
-/

namespace NatSpec

open FileTree (Plain Dotless LoopFree Sound Within)

variable {t : FileTree} {options : Options} {store : Option Store} {render : RenderOptions}
  {strict : Bool} {output : Location}

/-! ### The output directory -/

/-- The check goes by the places of the root and of the output path. -/
theorem outputDirectory_of_resolve {root : Path} {path : Option String} {rootPlace : Location}
    (hroot : t.resolve root = .ok rootPlace)
    (hplace : t.resolve (Path.ofTop rootPlace / path.getD "./docgen") = .ok output) :
    outputDirectory t root path =
      if ¬rootPlace <+: output then .error (.problem .outputOutsideRoot)
      else if output = rootPlace then .error (.problem .outputIsRoot)
      else .ok output := by
  rw [outputDirectory, hroot, liftM_ok, ok_bind, hplace, liftM_ok, ok_bind, Bundle.isInside]
  by_cases hinside : rootPlace <+: output
  · rw [List.isPrefixOf_iff_prefix.2 hinside, if_neg (by simp), if_neg (not_not_intro hinside)]
    rfl
  · have hnot : rootPlace.isPrefixOf output = false :=
      Bool.eq_false_iff.2 fun h => hinside (List.isPrefixOf_iff_prefix.1 h)
    rw [hnot, if_pos (by simp), if_pos hinside]
    rfl

theorem outputDirectory_eq_ok {root : Path} {path : Option String}
    (h : outputDirectory t root path = .ok output) :
    ∃ rootPlace, t.resolve root = .ok rootPlace ∧
      t.resolve (Path.ofTop rootPlace / path.getD "./docgen") = .ok output ∧ rootPlace <+: output ∧
      output ≠ rootPlace := by
  have hcheck := h
  unfold outputDirectory at h
  obtain ⟨rootPlace, hroot, h⟩ := bind_eq_ok_iff.1 h
  obtain ⟨place, hplace, -⟩ := bind_eq_ok_iff.1 h
  rw [liftM_eq_ok_iff] at hroot hplace
  rw [outputDirectory_of_resolve hroot hplace] at hcheck
  split at hcheck
  · cases hcheck
  · rename_i hinside
    split at hcheck
    · cases hcheck
    · rename_i hne
      obtain rfl := Except.ok.inj hcheck
      exact ⟨rootPlace, hroot, hplace, not_not.1 hinside, hne⟩

/-- An output directory that was chosen is strictly inside the root, and no link leads out of it. -/
structure Confined (t : FileTree) (rootPlace output : Location) : Prop where
  inside : rootPlace <+: output
  ne_root : output ≠ rootPlace
  plain : t.Plain output
  dotless : Dotless output

theorem Confined.ne_top {rootPlace : Location} (h : Confined t rootPlace output) : output ≠ [] := by
  intro hnil
  have hinside := h.inside
  rw [hnil, List.prefix_nil] at hinside
  exact h.ne_root (hnil.trans hinside.symm)

theorem Chosen.unique {root : Path} {rootPlace rootPlace' output' : Location}
    (h : Chosen t root options rootPlace output) (h' : Chosen t root options rootPlace' output') :
    rootPlace = rootPlace' ∧ output = output' := by
  obtain ⟨path, hpath, houtput⟩ := h.output
  obtain ⟨path', hpath', houtput'⟩ := h'.output
  obtain rfl := Except.ok.inj (h.root.symm.trans h'.root)
  obtain rfl := Except.ok.inj (hpath.symm.trans hpath')
  exact ⟨rfl, Except.ok.inj (houtput.symm.trans houtput')⟩

/-- An output directory strictly inside the root is chosen. -/
theorem Chosen.of_resolve {root : Path} {path : Option String} {rootPlace : Location}
    (hroot : t.resolve root = .ok rootPlace) (hroot' : t.resolve (.ofTop rootPlace) = .ok rootPlace)
    (hpath : options.outputPath = .ok path)
    (houtput : t.resolve (Path.ofTop rootPlace / path.getD "./docgen") = .ok output)
    (hinside : rootPlace <+: output) (hne : output ≠ rootPlace) :
    Chosen t root options rootPlace output := by
  refine ⟨hroot, path, hpath, ?_⟩
  rw [outputDirectory_of_resolve hroot' houtput, if_neg (not_not_intro hinside), if_neg hne]

/-- Every path starts in a place that is reached without links. -/
theorem FileTree.Sound.startOf (hsound : t.Sound) (p : Path) :
    t.Plain (t.startOf p) ∧ Dotless (t.startOf p) := by
  unfold FileTree.startOf
  split
  · exact ⟨hsound.plain hsound.here nofun, hsound.dotless hsound.here⟩
  · exact ⟨FileTree.plain_nil, List.not_mem_nil, List.not_mem_nil⟩

theorem Chosen.confined (hsound : t.Sound) (hloop : t.LoopFree) {root : String}
    {rootPlace : Location} (h : Chosen t (.ofString root) options rootPlace output) :
    Confined t rootPlace output := by
  have hstart := hsound.startOf (.ofString root)
  have hrootPlain := hloop.plain_of_resolve hstart.1 hstart.2.noDots h.root
  have hrootDotless := FileTree.dotless_of_resolve h.root hstart.2.noDot (Path.noDot_ofString root)
  obtain ⟨path, -, houtput⟩ := h.output
  obtain ⟨rootPlace', hroot', hplace, hinside, hne⟩ := outputDirectory_eq_ok houtput
  obtain rfl := FileTree.resolve_of_plain hrootPlain hrootDotless.noDots hroot'
  have htop := Bundle.startOf_join_ofTop t rootPlace' (.ofString (path.getD "./docgen"))
  exact {
    inside := hinside
    ne_root := hne
    plain := hloop.plain_of_resolve (htop ▸ FileTree.plain_nil) (htop ▸ List.not_mem_nil) hplace
    dotless := FileTree.dotless_of_resolve hplace (htop ▸ List.not_mem_nil)
      (Path.noDot_div hrootDotless.noDot _) }

/-! ### Clearing -/

/-- The tree from which a bundle is written: without the old bundle if that is to be cleared. -/
def Options.cleared (options : Options) (t : FileTree) (output : Location) : FileTree :=
  if options.clear.truthy ∧ t.at? output = some .directory then t.remove output else t

/-- The failure that is reported when an output directory cannot be deleted. -/
def notCleared (p : Path) : Fault → Failure
  | .refused reason path => .problem (.notCleared p.toString (.refused reason path))
  | f => .fault f

theorem clearOutput_apply (p : Path) (t : FileTree) :
    clearOutput p t =
      match t.holds p, FileTree.deleteTree p t with
      | .error f, _ => (.error (.fault f), t)
      | .ok false, _ => (.ok (), t)
      | .ok true, (.ok _, t') => (.ok (), t')
      | .ok true, (.error f, t') => (.error (notCleared p f), t') := by
  unfold clearOutput
  rw [bind_apply_of_ok _ getRun_apply]
  rcases t.holds p with f | (_ | _)
  · rfl
  · rfl
  · change (tryCatch (liftM (FileTree.deleteTree p) : Run Unit) _) t = _
    obtain ⟨result, t', hdelete⟩ : ∃ result t', FileTree.deleteTree p t = (result, t') :=
      ⟨_, _, rfl⟩
    cases result with
    | ok a => rw [tryCatch_apply_of_ok _ (liftFiling_apply_of_ok hdelete), hdelete]
    | error f =>
        rw [tryCatch_apply_of_error _ (liftFiling_apply_of_error hdelete), hdelete]
        cases f <;> rfl

/-- Clearing is refused, or removes the output directory if there is one. Where there is one it
fails by a fault only. -/
theorem clearOutput_of_plain (hsound : t.Sound) (hplain : t.Plain output)
    (hdotless : Dotless output) (hne : output ≠ []) :
    (∃ f, clearOutput (.ofTop output) t = (.error f, t) ∧
        (t.at? output = some .directory → ∀ p, f ≠ .problem p)) ∨
      clearOutput (.ofTop output) t =
        (.ok (), if t.at? output = some .directory then t.remove output else t) := by
  rw [clearOutput_apply, FileTree.holds]
  by_cases hat : t.at? output = some .directory
  · have hlookup := hsound.lookup_eq hat nofun
    have hlocate := hsound.locate_eq true hat nofun
    rw [if_pos hat]
    split at hlookup
    · rw [hlookup]
      exact .inl ⟨_, rfl, fun _ => nofun⟩
    · rename_i hshort
      rw [if_neg hshort] at hlocate
      rw [hlookup, FileTree.deleteTree_of_directory hplain hdotless hne hlocate]
      exact .inr rfl
  · obtain ⟨f, hdelete⟩ := FileTree.deleteTree_of_ne_directory hplain hdotless hat
    rw [if_neg hat, hdelete]
    rcases t.lookup (.ofTop output) with fault | (_ | _)
    · exact .inl ⟨_, rfl, fun h => absurd h hat⟩
    · exact .inr rfl
    · exact .inl ⟨_, rfl, fun h => absurd h hat⟩

/-- An output directory whose path the file system takes is removed. -/
theorem clearOutput_of_directory (hsound : t.Sound) (hat : t.at? output = some .directory)
    (hne : output ≠ []) (hshort : (Path.ofTop output).toString.utf8ByteSize ≤ FileTree.maxPath) :
    clearOutput (.ofTop output) t = (.ok (), t.remove output) := by
  have hlookup := hsound.lookup_eq hat nofun
  have hlocate := hsound.locate_eq true hat nofun
  rw [if_neg (Nat.not_lt.2 hshort)] at hlookup hlocate
  rw [clearOutput_apply, FileTree.holds, hlookup, FileTree.deleteTree_of_directory
    (hsound.plain hat nofun) (hsound.dotless hat) hne hlocate]
  rfl

/-- No link leads out of the output directory when a bundle is written to it. -/
theorem guarded_cleared (options : Options) (hloop : t.LoopFree) (hplain : t.Plain output)
    (hne : output ≠ []) : Bundle.Guarded output (options.cleared t output) := by
  unfold Options.cleared
  split
  · constructor
    · intro upper hupper target
      rw [FileTree.at?_remove hne]
      split
      · exact nofun
      · exact hplain upper hupper target
    · right
      intro place hplace target
      rw [FileTree.at?_remove hne, if_pos hplace]
      exact nofun
  · exact ⟨hplain, .inl hloop⟩

theorem within_cleared (options : Options) (hne : output ≠ []) :
    Within output t (options.cleared t output) := by
  unfold Options.cleared
  split
  · exact .remove hne
  · exact .refl

/-- Writing ends before it began, or goes on with the rendering from the cleared tree. -/
theorem writeOut_apply (options : Options) (render : RenderOptions) (hsound : t.Sound)
    {rootPlace : Location} (h : Confined t rootPlace output) {p : Plan}
    (hp : p.output = .ofTop output) :
    (∃ f, writeOut options render p t = (.error f, t) ∧
        ((∃ problem, f = .problem problem) → options.cleared t output = t)) ∨
      writeOut options render p t =
        Bundle.render p.docs (.ofTop output) render (options.cleared t output) := by
  rw [writeOut_eq, hp]
  unfold Options.cleared
  cases options.clear.truthy with
  | false =>
      simp only [Bool.false_eq_true, false_and, if_false]
      exact .inr (bind_apply_of_ok _ (pure_apply _))
  | true =>
      simp only [true_and, if_true]
      rcases clearOutput_of_plain hsound h.plain h.dotless h.ne_top with
        ⟨f, hfailed, hproblem⟩ | hdone
      · refine .inl ⟨f, bind_apply_of_error _ hfailed, ?_⟩
        rintro ⟨problem, rfl⟩
        exact if_neg fun hat => hproblem hat problem rfl
      · exact .inr (bind_apply_of_ok _ hdone)

/-! ### The frame -/

/-- A run whose output directory is refused changes nothing. Every other run writes strictly inside
its root: it leaves everything as it was that is not at or below the output directory, save that
missing directories on the way there may have been made. -/
theorem runDocgen_within (hsound : t.Sound) (hloop : t.LoopFree) (root : String)
    (options : Options) (store : Option Store) (render : RenderOptions) (strict : Bool) :
    ((∀ rootPlace output, ¬Chosen t (.ofString root) options rootPlace output) →
      (runDocgen (.ofString root) options store render strict t).2 = t) ∧
    ∀ rootPlace output, Chosen t (.ofString root) options rootPlace output →
      rootPlace <+: output ∧ output ≠ rootPlace ∧
        Within output t (runDocgen (.ofString root) options store render strict t).2 := by
  cases hplan : plan t (.ofString root) options store strict with
  | error f =>
      have hsame := runDocgen_of_stops render (plan_eq_error_iff.1 hplan)
      rw [hsame]
      refine ⟨fun _ => rfl, fun rootPlace output hchosen => ?_⟩
      have hconfined := hchosen.confined hsound hloop
      exact ⟨hconfined.inside, hconfined.ne_root, .refl⟩
  | ok p =>
      obtain ⟨output, opened, listing, hlisted, houtput, -⟩ := exists_of_plan hplan
      obtain ⟨rootPlace, hchosen, -⟩ := hlisted.chosen
      refine ⟨fun hnone => absurd hchosen (hnone rootPlace output), ?_⟩
      intro rootPlace' output' hchosen'
      obtain ⟨rfl, rfl⟩ := hchosen.unique hchosen'
      have hconfined := hchosen.confined hsound hloop
      refine ⟨hconfined.inside, hconfined.ne_root, ?_⟩
      rw [(runDocgen_eq_writeOut render hplan).1]
      rcases writeOut_apply options render hsound hconfined houtput with ⟨f, hfailed, -⟩ | hrender
      · rw [hfailed]
        exact .refl
      · rw [hrender]
        have hguarded := guarded_cleared options hloop hconfined.plain hconfined.ne_top
        exact trans_of (Within output) (within_cleared options hconfined.ne_top)
          (Bundle.render_within hconfined.dotless p.docs render _ hguarded).2

/-- An old bundle whose directory of pages is a link that leads out of the root. -/
def linkedBundle : FileTree :=
  ⟨[], [(["project"], .directory), (["project", "docgen"], .directory),
    (["project", "docgen", "contracts"], .link "../../outside"), (["outside"], .directory)]⟩

def oneContract : Store :=
  ⟨.ok ⟨["A.sol:A"], []⟩, fun _ => .ok (.obj [(.text "abi", .arr [])])⟩

/-- The page of the contract would be written through the link. -/
theorem runDocgen_within_sample :
    linkedBundle.Sound ∧ linkedBundle.LoopFree ∧
    Chosen linkedBundle (.ofString "/project") {} ["project"] ["project", "docgen"] ∧
    Within ["project", "docgen"] linkedBundle
      (runDocgen (.ofString "/project") {} (some oneContract) {} false linkedBundle).2 := by
  have hsound : linkedBundle.Sound := by decide +kernel
  have hloop : linkedBundle.LoopFree := FileTree.loopFree_iff.2 (by cbv)
  have hproject : linkedBundle.Leads 0 [] ["project"] ["project"] :=
    FileTree.leads_of_plain (hsound.plain rfl (by simp)) (by decide)
  have hdocgen : linkedBundle.Leads 0 [] ["project", "docgen"] ["project", "docgen"] :=
    FileTree.leads_of_plain (hsound.plain rfl (by simp)) (by decide)
  have hroot : linkedBundle.resolve (.ofTop ["project"]) = .ok ["project"] :=
    hsound.resolve_eq hproject (by decide) rfl (by simp)
  have hplace : linkedBundle.resolve (Path.ofTop ["project"] / "./docgen") =
      .ok ["project", "docgen"] :=
    hsound.resolve_eq hdocgen (by decide) rfl (by simp)
  have hchosen : Chosen linkedBundle (.ofString "/project") {} ["project"]
      ["project", "docgen"] := .of_resolve hroot hroot rfl hplace (by decide) (by decide)
  exact ⟨hsound, hloop, hchosen,
    ((runDocgen_within hsound hloop "/project" {} _ {} false).2 _ _ hchosen).2.2⟩

/-- A project with a link that leads back to itself, and one that leads out of the root. -/
def loopedProject : FileTree :=
  ⟨[], [(["project"], .directory), (["project", "loop"], .link "loop"),
    (["project", "shared"], .link "../outside"), (["outside"], .directory),
    (["outside", "docs"], .directory), (["outside", "docs", "latest"], .link "v1")]⟩

/-- The way to the output directory leaves the project through the link. -/
def sharedDocs : Options := { path := .str "loop/../shared/docs", clear := .bool true }

theorem locate_sharedDocs {t : FileTree} (follow : Bool)
    (hproject : t.at? ["project"] = some .directory)
    (hshared : t.at? ["project", "shared"] = some (.link "../outside"))
    (houtside : t.at? ["outside"] = some .directory)
    (hdocs : t.at? ["outside", "docs"] = some .directory) :
    t.locate follow (.ofTop ["project", "shared", "docs"]) =
      .ok (["outside", "docs"], some .directory) := by
  have htarget : FileTree.targetParts "../outside" = ["..", "outside"] := by decide
  rw [FileTree.locate, if_neg (by decide)]
  change t.walk follow (39 + 1) [] ["project", "shared", "docs"] = _
  rw [FileTree.walk_directory (by decide) (by decide) (by decide) hproject,
    FileTree.walk_link (by decide) (by decide) (by decide) hshared (.inl (by simp)), htarget]
  change t.walk follow 39 ["project"] ["..", "outside", "docs"] = _
  rw [FileTree.walk, if_neg (by decide), if_pos rfl]
  change t.walk follow 39 [] ["outside", "docs"] = _
  rw [FileTree.walk_directory (by decide) (by decide) (by decide) houtside]
  change t.walk follow 39 ["outside"] ["docs"] = _
  rw [FileTree.walk_directory (by decide) (by decide) (by decide) hdocs, FileTree.walk]
  rfl

theorem chosen_loopedProject :
    Chosen loopedProject (.ofString "/project") sharedDocs ["project"]
      ["project", "shared", "docs"] := by
  have hsound : loopedProject.Sound := by decide +kernel
  have hproject : loopedProject.Leads 0 [] ["project"] ["project"] :=
    FileTree.leads_of_plain (hsound.plain rfl (by simp)) (by decide)
  have hshared := locate_sharedDocs (t := loopedProject) true rfl rfl rfl rfl
  have hroot : loopedProject.resolve (.ofTop ["project"]) = .ok ["project"] :=
    hsound.resolve_eq hproject (by decide) rfl (by simp)
  have hplace : loopedProject.resolve (Path.ofTop ["project"] / "loop/../shared/docs") =
      .ok ["project", "shared", "docs"] :=
    FileTree.resolve_of_locate (by decide +kernel) (by cbv) hshared
  exact .of_resolve hroot hroot rfl hplace (by decide) (by decide)

def noContracts : Store := ⟨.ok ⟨[], []⟩, fun _ => .error (.fault .wrongKind)⟩

/-- Behind a link that leads back to itself a path is taken as it is written. So a directory outside
the root is cleared. -/
theorem runDocgen_clears_outside :
    loopedProject.Sound ∧
    Chosen loopedProject (.ofString "/project") sharedDocs ["project"]
      ["project", "shared", "docs"] ∧
    ¬Within ["project", "shared", "docs"] loopedProject
      (runDocgen (.ofString "/project") sharedDocs (some noContracts) {} false loopedProject).2 := by
  refine ⟨by decide +kernel, chosen_loopedProject, fun hwithin => ?_⟩
  have hplan : plan loopedProject (.ofString "/project") sharedDocs (some noContracts) false =
      .ok ⟨.ofTop ["project", "shared", "docs"], [], []⟩ := by
    have hlisted : Listed loopedProject (.ofString "/project") sharedDocs (some noContracts)
        ["project", "shared", "docs"] noContracts ⟨[], []⟩ :=
      ⟨⟨_, chosen_loopedProject, rfl⟩, rfl⟩
    have hdocs : noContracts.resolve false [] = .ok [] := rfl
    exact plan_of_listed hlisted hdocs
  have hholds : loopedProject.holds (.ofTop ["project", "shared", "docs"]) = .ok true := by
    rw [FileTree.holds, FileTree.lookup_of_noNull rfl, FileTree.status,
      locate_sharedDocs true rfl rfl rfl rfl]
    rfl
  have hdelete : FileTree.deleteTree (.ofTop ["project", "shared", "docs"]) loopedProject =
      (.ok (), loopedProject.remove ["outside", "docs"]) := by
    rw [FileTree.deleteTree_apply, locate_sharedDocs false rfl rfl rfl rfl]
    dsimp only
    rw [FileTree.removeDirectory_apply, locate_sharedDocs false rfl rfl rfl rfl,
      ← FileTree.remove_clearBelow]
    rfl
  have hclear : clearOutput (.ofTop ["project", "shared", "docs"]) loopedProject =
      (.ok (), loopedProject.remove ["outside", "docs"]) := by
    rw [clearOutput_apply, hholds, hdelete]
  have hrender := Bundle.render_grows [] (.ofTop ["project", "shared", "docs"]) {}
    (loopedProject.remove ["outside", "docs"])
  have hrun : (runDocgen (.ofString "/project") sharedDocs (some noContracts) {} false
      loopedProject).2 = (Bundle.render [] (.ofTop ["project", "shared", "docs"]) {}
        (loopedProject.remove ["outside", "docs"])).2 := by
    rw [(runDocgen_eq_writeOut {} hplan).1, writeOut_eq]
    exact congrArg Prod.snd (bind_apply_of_ok _ hclear)
  -- The link that is outside was deleted, and nothing that is written makes a link.
  rw [hrun] at hwithin
  have hlink := (hrender.becomes ["outside", "docs", "latest"]).link_iff "v1"
  rcases hwithin.outside ["outside", "docs", "latest"] (by decide) with hsame | ⟨hup, -⟩
  · exact absurd (hlink.1 hsame) (by decide)
  · exact absurd hup (by decide)

end NatSpec
