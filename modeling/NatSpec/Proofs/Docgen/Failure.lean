import NatSpec.Proofs.Docgen.Frame
import NatSpec.Proofs.FileTree.Made

/-!
What a run leaves that fails while it writes. It has added directories and texts of the new bundle,
over files of the old one where these have the same names. The rest of the old bundle is still
there, unless it was to be cleared: clearing comes first, so then the old bundle is lost with the
new one.
-/

namespace NatSpec

open FileTree (LoopFree Sound Grows Becomes)

variable {t : FileTree} {options : Options} {store : Option Store} {render : RenderOptions}
  {strict : Bool}

/-- Writing adds the texts of the bundle to what clearing leaves, if there is to be clearing. -/
theorem writeOut_grows (options : Options) (render : RenderOptions) (p : Plan) (t : FileTree) :
    Grows (Bundle.IsText p.docs render)
      (if options.clear.truthy then (clearOutput p.output t).2 else t)
      (writeOut options render p t).2 := by
  rw [writeOut_eq]
  split
  · obtain ⟨result, t', hclear⟩ : ∃ result t', clearOutput p.output t = (result, t') := ⟨_, _, rfl⟩
    rw [hclear]
    cases result with
    | error f =>
        rw [bind_apply_of_error _ hclear]
        exact .refl
    | ok a =>
        rw [bind_apply_of_ok _ hclear]
        exact Bundle.render_grows p.docs p.output render t'
  · rw [bind_apply_of_ok _ (pure_apply ())]
    exact Bundle.render_grows p.docs p.output render t

/-- Where no link leads out of the output directory, writing that fails with a problem has added
texts of the bundle to the cleared tree. -/
theorem grows_cleared (hsound : t.Sound) {rootPlace output : Location}
    (hconfined : Confined t rootPlace output) {p : Plan} (hp : p.output = .ofTop output)
    {problem : Problem} {t' : FileTree}
    (hwrite : writeOut options render p t = (.error (.problem problem), t')) :
    Grows (Bundle.IsText p.docs render) (options.cleared t output) t' := by
  rcases writeOut_apply options render hsound hconfined hp with ⟨f, hfailed, hsame⟩ | hrender
  · -- Clearing was refused, with a problem: so there was nothing to clear.
    rw [hfailed] at hwrite
    obtain ⟨herror, rfl⟩ := Prod.mk.inj hwrite
    rw [hsame ⟨problem, Except.error.inj herror⟩]
    exact .refl
  · rw [hwrite] at hrender
    have hgrows := Bundle.render_grows p.docs (.ofTop output) render (options.cleared t output)
    rwa [← hrender] at hgrows

/-- A run that fails with a problem after all contracts were resolved fails with one of the bundle,
and leaves what writing a part of the new bundle makes of the tree that was there before the run, or
that clearing has left. If no link leads back to itself, then clearing has removed the old bundle if
it was there, and nothing else. -/
theorem runDocgen_grows_of_problem {root : String} {p : Plan}
    (hplan : plan t (.ofString root) options store strict = .ok p) {problem : Problem}
    {t' : FileTree}
    (hrun : runDocgen (.ofString root) options store render strict t =
      (.error (.problem problem), t')) :
    problem.kind = .bundle ∧
      (options.clear.truthy = false → Grows (Bundle.IsText p.docs render) t t') ∧
      (options.clear.truthy = true →
        Grows (Bundle.IsText p.docs render) (clearOutput p.output t).2 t') ∧
      (t.Sound → t.LoopFree → ∃ output, p.output = .ofTop output ∧
        (t.at? output ≠ some .directory → Grows (Bundle.IsText p.docs render) t t') ∧
        (options.clear.truthy = true → t.at? output = some .directory →
          Grows (Bundle.IsText p.docs render) (t.remove output) t' ∧
          ∀ place, output <+: place →
            Becomes (Bundle.IsText p.docs render) none (t'.at? place))) := by
  obtain ⟨hafter, herror⟩ := runDocgen_eq_writeOut render hplan
  have hwrite : writeOut options render p t = (.error (.problem problem), t') := by
    rw [hrun] at hafter herror
    exact Prod.ext ((herror _).1 rfl) hafter.symm
  have hkind := failsBy_writeOut options render p t _ _ hwrite problem rfl
  have hgrows := writeOut_grows options render p t
  rw [hwrite] at hgrows
  refine ⟨hkind, ?_, ?_, fun hsound hloop => ?_⟩
  · intro hkept
    rwa [if_neg (by simp [hkept])] at hgrows
  · intro hclear
    rwa [if_pos hclear] at hgrows
  obtain ⟨output, opened, listing, hlisted, houtput, -⟩ := exists_of_plan hplan
  obtain ⟨rootPlace, hchosen, -⟩ := hlisted.chosen
  have hconfined := hchosen.confined hsound hloop
  have hcleared := grows_cleared hsound hconfined houtput hwrite
  refine ⟨output, houtput, ?_, ?_⟩
  · intro hat
    rwa [Options.cleared, if_neg fun h => hat h.2] at hcleared
  · intro hclear hat
    rw [Options.cleared, if_pos ⟨hclear, hat⟩] at hcleared
    refine ⟨hcleared, fun place hplace => ?_⟩
    have hbecomes := hcleared.becomes place
    rwa [FileTree.at?_remove hconfined.ne_top, if_pos hplace] at hbecomes

def oldBundle : FileTree :=
  ⟨[], [(["project"], .directory), (["project", "docgen"], .directory),
    (["project", "docgen", "stale.txt"], .file "old".toUTF8)]⟩

def clearing : Options := { clear := .bool true }

/-- A contract whose page would stand outside of its bundle. -/
def escaping : Store :=
  ⟨.ok ⟨["../..:A"], []⟩, fun _ => .ok (.obj [(.text "abi", .arr [])])⟩

def escapingDoc : ContractDoc :=
  ⟨.str "../..", .str "A", .null, .null, .null, .null, .null, .null, .null, .null, .null, .null, []⟩

/-- The project with a bundle that holds its data only. -/
def begunBundle (text : String) : FileTree :=
  ⟨[], [(["project"], .directory), (["project", "docgen"], .directory),
    (["project", "docgen", "docgen-data.json"], .file text.toUTF8)]⟩

theorem oldBundle_sound : oldBundle.Sound := by decide +kernel

theorem chosen_oldBundle :
    Chosen oldBundle (.ofString "/project") clearing ["project"] ["project", "docgen"] := by
  have hroot : oldBundle.resolve (.ofTop ["project"]) = .ok ["project"] :=
    FileTree.resolve_of_nameable (by decide) (oldBundle_sound.plain rfl nofun) (by decide)
  have hplace : oldBundle.resolve (Path.ofTop ["project"] / "./docgen") =
      .ok ["project", "docgen"] :=
    FileTree.resolve_of_eq_ofTop (by decide) (by decide) (oldBundle_sound.plain rfl nofun)
      (by decide)
  exact .of_resolve hroot hroot rfl hplace (by decide) (by decide)

theorem plan_oldBundle :
    plan oldBundle (.ofString "/project") clearing (some escaping) false =
      .ok ⟨.ofTop ["project", "docgen"], [("../..:A", escapingDoc)], []⟩ := by
  have hlisted : Listed oldBundle (.ofString "/project") clearing (some escaping)
      ["project", "docgen"] escaping ⟨["../..:A"], []⟩ := ⟨⟨_, chosen_oldBundle, rfl⟩, rfl⟩
  have hdocs : escaping.resolve false ["../..:A"] = .ok [("../..:A", escapingDoc)] := rfl
  exact plan_of_listed hlisted hdocs

theorem clearOutput_oldBundle :
    clearOutput (.ofTop ["project", "docgen"]) oldBundle =
      (.ok (), oldBundle.remove ["project", "docgen"]) :=
  clearOutput_of_directory oldBundle_sound rfl (by decide) (by decide)

/-- The project with an empty bundle. -/
def emptyBundle : FileTree :=
  ⟨[], [(["project"], .directory), (["project", "docgen"], .directory)]⟩

theorem makeDirectories_docgen :
    FileTree.makeDirectories (.ofTop ["project", "docgen"])
      (oldBundle.remove ["project", "docgen"]) = (.ok (), emptyBundle) := by
  have hmissing : (oldBundle.remove ["project", "docgen"]).locate false
      (.ofTop ["project", "docgen"]) = .ok (["project", "docgen"], none) :=
    FileTree.Nameable.locate_eq (by decide) false
      (fun upper _ => FileTree.not_link_of_linkCount (by decide) upper) (by decide) (by decide)
  exact FileTree.makeDirectories_of_missing (by decide) hmissing

theorem write_data (text : String) :
    Bundle.write (.ofTop ["project", "docgen"]) (.ofString Bundle.dataFile) text emptyBundle =
      (.ok (.ofTop ["project", "docgen", "docgen-data.json"]), begunBundle text) := by
  have hsound : emptyBundle.Sound := by decide
  have hlocate (follow : Bool) : emptyBundle.locate follow (.ofTop ["project", "docgen"]) =
      .ok (["project", "docgen"], some .directory) :=
    hsound.locate_directory follow rfl (by decide)
  have hfile : emptyBundle.locate true (.ofTop ["project", "docgen", "docgen-data.json"]) =
      .ok (["project", "docgen", "docgen-data.json"], none) :=
    FileTree.Nameable.locate_eq (by decide) true
      (fun upper _ => FileTree.not_link_of_linkCount (by decide) upper) (by decide) (by decide)
  have hroot : emptyBundle.resolve (.ofTop ["project", "docgen"]) = .ok ["project", "docgen"] :=
    FileTree.resolve_of_nameable (by decide) (hsound.plain rfl nofun) (by decide)
  have htarget : emptyBundle.resolve
      ((Path.ofTop ["project", "docgen"]).join (.ofString Bundle.dataFile)) =
      .ok ["project", "docgen", "docgen-data.json"] :=
    FileTree.resolve_of_eq_ofTop (by decide) (by decide)
      (fun upper _ => FileTree.not_link_of_linkCount (by decide) upper) (by decide)
  have hdirectory : emptyBundle.isDirectory (.ofTop ["project", "docgen"]) = .ok true := by
    rw [FileTree.isDirectory, FileTree.lookup_of_noNull (by decide), FileTree.status, hlocate]
    rfl
  rw [Bundle.write_apply text hroot htarget, if_pos (by decide)]
  refine bind_apply_of_ok (a := ()) _ (liftFiling_apply_of_ok ?_)
  have hmake : FileTree.makeDirectories (.ofTop ["project", "docgen"]) emptyBundle =
      (.ok (), emptyBundle) :=
    FileTree.makeDirectories_of_directory (by decide) (hlocate false) hdirectory
  exact (bind_apply_of_ok _ hmake).trans (FileTree.writeText_of_missing (by decide) hfile text)

theorem write_page (text page : String) :
    Bundle.write (.ofTop ["project", "docgen"]) ⟨.here, ["contracts", "..", "..", "A.md"]⟩ page
        (begunBundle text) =
      (.error (.problem (.outsideBundle "contracts/../../A.md")), begunBundle text) := by
  have hlinks := FileTree.not_link_of_linkCount (t := begunBundle text) rfl
  have hroot : (begunBundle text).resolve (.ofTop ["project", "docgen"]) =
      .ok ["project", "docgen"] :=
    FileTree.resolve_of_nameable (by decide) (fun upper _ => hlinks upper) (by decide)
  have htarget : (begunBundle text).resolve ((Path.ofTop ["project", "docgen"]).join
      ⟨.here, ["contracts", "..", "..", "A.md"]⟩) = .ok ["project", "A.md"] := by
    have hway : (begunBundle text).Leads 0 []
        ["project", "docgen", "contracts", "..", "..", "A.md"] ["project", "A.md"] :=
      .step (by decide) nofun (.step (by decide) nofun (.step (by decide) nofun
        (.up (.up (.step (by decide) nofun .done)))))
    exact hway.resolve_eq (by decide) (fun upper _ => hlinks upper) (by decide)
  rw [Bundle.write_apply page hroot htarget, if_neg (by decide)]
  rfl

/-- The data of the new bundle are written before its page is refused. -/
theorem render_escaping : ∃ text,
    Bundle.render [("../..:A", escapingDoc)] (.ofTop ["project", "docgen"]) {}
        (oldBundle.remove ["project", "docgen"]) =
      (.error (.problem (.outsideBundle "contracts/../../A.md")), begunBundle text) := by
  obtain ⟨text, htext⟩ : ∃ text, Bundle.dataText [("../..:A", escapingDoc)] (.int 2) = .ok text :=
    ⟨_, rfl⟩
  obtain ⟨page, hpage⟩ : ∃ page, Page.render escapingDoc = .ok page := ⟨_, rfl⟩
  have hpath : escapingDoc.pagePath = .ok ⟨.here, ["contracts", "..", "..", "A.md"]⟩ := rfl
  have hpages : Bundle.writeMarkdown [("../..:A", escapingDoc)] (.ofTop ["project", "docgen"]) {}
      (begunBundle text) =
      (.error (.problem (.outsideBundle "contracts/../../A.md")), begunBundle text) := by
    rw [Bundle.writeMarkdown, if_pos rfl, Bundle.writePages, hpath,
      bind_apply_of_ok _ (liftFault_apply _), hpage, bind_apply_of_ok _ (liftFault_apply _)]
    exact bind_apply_of_error _ (write_page text page)
  have hall : Bundle.writeAll [("../..:A", escapingDoc)] (.ofTop ["project", "docgen"]) {}
      (oldBundle.remove ["project", "docgen"]) =
      (.error (.problem (.outsideBundle "contracts/../../A.md")), begunBundle text) := by
    rw [Bundle.writeAll_eq, bind_apply_of_ok _ (liftFiling_apply_of_ok makeDirectories_docgen),
      htext, bind_apply_of_ok _ (liftFault_apply _), bind_apply_of_ok _ (write_data text)]
    exact bind_apply_of_error _ hpages
  refine ⟨text, ?_⟩
  rw [Bundle.render, tryCatch_apply_of_error _ hall]
  rfl

theorem runDocgen_oldBundle :
    ∃ text, runDocgen (.ofString "/project") clearing (some escaping) {} false oldBundle =
      (.error (.problem (.outsideBundle "contracts/../../A.md")), begunBundle text) := by
  obtain ⟨text, hrender⟩ := render_escaping
  have hwrite : writeOut clearing {} ⟨.ofTop ["project", "docgen"], [("../..:A", escapingDoc)], []⟩
      oldBundle =
      (.error (.problem (.outsideBundle "contracts/../../A.md")), begunBundle text) := by
    have hclear : clearing.clear.truthy = true := rfl
    rw [writeOut_eq, if_pos hclear]
    exact (bind_apply_of_ok _ clearOutput_oldBundle).trans hrender
  refine ⟨text, ?_⟩
  rw [runDocgen_of_plan plan_oldBundle]
  exact bind_apply_of_error _ hwrite

theorem runDocgen_grows_of_problem_sample :
    oldBundle.Sound ∧ oldBundle.LoopFree ∧
    plan oldBundle (.ofString "/project") clearing (some escaping) false =
      .ok ⟨.ofTop ["project", "docgen"], [("../..:A", escapingDoc)], []⟩ ∧
    ∃ text, runDocgen (.ofString "/project") clearing (some escaping) {} false oldBundle =
        (.error (.problem (.outsideBundle "contracts/../../A.md")), begunBundle text) ∧
      Grows (Bundle.IsText [("../..:A", escapingDoc)] {}) (oldBundle.remove ["project", "docgen"])
        (begunBundle text) := by
  have hloop : oldBundle.LoopFree := FileTree.loopFree_iff.2 (by decide +kernel)
  obtain ⟨text, hrun⟩ := runDocgen_oldBundle
  obtain ⟨-, -, -, hinside⟩ := runDocgen_grows_of_problem plan_oldBundle hrun
  obtain ⟨output, houtput, -, hcleared⟩ := hinside oldBundle_sound hloop
  obtain rfl : ["project", "docgen"] = output := congrArg Path.parts houtput
  exact ⟨oldBundle_sound, hloop, plan_oldBundle, text, hrun, (hcleared rfl rfl).1⟩

/-- A run that fails while it writes loses an old bundle that is to be cleared. -/
theorem runDocgen_loses_bundle :
    Chosen oldBundle (.ofString "/project") clearing ["project"] ["project", "docgen"] ∧
    plan oldBundle (.ofString "/project") clearing (some escaping) false =
      .ok ⟨.ofTop ["project", "docgen"], [("../..:A", escapingDoc)], []⟩ ∧
    ∃ problem t', runDocgen (.ofString "/project") clearing (some escaping) {} false oldBundle =
        (.error (.problem problem), t') ∧ problem.kind = .bundle ∧
      oldBundle.at? ["project", "docgen", "stale.txt"] = some (.file "old".toUTF8) ∧
      t'.at? ["project", "docgen", "stale.txt"] = none := by
  obtain ⟨text, hrun⟩ := runDocgen_oldBundle
  exact ⟨chosen_oldBundle, plan_oldBundle, _, _, hrun, rfl, rfl, rfl⟩

end NatSpec
