import NatSpec.Proofs.Bundle.Laid
import NatSpec.Proofs.Docgen.Written

/-!
A run that clears the old bundle. Whatever the output directory held, or if it was missing, such a
run does the same: it succeeds or fails, and if it succeeds then with one report, and leaves the same
trees. What is in the output directory then are the files that were written and the directories that
lead to them.
-/

namespace NatSpec

open FileTree (Sound Tidy Plain Dotless Keeps Made Alike Grows)

variable {t t' s : FileTree} {options : Options} {render : RenderOptions} {strict : Bool}
  {output place : Location}

/-! ### Plans for a given store -/

/-- Of the tree a plan for a given store knows the output directory only. -/
theorem plan_of_chosen {root : Path} {rootPlace : Location} {store : Store}
    (h : Chosen t root options rootPlace output) :
    plan t root options (some store) strict = (do
      let listing ← store.listing
      let docs ← store.resolve strict listing.names
      .ok ⟨.ofTop output, docs, listing.warnings ++ docs.warnings⟩) := by
  obtain ⟨hroot, path, hpath, houtput⟩ := h
  rw [plan_eq, hroot, hpath, liftM_ok, ok_bind, liftM_ok, ok_bind, houtput, ok_bind]
  rfl

/-- An output directory that was chosen holds no dots. -/
theorem Chosen.dotless (hsound : t.Sound) {root : String} {rootPlace : Location}
    (h : Chosen t (.ofString root) options rootPlace output) : output ≠ [] ∧ Dotless output := by
  have hroot := FileTree.dotless_of_resolve h.root (hsound.startOf (.ofString root)).2.noDot
    (Path.noDot_ofString root)
  obtain ⟨path, -, houtput⟩ := h.output
  obtain ⟨rootPlace', hroot', hplace, hinside, hne⟩ := outputDirectory_eq_ok houtput
  have hdotless := FileTree.dotless_of_resolve hroot' List.not_mem_nil hroot.noDot
  have htop := Bundle.startOf_join_ofTop t rootPlace' (.ofString (path.getD "./docgen"))
  refine ⟨?_, FileTree.dotless_of_resolve hplace (htop ▸ List.not_mem_nil)
    (Path.noDot_div hdotless.noDot _)⟩
  rintro rfl
  exact hne (List.prefix_nil.1 hinside).symm

/-! ### Clearing -/

theorem respects_clearOutput (output : Location) : Respects (clearOutput (.ofTop output)) := by
  refine .get_bind (fun t t' h => by rw [h.holds]) fun t =>
    (Respects.liftFault _).bind fun there => ?_
  split
  · refine (FileTree.respects_deleteTree output).liftFiling.tryCatch fun failure => ?_
    split
    · exact .throw _
    · exact .throw _
  · exact .pure _

/-- A tree without what stood in a place, to which the path of the output directory leads if its
directories are made. -/
structure Emptied (output place : Location) (t s : FileTree) : Prop where
  tidy : s.Tidy
  here : s.here = t.here
  at? : ∀ other, s.at? other = if place <+: other then none else t.at? other
  noNull : FileTree.holdsNull (.ofTop output) = false
  old : t.at? place = none ∨ t.at? place = some .directory
  missing : s.status (.ofTop output) = .error .notFound
  leads : ∃ depth, s.Leads depth [] output place
  made : ∃ s', FileTree.makeDirectories (.ofTop output) s = (.ok (), s') ∧ Made place s s' ∧
    s'.locate false (.ofTop output) = .ok (place, some .directory) ∧
    (s'.remove place).locate false (.ofTop output) = .ok (place, none)

section

variable (hdotless : Dotless output) (hplace : t.resolve (.ofTop output) = .ok place)
include hdotless hplace

/-- A path that leads somewhere leads to the place to which it resolves. -/
theorem eq_of_locate {follow : Bool} {found : Location}
    (h : t.locate follow (.ofTop output) = .ok (found, some .directory)) : found = place := by
  obtain ⟨depth, hleads⟩ := FileTree.leads_of_locate hdotless.noDot h fun _ => nofun
  exact (FileTree.resolve_of_leads hleads (hleads.noDots List.not_mem_nil) hplace).symm

/-- Clearing leaves no trace of the output directory if its directories can be made afterwards. -/
theorem emptied_of_clearOutput (htidy : t.Tidy) (houtput : output ≠ [])
    (hclear : clearOutput (.ofTop output) t = (.ok (), s))
    (hmake : FileTree.makeDirectories (.ofTop output) s = (.ok (), t')) :
    Emptied output place t s := by
  have hgrows : Grows (fun _ => True) s t' := by
    have hkept := FileTree.makeDirectories_grows (P := fun _ => True) (.ofTop output) s
    rwa [hmake] at hkept
  rw [clearOutput_apply] at hclear
  split at hclear
  · cases hclear
  · rename_i hmissing
    obtain rfl := (Prod.mk.inj hclear).2
    obtain ⟨hnull, ⟨hthere, -⟩ | ⟨hstatus, dest, hmade, hlocate⟩, hbefore⟩ :=
      FileTree.ensured_of_makeDirectories htidy hdotless hmake
    · cases (FileTree.holds_of_isDirectory hthere).symm.trans hmissing
    · obtain ⟨depth, hleads⟩ := FileTree.leads_of_locate hdotless.noDot hlocate fun _ => nofun
      have hleads' := hgrows.leads_iff.2 hleads
      obtain rfl := FileTree.resolve_of_leads hleads' (hleads'.noDots List.not_mem_nil) hplace
      refine ⟨htidy, rfl, fun other => ?_, hnull, .inl hmade.missing, hstatus, ⟨depth, hleads'⟩,
        t', hmake, hmade, hlocate, hbefore _ hmade.missing hlocate⟩
      split
      · rename_i hbelow
        exact htidy.none_of_prefix hbelow hmade.missing
      · rfl
  · rename_i _ hdelete
    obtain rfl := (Prod.mk.inj hclear).2
    obtain ⟨found, hlocate, hlocate', rfl⟩ := FileTree.exists_of_deleteTree htidy hdelete
    obtain rfl := eq_of_locate hdotless hplace hlocate
    have hne : found ≠ [] := by
      obtain ⟨upper, name, rfl⟩ : ∃ upper name, output = upper ++ [name] :=
        ⟨_, _, (List.dropLast_append_getLast houtput).symm⟩
      obtain ⟨above, rfl⟩ := FileTree.exists_concat_of_locate
        (fun heq => hdotless.noDot (by simp [heq])) (fun heq => hdotless.noDots (by simp [heq]))
        hlocate
      simp
    have hat (other : Location) : (t.remove found).at? other = if found <+: other then none else t.at? other :=
      FileTree.at?_remove hne other
    have htidy' := htidy.remove found
    obtain ⟨hnull, ⟨hthere, -⟩ | ⟨hstatus, dest, hmade, hdest⟩, hbefore⟩ :=
      FileTree.ensured_of_makeDirectories htidy' hdotless hmake
    · -- What the path leads to now it led to before, but that was removed.
      obtain ⟨-, dest, hdest⟩ := FileTree.isDirectory_eq_true_iff.1 hthere
      have hkeeps : Keeps (t.remove found) t := by
        refine .of_subset fun other stands hother => ?_
        rw [hat] at hother
        split at hother
        · cases hother
        · exact hother
      have hdest' := hkeeps.locate htidy hdest nofun
      obtain ⟨rfl, -⟩ := Prod.mk.inj (Except.ok.inj
        (hdest'.symm.trans (FileTree.locate_true_of_false hlocate fun _ _ => nofun)))
      have hgone := (FileTree.founded_of_locate htidy' hdest).1
      rw [hat, if_pos List.prefix_rfl] at hgone
      cases hgone
    · obtain ⟨depth, hleads⟩ := FileTree.leads_of_locate hdotless.noDot hdest fun _ => nofun
      obtain ⟨depth', hleads'⟩ := FileTree.leads_of_locate hdotless.noDot hlocate' fun _ => nofun
      have hdirectory := (FileTree.founded_of_locate htidy hlocate).1
      have hleads'' : (t.remove found).Leads depth' [] output found := by
        refine hleads'.congr fun other target => ?_
        rw [hat, FileTree.at?_clearBelow]
        by_cases hother : other = found
        · rw [hother, if_neg fun hbelow => hbelow.2 rfl, if_pos List.prefix_rfl, hdirectory]
          simp
        · simp [hother]
      obtain rfl := (hgrows.leads_iff.2 hleads).unique hleads''
      exact ⟨htidy', rfl, hat, hnull, .inr hdirectory, hstatus, ⟨depth', hleads''⟩, t', hmake, hmade,
        hdest, hbefore _ hmade.missing hdest⟩
  · cases hclear

end

/-- Where a directory stands in the place, clearing removes it, if elsewhere there is what there was
when the place was emptied before. -/
theorem Emptied.clearOutput_eq (h : Emptied output place t' s) (houtput : output ≠ [])
    (hdotless : Dotless output) (htidy : t.Tidy) (hdirectory : t.at? place = some .directory)
    (hat : ∀ other, ¬other <+: place → ¬place <+: other → s.at? other = t.at? other) :
    clearOutput (.ofTop output) t = (.ok (), t.remove place) := by
  obtain ⟨t₁, -, hmade, hlocate, -⟩ := h.made
  -- The directories that could be made are there.
  have hkeeps {s' : FileTree} (hs' : s'.Tidy) (hthere : s'.at? place = some .directory)
      (hsame : ∀ other, ¬place <+: other → s'.at? other = t.at? other) : Keeps t₁ s' := by
    refine .of_subset fun other stands hother => ?_
    rw [hmade.at?] at hother
    split at hother
    · rename_i hup
      rw [← hother]
      by_cases heq : other = place
      · rw [heq, hthere]
      · exact hs'.founded hthere other hup heq
    · rename_i hoff
      have hbelow : ¬place <+: other := fun hbelow => by
        rw [h.at?, if_pos hbelow] at hother
        cases hother
      rw [hsame other hbelow, ← hat other hoff hbelow, hother]
  have hlocate' : t.locate false (.ofTop output) = .ok (place, some .directory) := by
    rw [(hkeeps htidy hdirectory fun _ _ => rfl).locate htidy hlocate nofun, hdirectory]
  have hcleared : (t.clearBelow place).at? place = some .directory := by
    rw [FileTree.at?_clearBelow, if_neg fun hbelow => hbelow.2 rfl, hdirectory]
  have hlocate'' :
      (t.clearBelow place).locate false (.ofTop output) = .ok (place, some .directory) := by
    have htidy' := htidy.clearBelow place
    rw [(hkeeps htidy' hcleared fun other hoff => ?_).locate htidy' hlocate nofun, hcleared]
    rw [FileTree.at?_clearBelow, if_neg fun hbelow => hoff hbelow.1]
  have hthere : t.holds (.ofTop output) = .ok true := by
    refine FileTree.holds_of_isDirectory (FileTree.isDirectory_eq_true_iff.2 ⟨h.noNull, place, ?_⟩)
    exact FileTree.locate_true_of_false hlocate' fun _ _ => nofun
  rw [clearOutput_apply, hthere, FileTree.deleteTree_of_locate houtput hdotless hlocate' hlocate'']

theorem Emptied.ne_nil (h : Emptied output place t s) : place ≠ [] := by
  obtain ⟨s', -, hmade, -⟩ := h.made
  rintro rfl
  cases hmade.missing

/-- From a tree that differs at most in what stood in the place, clearing leaves the same. -/
theorem exists_of_emptied (houtput : output ≠ []) (hdotless : Dotless output) (htidy : t.Tidy)
    (hhere : s.here = t.here)
    (hat : ∀ other, s.at? other = if place <+: other then none else t.at? other)
    (hold : t.at? place = none ∨ t.at? place = some .directory)
    (h : Emptied output place t' s) :
    ∃ s', clearOutput (.ofTop output) t = (.ok (), s') ∧ Alike s s' := by
  rcases hold with hnone | hdirectory
  · have halike : Alike s t := by
      refine ⟨h.tidy, htidy, hhere, fun other => ?_⟩
      rw [hat]
      split
      · rename_i hbelow
        exact (htidy.none_of_prefix hbelow hnone).symm
      · rfl
    have hmissing : t.holds (.ofTop output) = .ok false := by
      rw [← halike.holds, FileTree.holds, FileTree.lookup_of_noNull h.noNull, h.missing]
      rfl
    rw [clearOutput_apply, hmissing]
    exact ⟨t, rfl, halike⟩
  · refine ⟨t.remove place, h.clearOutput_eq houtput hdotless htidy hdirectory fun other _ hoff => ?_,
      h.tidy, htidy.remove place, hhere, fun other => ?_⟩
    · rw [hat, if_neg hoff]
    · rw [hat, FileTree.at?_remove h.ne_nil]

theorem Emptied.at?_below (h : Emptied output place t s) {other : Location}
    (hother : place <+: other) : s.at? other = none := by
  rw [h.at?, if_pos hother]

section

variable (h : Emptied output place t s) (hdotless : Dotless output) {docs : Docs}
  {written : List Path} (hrender : Bundle.render docs (.ofTop output) render s = (.ok written, t'))
include h hdotless hrender

/-- The bundle that is written to an emptied directory is laid down in its place. -/
theorem Emptied.exists_files : ∃ files : Bundle.Files docs render s output place,
    written = files.paths ∧ Bundle.Guarded place s ∧
      FileTree.Settles files.items (Bundle.render docs (.ofTop output) render) s written t' ∧
      t'.locate true (.ofTop output) = .ok (place, some .directory) := by
  obtain ⟨depth, hleads⟩ := h.leads
  obtain ⟨out, files, hwritten, hsettles, hlocate⟩ :=
    Bundle.settles_render hdotless h.tidy hrender
  obtain ⟨depth', hleads'⟩ := files.leads
  obtain rfl := hleads.unique hleads'
  refine ⟨files, hwritten, ⟨hleads.plain FileTree.plain_nil, .inr fun below hbelow target => ?_⟩,
    hsettles, hlocate⟩
  rw [h.at?_below hbelow]
  exact nofun

/-- What is in a directory that was emptied when a bundle has been written to it. -/
theorem Emptied.at?_of_render {other : Location} (hother : place <+: other) :
    ((∃ content, t'.at? other = some (.file content)) ↔ .ofTop other ∈ written) ∧
      (t'.at? other = some .directory ↔
        ∃ file, .ofTop file ∈ written ∧ other <+: file ∧ other ≠ file) ∧
      ∀ target, t'.at? other ≠ some (.link target) := by
  obtain ⟨files, rfl, hguarded, hsettles, -⟩ := h.exists_files hdotless hrender
  exact Bundle.Files.at?_of_empty hguarded hsettles.laid (fun _ => h.at?_below) hother

end

/-! ### Two old bundles -/

/-- Trees that differ at most in what a directory holds, which is there or missing. -/
structure OldBundles (place : Location) (t t' : FileTree) : Prop where
  sound : t.Sound
  sound' : t'.Sound
  here : t.here = t'.here
  old : t.at? place = none ∨ t.at? place = some .directory
  old' : t'.at? place = none ∨ t'.at? place = some .directory
  others : ∀ other, ¬place <+: other → t.at? other = t'.at? other

theorem OldBundles.symm (h : OldBundles place t t') : OldBundles place t' t :=
  ⟨h.sound', h.sound, h.here.symm, h.old', h.old, fun other hother => (h.others other hother).symm⟩

section

variable (hclear : options.clear.truthy = true) {root : String} {rootPlace rootPlace' : Location}
include hclear

/-- A run that clears and succeeds has emptied the output directory before it wrote the bundle. -/
theorem exists_emptied_of_runDocgen (hsound : t.Sound)
    (hchosen : Chosen t (.ofString root) options rootPlace output)
    (hplace : t.resolve (.ofTop output) = .ok place) {store : Option Store} {report : Report}
    (h : runDocgen (.ofString root) options store render strict t = (.ok report, t')) :
    ∃ s, plan t (.ofString root) options store strict =
        .ok ⟨.ofTop output, report.docs, report.warnings⟩ ∧
      report.output = .ofTop output ∧ clearOutput (.ofTop output) t = (.ok (), s) ∧
      Emptied output place t s ∧
      Bundle.render report.docs (.ofTop output) render s = (.ok report.written, t') := by
  obtain ⟨houtput, hdotless⟩ := hchosen.dotless hsound
  obtain ⟨p, hplan, hreport, hwrite⟩ := exists_of_runDocgen h
  obtain ⟨output', opened, listing, ⟨⟨rootPlace', hchosen', -⟩, -⟩, hp, -⟩ := exists_of_plan hplan
  obtain ⟨-, rfl⟩ := hchosen.unique hchosen'
  rw [writeOut_eq, if_pos hclear, hp] at hwrite
  obtain ⟨_, s, hcleared, hrender⟩ := exists_of_bind_apply hwrite
  obtain ⟨-, -, -, s₁, -, -, hmake, -⟩ := Bundle.exists_of_render hrender
  have hemptied := emptied_of_clearOutput hdotless hplace hsound.tidy houtput hcleared hmake
  have hdocs : report.docs = p.docs := congrArg Report.docs hreport
  have hwarnings : report.warnings = p.warnings := congrArg Report.warnings hreport
  refine ⟨s, ?_, ?_, hcleared, hemptied, hdocs ▸ hrender⟩
  · rw [hplan, hdocs, hwarnings, ← hp]
  · rw [← hp]
    exact congrArg Report.output hreport

/-- What a run does that clears, it does with every other old bundle. -/
theorem OldBundles.exists_of_runDocgen (hold : OldBundles place t t')
    (hchosen : Chosen t (.ofString root) options rootPlace output)
    (hchosen' : Chosen t' (.ofString root) options rootPlace' output)
    (hplace : t.resolve (.ofTop output) = .ok place) {store : Store} {report : Report}
    (h : runDocgen (.ofString root) options (some store) render strict t = (.ok report, s)) :
    ∃ s', runDocgen (.ofString root) options (some store) render strict t' = (.ok report, s') ∧
      ∀ other, s.at? other = s'.at? other := by
  obtain ⟨houtput, hdotless⟩ := hchosen.dotless hold.sound
  obtain ⟨s₀, hplan, hreport, -, hemptied, hrender⟩ :=
    exists_emptied_of_runDocgen hclear hold.sound hchosen hplace h
  have hat (other : Location) : s₀.at? other = if place <+: other then none else t'.at? other := by
    rw [hemptied.at?]
    split
    · rfl
    · rename_i hother
      exact hold.others other hother
  obtain ⟨s₀', hcleared, halike⟩ := exists_of_emptied houtput hdotless hold.sound'.tidy
    (hemptied.here.trans hold.here) hat hold.old' hemptied
  obtain ⟨hresult, hleft⟩ :=
    Bundle.respects_render report.docs output render s₀ s₀' halike
  rw [hrender] at hresult hleft
  have hplan' : plan t' (.ofString root) options (some store) strict =
      .ok ⟨.ofTop output, report.docs, report.warnings⟩ := by
    rw [plan_of_chosen hchosen', ← plan_of_chosen hchosen, hplan]
  have hwrite : writeOut options render ⟨.ofTop output, report.docs, report.warnings⟩ t' =
      (.ok report.written, (Bundle.render report.docs (.ofTop output) render s₀').2) := by
    rw [writeOut_eq, if_pos hclear]
    exact (bind_apply_of_ok _ hcleared).trans (Prod.ext hresult.symm rfl)
  refine ⟨_, ?_, hleft.same⟩
  rw [runDocgen_of_plan hplan', bind_apply_of_ok _ hwrite, pure_apply, ← hreport]

/-- A run that clears does the same whatever the old bundle was: it succeeds or not, and if it does
then with one report, and leaves the same in all places. The files in the output directory are then
those that were written, and the directories are those that lead to them. The output directory is the
place to which the chosen path leads, which is that path itself unless a link that leads back to
itself was met before it. -/
theorem runDocgen_of_clear (hold : OldBundles place t t')
    (hchosen : Chosen t (.ofString root) options rootPlace output)
    (hchosen' : Chosen t' (.ofString root) options rootPlace' output)
    (hplace : t.resolve (.ofTop output) = .ok place)
    (hplace' : t'.resolve (.ofTop output) = .ok place) (store : Store) (render : RenderOptions)
    (strict : Bool) :
    ((∃ report s, runDocgen (.ofString root) options (some store) render strict t =
        (.ok report, s)) ↔
      ∃ report s, runDocgen (.ofString root) options (some store) render strict t' =
        (.ok report, s)) ∧
    ∀ report s, runDocgen (.ofString root) options (some store) render strict t = (.ok report, s) →
      (∃ s', runDocgen (.ofString root) options (some store) render strict t' = (.ok report, s') ∧
        ∀ other, s.at? other = s'.at? other) ∧
      ∀ other, place <+: other →
        ((∃ content, s.at? other = some (.file content)) ↔ .ofTop other ∈ report.written) ∧
        (s.at? other = some .directory ↔
          ∃ file, .ofTop file ∈ report.written ∧ other <+: file ∧ other ≠ file) ∧
        ∀ target, s.at? other ≠ some (.link target) := by
  refine ⟨⟨?_, ?_⟩, fun report s h => ⟨?_, fun other hother => ?_⟩⟩
  · rintro ⟨report, s, h⟩
    obtain ⟨s', h', -⟩ := hold.exists_of_runDocgen hclear hchosen hchosen' hplace h
    exact ⟨report, s', h'⟩
  · rintro ⟨report, s, h⟩
    obtain ⟨s', h', -⟩ := hold.symm.exists_of_runDocgen hclear hchosen' hchosen hplace' h
    exact ⟨report, s', h'⟩
  · exact hold.exists_of_runDocgen hclear hchosen hchosen' hplace h
  · obtain ⟨s₀, -, -, -, hemptied, hrender⟩ :=
      exists_emptied_of_runDocgen hclear hold.sound hchosen hplace h
    exact hemptied.at?_of_render (hchosen.dotless hold.sound).2 hrender hother

end

/-- A project with an old bundle: a directory stands where the data go, and a link leads out. -/
def staleBundle : FileTree :=
  ⟨[], [(["project"], .directory), (["project", "docgen"], .directory),
    (["project", "docgen", "docgen-data.json"], .directory),
    (["project", "docgen", "docgen-data.json", "old"], .link "old"),
    (["project", "docgen", "contracts"], .link "../../outside"), (["outside"], .directory)]⟩

/-- The project without a bundle. -/
def noBundle : FileTree :=
  staleBundle.remove ["project", "docgen"]

theorem oldBundles_sample : OldBundles ["project", "docgen"] noBundle staleBundle where
  sound := by decide +kernel
  sound' := by decide +kernel
  here := rfl
  old := .inl rfl
  old' := .inr rfl
  others other hother := by rw [noBundle, FileTree.at?_remove (by decide), if_neg hother]

theorem resolve_of_founded (options : Options) (hpath : options.outputPath = .ok (some "./docgen"))
    (hfounded : t.Founded ["project", "docgen"])
    (hold : t.at? ["project", "docgen"] = none ∨ t.at? ["project", "docgen"] = some .directory) :
    t.Plain ["project", "docgen"] ∧
      t.resolve (.ofTop ["project", "docgen"]) = .ok ["project", "docgen"] ∧
      Chosen t (.ofString "/project") options ["project"] ["project", "docgen"] := by
  have hplain : t.Plain ["project", "docgen"] := by
    refine hfounded.plain fun target => ?_
    rcases hold with hold | hold <;> simp [hold]
  have hroot : t.resolve (.ofTop ["project"]) = .ok ["project"] :=
    FileTree.resolve_of_nameable (by decide) (hplain.of_prefix (by decide)) (by decide)
  have hplace : t.resolve (.ofTop ["project", "docgen"]) = .ok ["project", "docgen"] :=
    FileTree.resolve_of_nameable (by decide) hplain (by decide)
  exact ⟨hplain, hplace, .of_resolve hroot hroot hpath hplace (by decide) (by decide)⟩

/-- A bundle without pages and index holds its data only. -/
theorem render_of_data {t : FileTree} {docs : Docs} {text : String} (htidy : t.Tidy)
    (hfounded : t.Founded ["project", "docgen"]) (hmissing : t.at? ["project", "docgen"] = none)
    (htext : Bundle.dataText docs render.jsonIndent = .ok text)
    (hpages : ∀ s, Bundle.writeMarkdown docs (.ofTop ["project", "docgen"]) render s = (.ok [], s))
    (hindex : ∀ s, Bundle.writeIndex docs (.ofTop ["project", "docgen"]) render s = (.ok [], s)) :
    Bundle.render docs (.ofTop ["project", "docgen"]) render t =
      (.ok [.ofTop ["project", "docgen", "docgen-data.json"]],
        (t.put ["project", "docgen"] .directory).put ["project", "docgen", "docgen-data.json"]
          (.file text.toUTF8)) := by
  have hplain : t.Plain ["project", "docgen"] := hfounded.plain (by simp [hmissing])
  have hlocate : t.locate false (.ofTop ["project", "docgen"]) =
      .ok (["project", "docgen"], none) := by
    rw [FileTree.Nameable.locate_eq (by decide) false hplain (by decide) hfounded, hmissing]
  have hmake := FileTree.makeDirectories_of_missing (by decide) hlocate
  have hdata := Bundle.write_of_founded (t := t.put ["project", "docgen"] .directory)
    ["project", "docgen"] ["docgen-data.json"] (by decide) (by decide) (by decide) (by decide)
    (by decide) ?_ ?_ text
  · exact Bundle.render_eq_ok hmake htext hdata (hpages _) (hindex _)
  · have htidy' : (t.put ["project", "docgen"] .directory).Tidy :=
      htidy.put (by decide) hfounded (by simp [hmissing])
    have hdirectory : (t.put ["project", "docgen"] .directory).at? ["project", "docgen"] =
        some .directory := by
      rw [FileTree.at?_put (by decide), if_pos rfl]
    exact htidy'.founded_concat hdirectory "docgen-data.json"
  · left
    rw [FileTree.at?_put (by decide), if_neg (by decide)]
    exact htidy.none_of_prefix (by decide) hmissing

/-- Without contracts, and with a page for nothing, a bundle holds its data only. -/
theorem exists_render_noContracts {t : FileTree} (htidy : t.Tidy)
    (hfounded : t.Founded ["project", "docgen"]) (hmissing : t.at? ["project", "docgen"] = none) :
    ∃ text, Bundle.dataText [] (.int 2) = .ok text ∧
      Bundle.render [] (.ofTop ["project", "docgen"]) { includeHtml := false } t =
        (.ok [.ofTop ["project", "docgen", "docgen-data.json"]],
          (t.put ["project", "docgen"] .directory).put ["project", "docgen", "docgen-data.json"]
            (.file text.toUTF8)) := by
  obtain ⟨text, htext⟩ : ∃ text, Bundle.dataText [] (.int 2) = .ok text := ⟨_, rfl⟩
  exact ⟨text, htext,
    render_of_data htidy hfounded hmissing htext (fun _ => rfl) fun _ => rfl⟩

/-- Without a bundle, one without contracts is written. -/
theorem runDocgen_noBundle : ∃ report s,
    runDocgen (.ofString "/project") { clear := .bool true } (some noContracts)
      { includeHtml := false } false noBundle = (.ok report, s) := by
  obtain ⟨hplain, -, hchosen⟩ :=
    resolve_of_founded (t := noBundle) { clear := .bool true } rfl (by decide) (.inl rfl)
  have hlocate : noBundle.locate true (.ofTop ["project", "docgen"]) =
      .ok (["project", "docgen"], none) :=
    FileTree.Nameable.locate_eq (by decide) true hplain (by decide) (by decide)
  have hholds : noBundle.holds (.ofTop ["project", "docgen"]) = .ok false := by
    rw [FileTree.holds, FileTree.lookup_of_noNull (by decide), FileTree.status, hlocate]
    rfl
  have hclear : clearOutput (.ofTop ["project", "docgen"]) noBundle = (.ok (), noBundle) := by
    rw [clearOutput_apply, hholds]
  have hplan : plan noBundle (.ofString "/project") { clear := .bool true } (some noContracts)
      false = .ok ⟨.ofTop ["project", "docgen"], [], []⟩ := by
    rw [plan_of_chosen hchosen]
    rfl
  obtain ⟨text, -, hrender⟩ :=
    exists_render_noContracts oldBundles_sample.sound.tidy (by decide) rfl
  have hwrite := (congrFun (writeOut_eq { clear := .bool true } { includeHtml := false }
    ⟨.ofTop ["project", "docgen"], [], []⟩) noBundle).trans
      ((bind_apply_of_ok _ hclear).trans hrender)
  rw [runDocgen_of_plan hplan, bind_apply_of_ok _ hwrite, pure_apply]
  exact ⟨_, _, rfl⟩

theorem runDocgen_of_clear_sample : ∃ report s s',
    runDocgen (.ofString "/project") { clear := .bool true } (some noContracts)
      { includeHtml := false } false noBundle = (.ok report, s) ∧
    runDocgen (.ofString "/project") { clear := .bool true } (some noContracts)
      { includeHtml := false } false staleBundle = (.ok report, s') ∧
    (∀ place, s.at? place = s'.at? place) ∧
    ∀ target, s.at? ["project", "docgen", "contracts"] ≠ some (.link target) := by
  obtain ⟨-, hplace, hchosen⟩ :=
    resolve_of_founded (t := noBundle) { clear := .bool true } rfl (by decide) (.inl rfl)
  obtain ⟨-, hplace', hchosen'⟩ :=
    resolve_of_founded (t := staleBundle) { clear := .bool true } rfl (by decide) (.inr rfl)
  obtain ⟨report, s, hrun⟩ := runDocgen_noBundle
  obtain ⟨⟨s', hrun', hsame⟩, hexact⟩ := (runDocgen_of_clear rfl oldBundles_sample hchosen hchosen'
    hplace hplace' noContracts { includeHtml := false } false).2 report s hrun
  exact ⟨report, s, s', hrun, hrun', hsame, (hexact _ (by decide)).2.2⟩

end NatSpec
