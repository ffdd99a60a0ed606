import NatSpec.Proofs.Docgen.Cleared

/-!
What a run has laid down. After a run that succeeded the files of its bundle stand in the output
directory, and outside of it no more has been made than the directories above. Writing the bundle once
more writes the same files and leaves everything as it was, whether the old bundle is cleared or not.
-/

namespace NatSpec

open FileTree (Alike Dotless Settles)

variable {t t' s : FileTree} {options : Options} {render : RenderOptions} {strict : Bool}
  {output place rootPlace : Location} {docs : Docs} {written : List Path} {root : String}

namespace Emptied

section

variable (h : Emptied output place t s) (hdotless : Dotless output)
  (hrender : Bundle.render docs (.ofTop output) render s = (.ok written, t'))
include h hdotless hrender

/-- Outside the place of a bundle only directories above it have been made. -/
theorem at?_outside {other : Location} (hoff : ¬place <+: other) :
    t'.at? other = if other <+: place then some .directory else s.at? other := by
  obtain ⟨files, -, hguarded, hsettles, -⟩ := h.exists_files hdotless hrender
  exact files.at?_outside hguarded hsettles.laid hoff

/-- With the bundle removed, writing it once more does the same as before. -/
theorem agreesOn_render :
    AgreesOn s (t'.remove place) (Bundle.render docs (.ofTop output) render) := by
  refine Bundle.agreesOn_render docs render ?_
  obtain ⟨files, rfl, hguarded, hsettles, hlocate⟩ := h.exists_files hdotless hrender
  obtain ⟨s₁, hmake, hmade, hlocate₁, hbefore⟩ := h.made
  have hne := h.ne_nil
  have htidy₁ : s₁.Tidy := by
    have hkept := (FileTree.respects_makeDirectories output).tidy h.tidy
    rwa [hmake] at hkept
  have hremoved := hsettles.tidy.remove place
  -- Without the last directory, the tree with the directories is the one without the bundle.
  have hat (other : Location) (hoff : ¬place <+: other) : s₁.at? other = t'.at? other := by
    rw [hmade.at?, h.at?_outside hdotless hrender hoff]
  have halike : Alike (s₁.remove place) (t'.remove place) := by
    refine ⟨htidy₁.remove place, hremoved, ?_, fun other => ?_⟩
    · have hkept := FileTree.makeDirectories_grows (P := fun _ => True) (.ofTop output) s
      rw [hmake] at hkept
      exact hkept.here.trans hsettles.laid.grows.here.symm
    · rw [FileTree.at?_remove hne, FileTree.at?_remove hne]
      split
      · rfl
      · rename_i hoff
        exact hat other hoff
  have hlocate' : (t'.remove place).locate false (.ofTop output) = .ok (place, none) := by
    rw [← halike.locate, hbefore]
  have hmake' := FileTree.makeDirectories_of_missing h.noNull hlocate'
  obtain ⟨hnone, hfounded⟩ := FileTree.founded_of_locate hremoved hlocate'
  refine .of_ok hmake hmake' ⟨htidy₁, hremoved.put hne hfounded fun _ => rfl, halike.here,
    fun other => ?_⟩
  rw [FileTree.at?_put hne, FileTree.at?_remove hne]
  by_cases hbelow : place <+: other
  · rw [if_pos hbelow, hmade.at?, h.at?_below hbelow]
    refine if_congr ⟨fun hup => ?_, ?_⟩ rfl rfl
    · exact hbelow.eq_of_length (hbelow.length_le.antisymm hup.length_le)
    · rintro rfl
      exact List.prefix_rfl
  · have hne' : ¬place = other := by
      rintro rfl
      exact hbelow List.prefix_rfl
    rw [if_neg hbelow, if_neg hne', hat other hbelow]

end

end Emptied

/-! ### What a run has laid down -/

theorem at?_of_cleared (hne : output ≠ []) {stands : Entry}
    (h : (options.cleared t output).at? place = some stands) : t.at? place = some stands := by
  unfold Options.cleared at h
  split at h
  · rw [FileTree.at?_remove hne] at h
    split at h
    · cases h
    · exact h
  · exact h

theorem at?_cleared (hne : output ≠ []) (hoff : ¬output <+: place) :
    (options.cleared t output).at? place = t.at? place := by
  unfold Options.cleared
  split
  · rw [FileTree.at?_remove hne, if_neg hoff]
  · rfl

theorem here_cleared (options : Options) (t : FileTree) (output : Location) :
    (options.cleared t output).here = t.here := by
  unfold Options.cleared
  split <;> rfl

theorem tidy_cleared (htidy : t.Tidy) : (options.cleared t output).Tidy := by
  unfold Options.cleared
  split
  · exact htidy.remove output
  · exact htidy

section

variable (hsound : t.Sound) (hloop : t.LoopFree)
  (hchosen : Chosen t (.ofString root) options rootPlace output) {store : Option Store}
  {report : Report}
  (hrun : runDocgen (.ofString root) options store render strict t = (.ok report, t'))
include hsound hloop hchosen hrun

/-- A run that succeeds has written the bundle of its docs to the cleared output directory. -/
theorem exists_render_of_runDocgen :
    plan t (.ofString root) options store strict =
        .ok ⟨.ofTop output, report.docs, report.warnings⟩ ∧
      report.output = .ofTop output ∧
      Bundle.render report.docs (.ofTop output) render (options.cleared t output) =
        (.ok report.written, t') := by
  obtain ⟨p, hplan, hreport, hwrite⟩ := exists_of_runDocgen hrun
  obtain ⟨output', opened, listing, ⟨⟨rootPlace', hchosen', -⟩, -⟩, hp, -⟩ := exists_of_plan hplan
  obtain ⟨-, rfl⟩ := hchosen.unique hchosen'
  have houtput : report.output = p.output := congrArg Report.output hreport
  have hdocs : report.docs = p.docs := congrArg Report.docs hreport
  have hwarnings : report.warnings = p.warnings := congrArg Report.warnings hreport
  refine ⟨?_, houtput.trans hp, ?_⟩
  · rw [hplan, hdocs, hwarnings, ← hp]
  · rcases writeOut_apply options render hsound (hchosen.confined hsound hloop) hp with
      ⟨f, hfailed, -⟩ | hcleared
    · cases hfailed.symm.trans hwrite
    · rw [hdocs, ← hcleared, hwrite]

/-- The files of that bundle were laid down in the output directory. -/
theorem exists_files_of_runDocgen :
    ∃ files : Bundle.Files report.docs render (options.cleared t output) output output,
      report.written = files.paths ∧
      Settles files.items (Bundle.render report.docs (.ofTop output) render)
        (options.cleared t output) report.written t' ∧
      t'.locate true (.ofTop output) = .ok (output, some .directory) := by
  have hconfined := hchosen.confined hsound hloop
  obtain ⟨-, -, hrender⟩ := exists_render_of_runDocgen hsound hloop hchosen hrun
  obtain ⟨out, files, hwritten, hsettles, hlocate⟩ :=
    Bundle.settles_render hconfined.dotless (tidy_cleared hsound.tidy) hrender
  have hguarded := guarded_cleared options hloop hconfined.plain hconfined.ne_top
  obtain ⟨depth, hleads⟩ := files.leads
  obtain rfl : out = output :=
    hleads.unique (FileTree.leads_of_plain hguarded.plain hconfined.dotless.noDots)
  exact ⟨files, hwritten, hsettles, hlocate⟩

/-- Outside of the output directory the run has made no more than the directories above. -/
theorem at?_outside_of_runDocgen {place : Location} (hoff : ¬output <+: place) :
    t'.at? place = if place <+: output then some .directory else t.at? place := by
  have hconfined := hchosen.confined hsound hloop
  have hguarded := guarded_cleared options hloop hconfined.plain hconfined.ne_top
  obtain ⟨files, -, hsettles, -⟩ := exists_files_of_runDocgen hsound hloop hchosen hrun
  rw [files.at?_outside hguarded hsettles.laid hoff, at?_cleared hconfined.ne_top hoff]

/-- Writing the bundle of a run once more gives the same and leaves the tree as it was. -/
theorem exists_writeOut_again (warnings : List String) :
    ∃ s, writeOut options render ⟨.ofTop output, report.docs, warnings⟩ t' =
      (.ok report.written, s) ∧ ∀ place, s.at? place = t'.at? place := by
  have hconfined := hchosen.confined hsound hloop
  obtain ⟨files, -, hsettles, hlocate⟩ := exists_files_of_runDocgen hsound hloop hchosen hrun
  by_cases hclear : options.clear.truthy = true
  · have hname : FileTree.holdsNull (.ofTop output) = false := by
      obtain ⟨-, -, hrender⟩ := exists_render_of_runDocgen hsound hloop hchosen hrun
      obtain ⟨-, -, -, s, -, -, hmake, -⟩ := Bundle.exists_of_render hrender
      exact (FileTree.ensured_of_makeDirectories (tidy_cleared hsound.tidy) hconfined.dotless
        hmake).noNull
    have hplace := FileTree.resolve_of_nameable hname hconfined.plain hconfined.dotless
    obtain ⟨s, -, -, -, hemptied, hrender⟩ :=
      exists_emptied_of_runDocgen hclear hsound hchosen hplace hrun
    have hdirectory := (FileTree.founded_of_locate hsettles.tidy hlocate).1
    have hcleared := hemptied.clearOutput_eq hconfined.ne_top hconfined.dotless hsettles.tidy
      hdirectory fun other hup hoff => by
        rw [hemptied.at?_outside hconfined.dotless hrender hoff, if_neg hup]
    obtain ⟨hresult, hleft⟩ := hemptied.agreesOn_render hconfined.dotless hrender
    rw [hrender] at hresult hleft
    refine ⟨_, ?_, fun place => (hleft.same place).symm⟩
    rw [writeOut_eq, if_pos hclear]
    exact (bind_apply_of_ok _ hcleared).trans (Prod.ext hresult.symm rfl)
  · obtain ⟨s, hagain, -, hsame⟩ := hsettles.twice
    refine ⟨s, ?_, hsame⟩
    rw [writeOut_eq, if_neg hclear]
    exact (bind_apply_of_ok _ (pure_apply _)).trans hagain

end

end NatSpec
