import NatSpec.Proofs.Bundle.Written
import NatSpec.Proofs.Docgen.Frame

/-!
What a run that succeeds has written. It reports what it had planned, and the data of its bundle
were written before its other files.
-/

namespace NatSpec

variable {t t' : FileTree} {options : Options} {store : Option Store} {render : RenderOptions}
  {strict : Bool} {report : Report}

/-- A run that succeeds reports its plan, and what was written by it. -/
theorem exists_of_runDocgen {root : Path}
    (h : runDocgen root options store render strict t = (.ok report, t')) :
    ∃ p, plan t root options store strict = .ok p ∧
      report = ⟨p.output, p.docs, report.written, p.warnings⟩ ∧
      writeOut options render p t = (.ok report.written, t') := by
  cases hplan : plan t root options store strict with
  | error f =>
      rw [runDocgen_of_stops render (plan_eq_error_iff.1 hplan)] at h
      cases h
  | ok p =>
      rw [runDocgen_of_plan hplan] at h
      obtain ⟨written, t₁, hwrite, h⟩ := exists_of_bind_apply h
      obtain ⟨rfl, rfl⟩ := of_pure_apply h
      exact ⟨p, rfl, rfl, hwrite⟩

theorem exists_of_writeOut {p : Plan} {written : List Path}
    (h : writeOut options render p t = (.ok written, t')) :
    ∃ t₁, Bundle.render p.docs p.output render t₁ = (.ok written, t') := by
  rw [writeOut_eq] at h
  obtain ⟨_, t₁, -, h⟩ := exists_of_bind_apply h
  exact ⟨t₁, h⟩

/-- A run that succeeds has written the data of its contracts before its other files. They are still
in their file at the end unless a later file took its place, if no link leads back to itself. -/
theorem exists_data_of_runDocgen {root : String}
    (h : runDocgen (.ofString root) options store render strict t = (.ok report, t')) :
    ∃ text path rest t₁ t₂, Bundle.dataText report.docs render.jsonIndent = .ok text ∧
      Bundle.write report.output (.ofString Bundle.dataFile) text t₁ = (.ok path, t₂) ∧
      report.written = path :: rest ∧
      (t.Sound → t.LoopFree → path ∉ rest →
        ∃ place, path = .ofTop place ∧ t'.at? place = some (.file text.toUTF8)) := by
  obtain ⟨p, hplan, hreport, hwrite⟩ := exists_of_runDocgen h
  have hdocs : report.docs = p.docs := congrArg Report.docs hreport
  have houtput : report.output = p.output := congrArg Report.output hreport
  obtain ⟨t₀, hrender⟩ := exists_of_writeOut hwrite
  obtain ⟨text, path, rest, t₁, t₂, htext, -, hdata, -, hwritten⟩ := Bundle.exists_of_render hrender
  rw [hdocs, houtput]
  refine ⟨text, path, rest, t₁, t₂, htext, hdata, hwritten, fun hsound hloop hlast => ?_⟩
  obtain ⟨output, opened, listing, hlisted, hplace, -⟩ := exists_of_plan hplan
  obtain ⟨rootPlace, hchosen, -⟩ := hlisted.chosen
  have hconfined := hchosen.confined hsound hloop
  rcases writeOut_apply options render hsound hconfined hplace with ⟨f, hfailed, -⟩ | hcleared
  · rw [hfailed] at hwrite
    cases hwrite
  · rw [hwrite] at hcleared
    have hguarded := guarded_cleared options hloop hconfined.plain hconfined.ne_top
    obtain ⟨text', place, rest', htext', hwritten', -, hat⟩ :=
      Bundle.exists_data_of_render hconfined.dotless hguarded hcleared.symm
    obtain rfl := Except.ok.inj (htext.symm.trans htext')
    obtain ⟨rfl, rfl⟩ := List.cons.inj (hwritten.symm.trans hwritten')
    exact ⟨place, rfl, hat hlast⟩

/-- The data of a bundle were written before its other files, as a text of a value. What a file
system without looping links holds then holds that value at the end, unless a later file took its
place. -/
structure Report.HasData (report : Report) (t t' : FileTree) (v : Json) : Prop where
  written : ∃ text path rest t₁ t₂, Json.read text = .ok v ∧
    Bundle.write report.output (.ofString Bundle.dataFile) text t₁ = (.ok path, t₂) ∧
    report.written = path :: rest
  held : t.Sound → t.LoopFree → ∀ path rest, report.written = path :: rest → path ∉ rest →
    ∃ place content, path = .ofTop place ∧ t'.at? place = some (.file content) ∧
      FileTree.Holds content v

theorem hasData_of_runDocgen {root : String} {v : Json}
    (h : runDocgen (.ofString root) options store render strict t = (.ok report, t'))
    (hv : ∀ text, Bundle.dataText report.docs render.jsonIndent = .ok text →
      Json.read text = .ok v ∧ Text.withLineFeeds text = text) : report.HasData t t' v := by
  obtain ⟨text, path, rest, t₁, t₂, htext, hwrite, hwritten, hheld⟩ := exists_data_of_runDocgen h
  obtain ⟨hread, hlines⟩ := hv text htext
  refine ⟨⟨text, path, rest, t₁, t₂, hread, hwrite, hwritten⟩, ?_⟩
  intro hsound hloop first others hfirst hlast
  obtain ⟨rfl, rfl⟩ := List.cons.inj (hwritten.symm.trans hfirst)
  obtain ⟨place, hplace, hat⟩ := hheld hsound hloop hlast
  exact ⟨place, _, hplace, hat, FileTree.holds_toUTF8 (hlines.symm ▸ hread)⟩

end NatSpec
