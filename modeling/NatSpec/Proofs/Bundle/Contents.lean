import NatSpec.Proofs.Bundle.Laid

/-!
What a bundle holds, as a list of files that are written one after another. A bundle is written
exactly if the texts of this list can be made, its directory can, and the files of the list are
written.
-/

namespace NatSpec

namespace Bundle

/-! ### A bundle as a list of files -/

def pageFile (doc : ContractDoc) : Except Fault (Path × String) := do
  let page ← doc.pagePath
  .ok (page, ← Page.render doc)

def pageFiles (docs : Docs) (options : RenderOptions) : Except Fault (List (Path × String)) :=
  if options.includeMarkdown then docs.mapM fun entry => pageFile entry.2 else .ok []

def indexFiles (docs : Docs) (options : RenderOptions) : Except Fault (List (Path × String)) :=
  if options.includeHtml then do
    .ok [(Path.ofString indexFile, ← Index.render docs options.includeMarkdown)]
  else .ok []

/-- The paths and the texts of all files of a bundle, in the order of writing. -/
def contents (docs : Docs) (options : RenderOptions) : Except Fault (List (Path × String)) := do
  let data ← dataText docs options.jsonIndent
  let pages ← pageFiles docs options
  let index ← indexFiles docs options
  .ok ((Path.ofString dataFile, data) :: pages ++ index)

/-- Writes files of a bundle, in order, and gives their resolved paths. -/
def writeEach (directory : Path) : List (Path × String) → Run (List Path)
  | [] => return []
  | (relative, text) :: rest => do
    let path ← write directory relative text
    return path :: (← writeEach directory rest)

variable {t t' t₁ : FileTree} {directory path relative : Path} {root target : Location}
  {docs : Docs} {options : RenderOptions} {written : List Path} {text : String}
  {files others : List (Path × String)}

theorem pageFile_eq_ok_iff {doc : ContractDoc} {file : Path × String} :
    pageFile doc = .ok file ↔ doc.pagePath = .ok file.1 ∧ Page.render doc = .ok file.2 := by
  rw [pageFile, bind_eq_ok_iff]
  constructor
  · rintro ⟨page, hpage, h⟩
    obtain ⟨text, htext, h⟩ := bind_eq_ok_iff.1 h
    obtain rfl := Except.ok.inj h
    exact ⟨hpage, htext⟩
  · rintro ⟨hpage, htext⟩
    exact ⟨file.1, hpage, bind_eq_ok_iff.2 ⟨file.2, htext, rfl⟩⟩

theorem pageFiles_eq_ok_iff :
    pageFiles docs options = .ok files ↔
      if options.includeMarkdown then
        List.Forall₂ (fun entry file => pageFile entry.2 = .ok file) docs files
      else files = [] := by
  unfold pageFiles
  split
  · exact mapM_eq_ok_iff
  · rw [Except.ok.injEq, eq_comm]

theorem indexFiles_eq_ok_iff :
    indexFiles docs options = .ok files ↔
      if options.includeHtml then
        ∃ text, Index.render docs options.includeMarkdown = .ok text ∧
          files = [(Path.ofString indexFile, text)]
      else files = [] := by
  unfold indexFiles
  split
  · simp only [bind_eq_ok_iff, Except.ok.injEq, @eq_comm _ files]
  · rw [Except.ok.injEq, eq_comm]

theorem exists_pageFiles (options : RenderOptions)
    (h : ∀ entry ∈ docs, ∃ file, pageFile entry.2 = .ok file) :
    ∃ files, pageFiles docs options = .ok files := by
  unfold pageFiles
  split
  · exact exists_mapM_eq_ok_iff.2 h
  · exact ⟨[], rfl⟩

theorem mem_pageFiles (h : pageFiles docs options = .ok files)
    (hwanted : options.includeMarkdown = true) {entry : String × ContractDoc}
    (hentry : entry ∈ docs) {file : Path × String} (hfile : pageFile entry.2 = .ok file) :
    file ∈ files := by
  rw [pageFiles_eq_ok_iff, if_pos hwanted] at h
  obtain ⟨other, hmem, hother⟩ := exists_right_of_forall₂ h hentry
  obtain rfl := Except.ok.inj (hfile.symm.trans hother)
  exact hmem

theorem exists_indexFiles (h : Index.render docs options.includeMarkdown = .ok text) :
    ∃ files, indexFiles docs options = .ok files ∧
      (options.includeHtml = true → (Path.ofString indexFile, text) ∈ files) := by
  simp only [indexFiles_eq_ok_iff]
  split
  · exact ⟨_, ⟨text, h, rfl⟩, fun _ => List.mem_singleton_self _⟩
  · rename_i hnone
    exact ⟨[], rfl, fun hwanted => absurd hwanted hnone⟩

theorem contents_eq_ok_iff :
    contents docs options = .ok files ↔
      ∃ data pages index, dataText docs options.jsonIndent = .ok data ∧
        pageFiles docs options = .ok pages ∧ indexFiles docs options = .ok index ∧
        files = (Path.ofString dataFile, data) :: pages ++ index := by
  simp only [contents, bind_eq_ok_iff, Except.ok.injEq]
  constructor
  · rintro ⟨data, hdata, pages, hpages, index, hindex, rfl⟩
    exact ⟨data, pages, index, hdata, hpages, hindex, rfl⟩
  · rintro ⟨data, pages, index, hdata, hpages, hindex, rfl⟩
    exact ⟨data, hdata, pages, hpages, index, hindex, rfl⟩

theorem writeEach_cons {file : Path × String} :
    writeEach directory (file :: files) t = (.ok written, t') ↔
      ∃ path rest t₁, write directory file.1 file.2 t = (.ok path, t₁) ∧
        writeEach directory files t₁ = (.ok rest, t') ∧ written = path :: rest := by
  constructor
  · intro h
    obtain ⟨path, t₁, hwrite, h⟩ := exists_of_bind_apply h
    obtain ⟨rest, t₂, hrest, h⟩ := exists_of_bind_apply h
    obtain ⟨rfl, rfl⟩ := of_pure_apply h
    exact ⟨path, rest, t₁, hwrite, hrest, rfl⟩
  · rintro ⟨path, rest, t₁, hwrite, hrest, rfl⟩
    rw [writeEach, bind_apply_of_ok _ hwrite, bind_apply_of_ok _ hrest, pure_apply]

theorem writeEach_append :
    writeEach directory (files ++ others) t = (.ok written, t') ↔
      ∃ first rest t₁, writeEach directory files t = (.ok first, t₁) ∧
        writeEach directory others t₁ = (.ok rest, t') ∧ written = first ++ rest := by
  induction files generalizing t written with
  | nil =>
      constructor
      · exact fun h => ⟨[], written, t, rfl, h, rfl⟩
      · rintro ⟨first, rest, t₁, hfirst, hrest, rfl⟩
        obtain ⟨rfl, rfl⟩ := of_pure_apply hfirst
        exact hrest
  | cons file files ih =>
      rw [List.cons_append, writeEach_cons]
      constructor
      · rintro ⟨path, _, t₁, hwrite, hboth, rfl⟩
        obtain ⟨first, rest, t₂, hfirst, hrest, rfl⟩ := ih.1 hboth
        exact ⟨path :: first, rest, t₂, writeEach_cons.2 ⟨path, first, t₁, hwrite, hfirst, rfl⟩,
          hrest, rfl⟩
      · rintro ⟨_, rest, t₂, hboth, hrest, rfl⟩
        obtain ⟨path, first, t₁, hwrite, hfirst, rfl⟩ := writeEach_cons.1 hboth
        exact ⟨path, first ++ rest, t₁, hwrite, ih.2 ⟨first, rest, t₂, hfirst, hrest, rfl⟩, rfl⟩

theorem writePages_eq_ok_iff :
    writePages directory docs t = (.ok written, t') ↔
      ∃ files, docs.mapM (fun entry => pageFile entry.2) = .ok files ∧
        writeEach directory files t = (.ok written, t') := by
  simp only [mapM_eq_ok_iff]
  induction docs generalizing t written with
  | nil =>
      constructor
      · exact fun h => ⟨[], .nil, h⟩
      · rintro ⟨files, hfiles, h⟩
        obtain rfl := List.forall₂_nil_left_iff.1 hfiles
        exact h
  | cons entry docs ih =>
      constructor
      · intro h
        obtain ⟨page, t₁, hpage', h⟩ := exists_of_bind_apply h
        obtain ⟨hpage, rfl⟩ := of_liftFault_apply hpage'
        obtain ⟨text, t₁, htext', h⟩ := exists_of_bind_apply h
        obtain ⟨htext, rfl⟩ := of_liftFault_apply htext'
        obtain ⟨path, t₁, hwrite, h⟩ := exists_of_bind_apply h
        obtain ⟨rest, t₂, hrest, h⟩ := exists_of_bind_apply h
        obtain ⟨rfl, rfl⟩ := of_pure_apply h
        obtain ⟨files, hfiles, heach⟩ := ih.1 hrest
        exact ⟨(page, text) :: files, .cons (pageFile_eq_ok_iff.2 ⟨hpage, htext⟩) hfiles,
          writeEach_cons.2 ⟨path, rest, t₁, hwrite, heach, rfl⟩⟩
      · rintro ⟨_, hall, hboth⟩
        obtain ⟨file, files, hfile, hfiles, rfl⟩ := List.forall₂_cons_left_iff.1 hall
        obtain ⟨path, rest, t₁, hwrite, heach, rfl⟩ := writeEach_cons.1 hboth
        obtain ⟨hpage, htext⟩ := pageFile_eq_ok_iff.1 hfile
        exact writePages_cons entry.1 hpage htext hwrite (ih.2 ⟨files, hfiles, heach⟩)

theorem writeMarkdown_eq_ok_iff :
    writeMarkdown docs directory options t = (.ok written, t') ↔
      ∃ files, pageFiles docs options = .ok files ∧
        writeEach directory files t = (.ok written, t') := by
  unfold writeMarkdown pageFiles
  split
  · exact writePages_eq_ok_iff
  · constructor
    · exact fun h => ⟨[], rfl, h⟩
    · rintro ⟨files, hfiles, h⟩
      obtain rfl := Except.ok.inj hfiles
      exact h

theorem writeIndex_eq_ok_iff :
    writeIndex docs directory options t = (.ok written, t') ↔
      ∃ files, indexFiles docs options = .ok files ∧
        writeEach directory files t = (.ok written, t') := by
  unfold writeIndex indexFiles
  split
  · constructor
    · intro h
      obtain ⟨text, t₁, htext', h⟩ := exists_of_bind_apply h
      obtain ⟨htext, rfl⟩ := of_liftFault_apply htext'
      obtain ⟨path, t₁, hwrite, h⟩ := exists_of_bind_apply h
      obtain ⟨rfl, rfl⟩ := of_pure_apply h
      exact ⟨_, bind_eq_ok_iff.2 ⟨text, htext, rfl⟩,
        writeEach_cons.2 ⟨path, [], t₁, hwrite, rfl, rfl⟩⟩
    · rintro ⟨files, hfiles, h⟩
      obtain ⟨text, htext, hfiles⟩ := bind_eq_ok_iff.1 hfiles
      obtain rfl := Except.ok.inj hfiles
      obtain ⟨path, rest, t₁, hwrite, hrest, rfl⟩ := writeEach_cons.1 h
      obtain ⟨rfl, rfl⟩ := of_pure_apply hrest
      rw [htext, bind_apply_of_ok _ (liftFault_apply _), bind_apply_of_ok _ hwrite, pure_apply]
  · constructor
    · exact fun h => ⟨[], rfl, h⟩
    · rintro ⟨files, hfiles, h⟩
      obtain rfl := Except.ok.inj hfiles
      exact h

/-- A bundle is written if its texts can be made, its directory can, and its files are written one
after another. -/
theorem render_eq_ok_iff :
    render docs directory options t = (.ok written, t') ↔
      ∃ files t₁, contents docs options = .ok files ∧
        FileTree.makeDirectories directory t = (.ok (), t₁) ∧
        writeEach directory files t₁ = (.ok written, t') := by
  constructor
  · intro h
    obtain ⟨data, path, _, t₁, t₂, hdata, hmake, hwrite, hrest, rfl⟩ := exists_of_render h
    obtain ⟨pages, t₃, hpages, hrest⟩ := exists_of_bind_apply hrest
    obtain ⟨index, t₄, hindex, hrest⟩ := exists_of_bind_apply hrest
    obtain ⟨rfl, rfl⟩ := of_pure_apply hrest
    obtain ⟨pageList, hpageList, heachPage⟩ := writeMarkdown_eq_ok_iff.1 hpages
    obtain ⟨indexList, hindexList, heachIndex⟩ := writeIndex_eq_ok_iff.1 hindex
    refine ⟨_, t₁, contents_eq_ok_iff.2 ⟨data, pageList, indexList, hdata, hpageList, hindexList,
      rfl⟩, hmake, writeEach_cons.2 ⟨path, pages ++ index, t₂, hwrite, ?_, rfl⟩⟩
    exact writeEach_append.2 ⟨pages, index, t₃, heachPage, heachIndex, rfl⟩
  · rintro ⟨files, t₁, hfiles, hmake, h⟩
    obtain ⟨data, pageList, indexList, hdata, hpageList, hindexList, rfl⟩ :=
      contents_eq_ok_iff.1 hfiles
    obtain ⟨path, _, t₂, hwrite, hrest, rfl⟩ := writeEach_cons.1 h
    obtain ⟨pages, index, t₃, hpages, hindex, rfl⟩ := writeEach_append.1 hrest
    exact render_eq_ok hmake hdata hwrite (writeMarkdown_eq_ok_iff.2 ⟨pageList, hpageList, hpages⟩)
      (writeIndex_eq_ok_iff.2 ⟨indexList, hindexList, hindex⟩)

/-- No path of a bundle's file has a single dot for a component. -/
theorem noDot_of_contents (h : contents docs options = .ok files) :
    ∀ file ∈ files, "." ∉ file.1.parts := by
  obtain ⟨data, pages, index, -, hpages, hindex, rfl⟩ := contents_eq_ok_iff.1 h
  rw [pageFiles_eq_ok_iff] at hpages
  rw [indexFiles_eq_ok_iff] at hindex
  have hpage : ∀ file ∈ pages, "." ∉ file.1.parts := by
    split at hpages
    · intro file hfile
      obtain ⟨entry, -, hentry⟩ := exists_left_of_forall₂ hpages hfile
      exact noDot_pagePath (pageFile_eq_ok_iff.1 hentry).1
    · simp [hpages]
  have hlast : ∀ file ∈ index, "." ∉ file.1.parts := by
    split at hindex
    · obtain ⟨text, -, rfl⟩ := hindex
      simpa using Path.noDot_ofString indexFile
    · simp [hindex]
  intro file hfile
  rw [List.cons_append, List.mem_cons, List.mem_append] at hfile
  rcases hfile with rfl | hfile | hfile
  · exact Path.noDot_ofString dataFile
  · exact hpage file hfile
  · exact hlast file hfile

end Bundle

end NatSpec
