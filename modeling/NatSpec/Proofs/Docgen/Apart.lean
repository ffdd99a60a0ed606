import NatSpec.Proofs.Artifacts.Beside
import NatSpec.Proofs.Bundle.Final
import NatSpec.Proofs.Docgen.Order
import NatSpec.Proofs.Docgen.Rewritten

/-!
Bundles that are apart from what they are made of. This is said of the tree in which a run begins:
without the old bundle all paths lead where they led and the sources are read as they were, no file of
the new one is written over a source, and no page where artifacts are looked for. A bundle beside the
artifacts is apart from them. Where there are no links, a bundle in the artifact directory or above it
is apart from the artifacts as well, unless one of their files is cleared or overwritten.
-/

namespace NatSpec

open Artifacts (Beside Build IsOpen Layout Refers Source artifactPlace debugPlace landing
  openDirectory_eq_ok_iff)
open FileTree (Dotless Keeps)

variable {t t' s : FileTree} {options : Options} {render : RenderOptions}
  {output place rootPlace directory : Location} {docs : Docs} {root : String} {b : Build}

/-! ### Resolving again -/

/-- A directory that is there and is reached without links is where its path leads. -/
theorem locate_of_isDirectory (hplain : t.Plain directory) (hdotless : Dotless directory)
    (h : t.isDirectory (.ofTop directory) = .ok true) :
    t.locate true (.ofTop directory) = .ok (directory, some .directory) := by
  obtain ⟨-, dest, hdest⟩ := FileTree.isDirectory_eq_true_iff.1 h
  rcases FileTree.locate_of_plain true hplain hdotless with ⟨reason, hstop, -⟩ | hreach
  · cases hstop.symm.trans hdest
  · rw [hreach, (Prod.mk.inj (Except.ok.inj (hreach.symm.trans hdest))).2]

/-- All paths that a run resolves, it resolves in another tree as well, and in the same way. -/
structure SameWays (t t' : FileTree) (root : Path) (options : Options)
    (rootPlace output directory : Location) : Prop where
  chosen : Chosen t' root options rootPlace output
  readsFrom : ReadsFrom t' options rootPlace directory
  references : ∀ (p : Path) (place : Location) (v : Json), Refers t directory p →
    t.resolve p = .ok place → t.readJson (.ofTop place) = .ok v → t'.resolve p = .ok place

/-- A tree with the links of another one, which are links of a first one. -/
structure SameLinks (t s t' : FileTree) : Prop where
  here : s.here = t.here
  here' : t'.here = t.here
  tidy : s.Tidy
  tidy' : t'.Tidy
  fewer : ∀ place target, s.at? place = some (.link target) → t.at? place = some (.link target)
  same : ∀ place target, s.at? place = some (.link target) ↔ t'.at? place = some (.link target)

section

variable (hsound : t.Sound) (hloop : t.LoopFree)
include hsound hloop

/-- If the first tree has no loops then what resolves there and with fewer links to the same place
does so wherever these are the links. -/
theorem SameLinks.resolve (h : SameLinks t s t') {p : Path} (hp : "." ∉ p.parts)
    (hfirst : t.resolve p = .ok place) (hresolve : s.resolve p = .ok place) :
    t'.resolve p = .ok place := by
  obtain ⟨hstart, hdotless⟩ := hsound.startOf p
  have hplain := hloop.plain_of_resolve hstart hdotless.noDots hfirst
  have hplain' : t'.Plain place := fun upper hupper target hlink =>
    hplain upper hupper target (h.fewer _ _ ((h.same _ _).2 hlink))
  have hstart' : t'.startOf p = s.startOf p := by
    unfold FileTree.startOf
    rw [h.here, h.here']
  exact FileTree.resolve_of_links h.tidy h.tidy' h.same hstart' hresolve <|
    FileTree.locate_ne_tooManyLinks hplain'
      (FileTree.dotless_of_resolve hfirst hdotless.noDot hp)

variable (hchosen : Chosen t (.ofString root) options rootPlace output)
include hchosen

/-- The root resolves to a place that resolves to itself. -/
theorem Chosen.root_eq : t.Plain rootPlace ∧ Dotless rootPlace ∧
    t.resolve (.ofTop rootPlace) = .ok rootPlace := by
  obtain ⟨hstart, hstartDotless⟩ := hsound.startOf (.ofString root)
  have hplain := hloop.plain_of_resolve hstart hstartDotless.noDots hchosen.root
  have hdotless := FileTree.dotless_of_resolve hchosen.root hstartDotless.noDot
    (Path.noDot_ofString root)
  obtain ⟨path, -, houtput⟩ := hchosen.output
  obtain ⟨place, hplace, -⟩ := outputDirectory_eq_ok houtput
  obtain rfl := FileTree.resolve_of_plain hplain hdotless.noDots hplace
  exact ⟨hplain, hdotless, hplace⟩

variable (hreads : ReadsFrom t options rootPlace directory)
include hreads

/-- The artifact directory is there and is reached without links. -/
theorem ReadsFrom.locate : t.Plain directory ∧ Dotless directory ∧
    t.locate true (.ofTop directory) = .ok (directory, some .directory) := by
  obtain ⟨artifacts, -, hopened⟩ := hreads
  obtain ⟨hresolve, hthere⟩ := openDirectory_eq_ok_iff.1 hopened
  obtain ⟨-, hroot, -⟩ := Chosen.root_eq hsound hloop hchosen
  have hstart := Bundle.startOf_join_ofTop t rootPlace (.ofString artifacts)
  have hplain : t.Plain directory :=
    hloop.plain_of_resolve (hstart ▸ FileTree.plain_nil) (hstart ▸ List.not_mem_nil) hresolve
  have hdotless := FileTree.dotless_of_resolve hresolve (hstart ▸ List.not_mem_nil)
    (Path.noDot_div hroot.noDot _)
  exact ⟨hplain, hdotless, locate_of_isDirectory hplain hdotless hthere⟩

omit hsound hloop in
theorem SameWays.refl : SameWays t t (.ofString root) options rootPlace output directory :=
  ⟨hchosen, hreads, fun _ _ _ _ hresolve _ => hresolve⟩

/-- With the same links, and with the artifact directory in its place, no path is led astray. -/
theorem SameWays.of_links (h : SameWays t s (.ofString root) options rootPlace output directory)
    (hlinks : SameLinks t s t') (hthere : t'.at? directory = some .directory) :
    SameWays t t' (.ofString root) options rootPlace output directory := by
  obtain ⟨hrootPlain, hroot, hroots⟩ := Chosen.root_eq hsound hloop hchosen
  obtain ⟨hplain, hdotless, hlocate⟩ := ReadsFrom.locate hsound hloop hchosen hreads
  have hresolve {p : Path} {found : Location} (hp : "." ∉ p.parts)
      (hfirst : t.resolve p = .ok found) (hfound : s.resolve p = .ok found) :
      t'.resolve p = .ok found :=
    hlinks.resolve hsound hloop hp hfirst hfound
  have hplainAt : s.Plain rootPlace := fun upper hupper target hlink =>
    hrootPlain upper hupper target (hlinks.fewer _ _ hlink)
  refine ⟨?_, ?_, fun p place v hrefers hp hread => ?_⟩
  · obtain ⟨path, hpath, houtput⟩ := hchosen.output
    obtain ⟨path', hpath', houtput'⟩ := h.chosen.output
    obtain rfl := Except.ok.inj (hpath.symm.trans hpath')
    obtain ⟨first, hfirst, hplace, hinside, hne⟩ := outputDirectory_eq_ok houtput
    obtain ⟨second, hsecond, hplace', -⟩ := outputDirectory_eq_ok houtput'
    obtain rfl := Except.ok.inj (hroots.symm.trans hfirst)
    obtain rfl := FileTree.resolve_of_plain hplainAt hroot.noDots hsecond
    exact .of_resolve (hresolve (Path.noDot_ofString root) hchosen.root h.chosen.root)
      (hresolve hroot.noDot hroots hsecond) hpath
      (hresolve (Path.noDot_div hroot.noDot _) hplace hplace') hinside hne
  · obtain ⟨artifacts, hartifacts, hopened⟩ := hreads
    obtain ⟨artifacts', hartifacts', hreopened⟩ := h.readsFrom
    obtain rfl := Except.ok.inj (hartifacts.symm.trans hartifacts')
    obtain ⟨hdirectory, hisThere⟩ := openDirectory_eq_ok_iff.1 hopened
    obtain ⟨hdirectory', -⟩ := openDirectory_eq_ok_iff.1 hreopened
    obtain ⟨hnull, -⟩ := FileTree.isDirectory_eq_true_iff.1 hisThere
    have hat := (FileTree.founded_of_locate hsound.tidy hlocate).1
    obtain ⟨hshort, -⟩ := (FileTree.locate_eq_iff true hplain hdotless).1 (hat ▸ hlocate)
    have hplain' := hlinks.tidy'.plain hthere (by simp)
    have hlocate' := (FileTree.locate_eq_iff true hplain' hdotless).2
      ⟨hshort, hlinks.tidy'.founded hthere⟩
    rw [hthere] at hlocate'
    exact ⟨artifacts, hartifacts, openDirectory_eq_ok_iff.2
      ⟨hresolve (Path.noDot_div hroot.noDot _) hdirectory hdirectory',
        FileTree.isDirectory_eq_true_iff.2 ⟨hnull, _, hlocate'⟩⟩⟩
  · have hp' := h.references p place v hrefers hp hread
    obtain ⟨c, id, w, reference, path, -, -, -, -, hpath, rfl⟩ := hrefers
    have hdebug : "." ∉ (Artifacts.debugPath directory id).parts :=
      Path.noDot_div (Path.noDot_div hdotless.noDot _) _
    exact hresolve (Path.noDot_join (fun h => hdebug (List.dropLast_subset _ h))
      (Artifacts.noDot_referencePath hpath)) hp hp'

end

/-! ### Without the old bundle -/

/-- The tree in which a bundle is written: if the old one is to be cleared, without what is in it. -/
def Options.emptied (options : Options) (t : FileTree) (output : Location) : FileTree :=
  if options.clear.truthy then t.clearBelow output else t

theorem at?_emptied (options : Options) (t : FileTree) (output place : Location) :
    (options.emptied t output).at? place =
      if options.clear.truthy = true ∧ output <+: place ∧ place ≠ output then none
      else t.at? place := by
  unfold Options.emptied
  by_cases hclear : options.clear.truthy = true
  · rw [if_pos hclear, FileTree.at?_clearBelow]
    simp [hclear]
  · rw [if_neg hclear, if_neg fun h => hclear h.1]

theorem at?_of_emptied {stands : Entry}
    (h : (options.emptied t output).at? place = some stands) : t.at? place = some stands := by
  rw [at?_emptied] at h
  split at h
  · cases h
  · exact h

theorem here_emptied (options : Options) (t : FileTree) (output : Location) :
    (options.emptied t output).here = t.here := by
  unfold Options.emptied
  split <;> rfl

theorem tidy_emptied (htidy : t.Tidy) : (options.emptied t output).Tidy := by
  unfold Options.emptied
  split
  · exact htidy.clearBelow output
  · exact htidy

/-- Clearing removes the emptied directory as well. -/
theorem at?_cleared_of_ne (htidy : t.Tidy) (hne : output ≠ []) (hplace : place ≠ output) :
    (options.cleared t output).at? place = (options.emptied t output).at? place := by
  rw [at?_emptied]
  unfold Options.cleared
  by_cases hclear : options.clear.truthy = true
  · by_cases hat : t.at? output = some .directory
    · rw [if_pos ⟨hclear, hat⟩, FileTree.at?_remove hne]
      simp [hclear, hplace]
    · rw [if_neg fun h => hat h.2]
      split
      · rename_i hbelow
        by_contra hthere
        obtain ⟨stands, hstands⟩ := Option.ne_none_iff_exists'.1 hthere
        obtain ⟨-, ⟨rest, rfl⟩, hrest⟩ := hbelow
        exact hat (htidy.directory_of_append hstands (by simpa using hrest))
      · rfl
  · rw [if_neg fun h => hclear h.1, if_neg fun h => hclear h.1]

/-! ### Bundles that are apart -/

/-- The paths of the pages of a bundle and of its index. -/
inductive IsView (docs : Docs) (render : RenderOptions) : Path → Prop
  | page {entry : String × ContractDoc} {page : Path} : render.includeMarkdown = true →
      entry ∈ docs → entry.2.pagePath = .ok page → IsView docs render page
  | index : render.includeHtml = true → IsView docs render (.ofString Bundle.indexFile)

theorem IsView.noDot {file : Path} (h : IsView docs render file) : "." ∉ file.parts := by
  cases h with
  | page _ _ hpage => exact Bundle.noDot_pagePath hpage
  | index _ => exact Path.noDot_ofString _

/-- A path in the output directory resolves to a place in it. -/
def LandsIn (t : FileTree) (output : Location) (file : Path) (place : Location) : Prop :=
  output <+: place ∧ t.resolve ((Path.ofTop output).join file) = .ok place

/-- A bundle that will be apart from what it is made of. Without the old bundle, if that is to be
cleared, all paths lead where they led, and the sources are read as they were. No file of the bundle
is written over a source, and neither a page nor the index where artifacts are looked for. -/
structure Apart (t : FileTree) (root : Path) (options : Options) (render : RenderOptions)
    (rootPlace output directory : Location) (docs : Docs) : Prop where
  ways : SameWays t (options.emptied t output) root options rootPlace output directory
  sources : ∀ p text, Source t directory p → t.readText p = .ok text →
    (options.emptied t output).readText p = .ok text
  kept : ∀ p text place content, Source t directory p → t.readText p = .ok text →
    (options.emptied t output).locate true p = .ok (place, some (.file content)) →
    ∀ file, file = .ofString Bundle.dataFile ∨ IsView docs render file →
      ¬LandsIn (options.emptied t output) output file place
  pages : ∀ file, IsView docs render file → ∀ relative, IsOpen relative →
    ¬LandsIn (options.emptied t output) output file (directory ++ relative)

/-! ### Where there are no links -/

theorem not_endsWith_json {name : String} (h : name.toList.getLast? ≠ some 'n') :
    Text.endsWith name ".json" = false := by
  rw [Bool.eq_false_iff, Ne, Artifacts.endsWith_iff]
  rintro ⟨before, heq⟩
  rw [← heq] at h
  simp at h

/-- A page and the index stand in places whose names are not those of JSON files. -/
theorem exists_name_of_view (hsound : t.Sound)
    (hlinks : ∀ place target, t.at? place ≠ some (.link target)) (hdotless : Dotless output)
    {file : Path} (hfile : IsView docs render file)
    (h : t.resolve ((Path.ofTop output).join file) = .ok place) :
    ∃ upper name, place = upper ++ [name] ∧ Text.endsWith name ".json" = false := by
  have hend (p : Path) : ¬t.EndsInLink p := by
    rintro ⟨upper, target, -, hlink⟩
    exact hlinks _ _ hlink
  cases hfile with
  | page _ _ hpage =>
      obtain ⟨hne, stem, hname⟩ := Bundle.exists_name_of_pagePath hpage (.ofTop output)
      obtain ⟨upper, rfl⟩ := hsound.based.exists_of_resolve
        (Path.noDot_join hdotless.noDot (Bundle.noDot_pagePath hpage)) hne
        (hname ▸ Bundle.append_md_ne (by decide) stem) h (hend _)
      exact ⟨upper, _, rfl, hname ▸ not_endsWith_json (by simp [String.toList_append])⟩
  | index _ =>
      have hpath : Path.ofString Bundle.indexFile = ⟨.here, ["index.html"]⟩ := by decide
      have hjoin : (Path.ofTop output).join (.ofString Bundle.indexFile) =
          .ofTop (output ++ ["index.html"]) := by rw [hpath]; rfl
      rw [hjoin] at h
      obtain rfl := FileTree.resolve_of_plain (fun upper _ => hlinks upper)
        (by simp [hdotless.noDots]) h
      exact ⟨output, _, rfl, not_endsWith_json (by decide)⟩

/-- The files of a laid out build are those of JSON values, none of them named as the data are unless
it is the document. -/
theorem Artifacts.Layout.exists_name (h : Layout t directory b) {relative : Location}
    {content : ByteArray} (hat : t.at? (directory ++ relative) = some (.file content)) :
    ∃ upper name, relative = upper ++ [name] ∧ Text.endsWith name ".json" = true ∧
      (name = Bundle.dataFile → relative = b.documentPlace) := by
  have hends (stem : String) (ending : String) (hending : ending = ".json" ∨ ending = ".dbg.json") :
      Text.endsWith (stem ++ ending) ".json" = true := by
    rw [Artifacts.endsWith_iff, String.toList_append]
    refine List.IsSuffix.trans ?_ (List.suffix_append _ _)
    rcases hending with rfl | rfl <;> decide
  rcases h.only relative content hat with rfl | ⟨c, hc, rfl | rfl⟩
  · exact ⟨[Artifacts.buildInfoDirectory], _, rfl, hends _ _ (.inl rfl), fun _ => rfl⟩
  · refine ⟨_, _, rfl, hends _ _ (.inl rfl), fun hname => ?_⟩
    have hdata : c.name ++ ".json" = "docgen-data" ++ ".json" := hname
    have hlist := congrArg String.toList hdata
    rw [String.toList_append, String.toList_append] at hlist
    have hstem := List.append_cancel_right hlist
    exact absurd (hstem ▸ by decide : '-' ∈ c.name.toList)
      ((Build.isIdentifier_of_mem hc).not_mem (by decide))
  · refine ⟨_, _, rfl, hends _ _ (.inr rfl), fun hname => ?_⟩
    have hdebug : Text.endsWith (ContractName.debugFile c.name) ".dbg.json" = true := by
      rw [Artifacts.endsWith_iff, ContractName.debugFile, String.toList_append]
      exact List.suffix_append ..
    rw [hname] at hdebug
    exact absurd hdebug (by decide)

section

variable (hsound : t.Sound) (hloop : t.LoopFree)
  (hchosen : Chosen t (.ofString root) options rootPlace output)
  (hreads : ReadsFrom t options rootPlace directory)
include hsound hloop hchosen hreads

/-- Emptying the output directory leads no path astray if no link is cleared and the artifact
directory is still there. -/
theorem sameWays_emptied
    (hlinks : ∀ place target, output <+: place → t.at? place ≠ some (.link target))
    (hthere : (options.emptied t output).at? directory = some .directory) :
    SameWays t (options.emptied t output) (.ofString root) options rootPlace output directory := by
  refine (SameWays.refl hchosen hreads).of_links hsound hloop hchosen hreads
    ⟨rfl, here_emptied options t output, hsound.tidy, tidy_emptied hsound.tidy, fun _ _ => id,
      fun place target => ⟨fun hlink => ?_, at?_of_emptied⟩⟩ hthere
  rw [at?_emptied, if_neg fun hbelow => hlinks place target hbelow.2.1 hlink]
  exact hlink

/-- A bundle beside the artifacts is apart from them. -/
theorem apart_of_beside (hbeside : Beside t output directory) (render : RenderOptions)
    (docs : Docs) :
    Apart t (.ofString root) options render rootPlace output directory docs := by
  obtain ⟨-, -, hlocate⟩ := ReadsFrom.locate hsound hloop hchosen hreads
  have hne := (hchosen.confined hsound hloop).ne_top
  -- What is outside of the output directory is still there.
  have hkeeps (place : Location) (stands : Entry)
      (hat : (t.remove output).at? place = some stands) :
      (options.emptied t output).at? place = some stands := by
    rw [FileTree.at?_remove hne] at hat
    split at hat
    · cases hat
    · rename_i hoff
      rw [at?_emptied, if_neg fun hbelow => hoff hbelow.2.1, hat]
  have hfound (p : Path) (text : String) (hp : Source t directory p)
      (hread : t.readText p = .ok text) :
      ∃ place content, ¬output <+: place ∧
        (t.remove output).locate true p = .ok (place, some (.file content)) ∧
        (options.emptied t output).locate true p = .ok (place, some (.file content)) := by
    obtain ⟨place, content, hplace⟩ :=
      FileTree.exists_locate_of_readText (hbeside.sources p text hp hread)
    have hplace' := (Keeps.of_subset hkeeps).locate_path (tidy_emptied hsound.tidy) hp.start_ne
      hplace (by simp)
    rcases FileTree.locate_eq_ok hplace with hdirectory | ⟨-, hat, -⟩
    · cases hdirectory
    · rw [hkeeps _ _ hat] at hplace'
      refine ⟨place, content, fun hin => ?_, hplace, hplace'⟩
      rw [FileTree.at?_remove hne, if_pos hin] at hat
      cases hat
  constructor
  case ways =>
    refine sameWays_emptied hsound hloop hchosen hreads hbeside.noLinks ?_
    rw [at?_emptied, if_neg fun hbelow => hbeside.below hbelow.2.1]
    exact (FileTree.founded_of_locate hsound.tidy hlocate).1
  case sources =>
    intro p text hp hread
    obtain ⟨place, content, -, hplace, hplace'⟩ := hfound p text hp hread
    rw [FileTree.readText_of_locate (hplace'.trans hplace.symm), hbeside.sources p text hp hread]
  case kept =>
    intro p text place content hp hread hplace file _ hlands
    obtain ⟨place', content', hoff, -, hplace'⟩ := hfound p text hp hread
    obtain ⟨rfl, -⟩ := Prod.mk.inj (Except.ok.inj (hplace.symm.trans hplace'))
    exact hoff hlands.1
  case pages =>
    intro file _ relative _ hlands
    exact Artifacts.not_prefix_append hbeside.below hbeside.above relative hlands.1

/-- Where there are no links, a bundle anywhere is apart from the artifacts of a build unless one of
their files is cleared or the data are written over the document. -/
theorem apart_of_layout (h : Layout t directory b)
    (hlinks : ∀ place target, t.at? place ≠ some (.link target))
    (hcleared : options.clear.truthy = true → ∀ relative content,
      t.at? (directory ++ relative) = some (.file content) → ¬output <+: directory ++ relative)
    (hdocument : output ++ [Bundle.dataFile] ≠ directory ++ b.documentPlace)
    (render : RenderOptions) (docs : Docs) :
    Apart t (.ofString root) options render rootPlace output directory docs := by
  have hconfined := hchosen.confined hsound hloop
  have hdotless := hconfined.dotless
  have hnone (place : Location) (target : String) :
      (options.emptied t output).at? place ≠ some (.link target) :=
    fun hlink => hlinks place target (at?_of_emptied hlink)
  have htidy : (options.emptied t output).Tidy := tidy_emptied hsound.tidy
  -- All files of the artifact directory are still there.
  have hkept {relative : Location} {content : ByteArray}
      (hat : t.at? (directory ++ relative) = some (.file content)) :
      (options.emptied t output).at? (directory ++ relative) = some (.file content) := by
    rw [at?_emptied, if_neg fun hbelow => hcleared hbelow.1 relative content hat hbelow.2.1]
    exact hat
  have hresolve {file : Path} {place : Location} (hdot : "." ∉ file.parts)
      (hlands : LandsIn (options.emptied t output) output file place) :
      t.resolve ((Path.ofTop output).join file) = .ok place := by
    have hplace := FileTree.dotless_of_resolve hlands.2
      (Bundle.startOf_join_ofTop _ output file ▸ List.not_mem_nil)
      (Path.noDot_join hdotless.noDot hdot)
    refine FileTree.resolve_of_links htidy hsound.tidy
      (fun place target => iff_of_false (hnone place target) (hlinks place target)) ?_ hlands.2
      (FileTree.locate_ne_tooManyLinks (fun upper _ => hlinks upper) hplace)
    rw [Bundle.startOf_join_ofTop, Bundle.startOf_join_ofTop]
  constructor
  case ways =>
    refine sameWays_emptied hsound hloop hchosen hreads (fun place target _ => hlinks place target) ?_
    obtain ⟨content, hat, -⟩ := h.document
    exact htidy.directory_of_append (hkept hat) (by simp [Build.documentPlace])
  case sources =>
    intro p text hp hread
    obtain ⟨relative, content, rfl, hat⟩ := h.exists_of_source hp
    exact FileTree.readText_of_at? hsound htidy hat (hkept hat) hread
  case kept =>
    intro p text place content hp _ hplace file hfile hlands
    obtain ⟨relative, content', rfl, hat⟩ := h.exists_of_source hp
    obtain rfl : place = directory ++ relative := by
      rcases FileTree.locate_of_plain (t := options.emptied t output) true
        (fun upper _ => hnone upper) (hsound.dotless hat) with ⟨reason, hstop, -⟩ | hreach
      · cases hplace.symm.trans hstop
      · exact (Prod.mk.inj (Except.ok.inj (hplace.symm.trans hreach))).1
    obtain ⟨upper, name, rfl, hjson, hdata⟩ := h.exists_name hat
    rcases hfile with rfl | hview
    · have hpath : Path.ofString Bundle.dataFile = ⟨.here, [Bundle.dataFile]⟩ := by decide
      have hjoin : (Path.ofTop output).join (.ofString Bundle.dataFile) =
          .ofTop (output ++ [Bundle.dataFile]) := by rw [hpath]; rfl
      have hfound := hlands.2
      rw [hjoin] at hfound
      have hsame := FileTree.resolve_of_plain (fun upper _ => hnone upper)
        (by simp [hdotless.noDots, Bundle.dataFile]) hfound
      rw [← List.append_assoc] at hsame
      obtain rfl : name = Bundle.dataFile := List.singleton_inj.1 (List.append_inj' hsame rfl).2
      rw [List.append_assoc, hdata rfl] at hsame
      exact hdocument hsame.symm
    · obtain ⟨upper', name', hsame, hother⟩ :=
        exists_name_of_view hsound hlinks hdotless hview (hresolve hview.noDot hlands)
      rw [← List.append_assoc] at hsame
      obtain rfl : name = name' := List.singleton_inj.1 (List.append_inj' hsame rfl).2
      cases hjson.symm.trans hother
  case pages =>
    intro file hview relative hopen hlands
    obtain ⟨upper, name, hsame, hother⟩ :=
      exists_name_of_view hsound hlinks hdotless hview (hresolve hview.noDot hlands)
    have hlast : relative.getLast? = some name := by
      rw [← List.getLast?_append_of_ne_nil directory hopen.ne_nil, hsame, List.getLast?_concat]
    have hnamed := hopen.named
    rw [hlast, Option.any_some, Artifacts.isCandidate, hother] at hnamed
    cases hnamed

end

end NatSpec
