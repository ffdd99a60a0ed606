import NatSpec.Proofs.Bundle.Written
import NatSpec.Proofs.FileTree.Laid

/-!
The files of a bundle. A bundle that was written has one file for its data, one for each contract if
pages are wanted, and one for its index if that is wanted, each in the place to which its path
resolved. Writing it laid down these files with the directories above them, so writing it again
changes nothing, and what is written depends on what stands in each place only.
-/

namespace NatSpec

theorem pairwise_of_forall₂ {α β : Type} {R : α → β → Prop} {S : α → α → Prop} {T : β → β → Prop}
    {l : List α} {u : List β} (h : List.Forall₂ R l u) (hl : l.Pairwise S)
    (himp : ∀ a b a' b', R a b → R a' b' → S a a' → T b b') : u.Pairwise T := by
  induction h with
  | nil => exact .nil
  | cons hab hrest ih =>
      obtain ⟨hfirst, hl⟩ := List.pairwise_cons.1 hl
      refine List.pairwise_cons.2 ⟨fun b' hb' => ?_, ih hl⟩
      obtain ⟨a', ha', hR⟩ := exists_left_of_forall₂ hrest hb'
      exact himp _ _ _ _ hab hR (hfirst a' ha')

open FileTree (Dotless Grows Settles Laid)

namespace Bundle

/-! ### Trees that hold the same -/

theorem respects_write (directory relative : Path) (content : String) :
    Respects (write directory relative content) := by
  refine .get_bind (fun t t' h => by rw [h.resolve, h.resolve]) fun t => ?_
  refine (Respects.liftFault _).bind fun target => (Respects.liftFault _).bind fun root => ?_
  split
  · exact (FileTree.respects_makeDirectories _).liftFiling.bind fun _ =>
      (FileTree.respects_writeText _ _).liftFiling.bind fun _ => .pure _
  · exact .throw _

theorem respects_writePages (directory : Path) (docs : Docs) :
    Respects (writePages directory docs) := by
  induction docs with
  | nil => exact .pure _
  | cons entry docs ih =>
      exact (Respects.liftFault _).bind fun page => (Respects.liftFault _).bind fun text =>
        (respects_write directory page text).bind fun _ => ih.bind fun _ => .pure _

/-- Once its directory is made, what the writing of a bundle gives and leaves depends on what stands
in each place only. -/
theorem agreesOn_render {t t' : FileTree} (docs : Docs) {directory : Location}
    (options : RenderOptions)
    (hmake : AgreesOn t t' (FileTree.makeDirectories (.ofTop directory))) :
    AgreesOn t t' (render docs (.ofTop directory) options) := by
  refine AgreesOn.tryCatch ?_ fun _ => .throw _
  rw [writeAll_eq]
  refine hmake.liftFiling.bind fun _ =>
    (Respects.liftFault _).bind fun text => (respects_write _ _ _).bind fun _ =>
      .bind ?_ fun _ => .bind ?_ fun _ => .pure _
  · unfold writeMarkdown
    split
    · exact respects_writePages _ docs
    · exact .pure _
  · unfold writeIndex
    split
    · exact (Respects.liftFault _).bind fun content => (respects_write _ _ _).bind fun _ => .pure _
    · exact .pure _

theorem respects_render (docs : Docs) (directory : Location) (options : RenderOptions) :
    Respects (render docs (.ofTop directory) options) :=
  fun t t' h => agreesOn_render docs options (FileTree.respects_makeDirectories directory t t' h)

/-! ### Writing that succeeds -/

section

variable {t t₁ t₂ t₃ t₄ : FileTree} {docs : Docs} {directory path : Path} {text : String}
  {options : RenderOptions} {pages index : List Path}

theorem writePages_cons (name : String) {doc : ContractDoc} {page : Path}
    (hpage : doc.pagePath = .ok page) (htext : Page.render doc = .ok text)
    (hwrite : write directory page text t = (.ok path, t₁))
    (hrest : writePages directory docs t₁ = (.ok pages, t₂)) :
    writePages directory ((name, doc) :: docs) t = (.ok (path :: pages), t₂) := by
  rw [writePages, hpage, bind_apply_of_ok _ (liftFault_apply _), htext,
    bind_apply_of_ok _ (liftFault_apply _), bind_apply_of_ok _ hwrite, bind_apply_of_ok _ hrest,
    pure_apply]

/-- A bundle is written if its directory and all of its files are. -/
theorem render_eq_ok (hmake : FileTree.makeDirectories directory t = (.ok (), t₁))
    (htext : dataText docs options.jsonIndent = .ok text)
    (hdata : write directory (.ofString dataFile) text t₁ = (.ok path, t₂))
    (hpages : writeMarkdown docs directory options t₂ = (.ok pages, t₃))
    (hindex : writeIndex docs directory options t₃ = (.ok index, t₄)) :
    render docs directory options t = (.ok (path :: pages ++ index), t₄) := by
  refine tryCatch_apply_of_ok _ ?_
  rw [writeAll_eq, bind_apply_of_ok _ (liftFiling_apply_of_ok hmake), htext,
    bind_apply_of_ok _ (liftFault_apply _), bind_apply_of_ok _ hdata, bind_apply_of_ok _ hpages,
    bind_apply_of_ok _ hindex, pure_apply]

end

/-! ### Files and their places -/

variable {t t' : FileTree} {directory out : Location} {docs : Docs} {options : RenderOptions}
  {written : List Path}

/-- A file of a bundle: the place to which its path resolved, the place to which that leads, which is
the same unless a link was left in it, and the text. -/
structure File where
  target : Location
  place : Location
  text : String

/-- A file was put inside the directory, where its path had resolved to, in the first tree or in one
that had grown from it. -/
structure Placed (t : FileTree) (directory out : Location) (relative : Path) (file : File) :
    Prop where
  inside : out <+: file.target
  resolved : ∃ s, s.Tidy ∧ Grows (fun _ => True) t s ∧
    s.resolve ((Path.ofTop directory).join relative) = .ok file.target
  leads : ∃ depth, t.Leads depth [] file.target file.place

theorem Placed.of_grows {relative : Path} {file : File} (h : Placed t' directory out relative file)
    (hgrows : Grows (fun _ => True) t t') : Placed t directory out relative file := by
  obtain ⟨s, htidy, hs, hresolve⟩ := h.resolved
  obtain ⟨depth, hleads⟩ := h.leads
  exact ⟨h.inside, ⟨s, htidy, trans_of (Grows _) hgrows hs, hresolve⟩, depth,
    hgrows.leads_iff.2 hleads⟩

theorem Placed.dotless {relative : Path} {file : File} (h : Placed t directory out relative file)
    (hdotless : Dotless directory) (hrelative : "." ∉ relative.parts) : Dotless file.target := by
  obtain ⟨s, -, -, hresolve⟩ := h.resolved
  have hstart := startOf_join_ofTop s directory relative
  exact FileTree.dotless_of_resolve hresolve (hstart ▸ List.not_mem_nil)
    (Path.noDot_join hdotless.noDot hrelative)

/-- If no link leads out of the directory then a file stands where its path resolved to. -/
theorem Placed.place_eq {relative : Path} {file : File} (h : Placed t directory out relative file)
    (hguarded : Guarded out t) : file.place = file.target := by
  obtain ⟨s, -, hs, hresolve⟩ := h.resolved
  obtain ⟨depth, hleads⟩ := h.leads
  have hplain := (hguarded.of_grows hs).plain_of_resolve (startOf_join_ofTop s directory relative)
    hresolve h.inside
  have hnoDots : ".." ∉ file.target := by
    rw [FileTree.resolve_eq_ok hresolve]
    exact Path.noDots_normalize List.not_mem_nil _
  have hleads' : s.Leads 0 [] file.target ([] ++ file.target) :=
    FileTree.leads_of_plain hplain hnoDots
  exact (hs.leads_iff.1 hleads).unique hleads'

/-- In a tree with the same links the path of a file resolves to the place where it was put. -/
theorem Placed.resolve_of_links {relative : Path} {file : File}
    (h : Placed t directory out relative file) (hguarded : Guarded out t)
    (hdotless : Dotless directory) (hrelative : "." ∉ relative.parts) (htidy' : t'.Tidy)
    (hlinks : ∀ place target,
      t.at? place = some (.link target) ↔ t'.at? place = some (.link target)) :
    t'.resolve ((Path.ofTop directory).join relative) = .ok file.target := by
  obtain ⟨s, htidy, hs, hresolve⟩ := h.resolved
  have hsame (place : Location) (target : String) :
      s.at? place = some (.link target) ↔ t'.at? place = some (.link target) :=
    ((hs.becomes place).link_iff target).trans (hlinks place target)
  have hplain := (hguarded.of_grows hs).plain_of_resolve (startOf_join_ofTop s directory relative)
    hresolve h.inside
  have hplain' : t'.Plain file.target := fun upper hupper target hlink =>
    hplain upper hupper target ((hsame upper target).2 hlink)
  refine FileTree.resolve_of_links htidy htidy' hsame ?_ hresolve
    (FileTree.locate_ne_tooManyLinks hplain' (h.dotless hdotless hrelative))
  rw [startOf_join_ofTop, startOf_join_ofTop]

def entriesOf (files : List File) : List (Location × Entry) :=
  files.map fun f => (f.place, .file f.text.toUTF8)

structure IsPage (t : FileTree) (directory out : Location) (doc : ContractDoc) (file : File) :
    Prop where
  text : Page.render doc = .ok file.text
  place : ∃ page, doc.pagePath = .ok page ∧ Placed t directory out page file

/-- A file for each contract if pages are wanted. -/
def ArePages (docs : Docs) (options : RenderOptions) (t : FileTree) (directory out : Location)
    (files : List File) : Prop :=
  if options.includeMarkdown then
    List.Forall₂ (fun entry file => IsPage t directory out entry.2 file) docs files
  else files = []

/-- A file for the index if it is wanted. -/
def IsIndex (docs : Docs) (options : RenderOptions) (t : FileTree) (directory out : Location)
    (files : List File) : Prop :=
  if options.includeHtml then
    ∃ file : File, files = [file] ∧ Index.render docs options.includeMarkdown = .ok file.text ∧
      Placed t directory out (.ofString indexFile) file
  else files = []

theorem ArePages.of_grows {files : List File} (h : ArePages docs options t' directory out files)
    (hgrows : Grows (fun _ => True) t t') : ArePages docs options t directory out files := by
  unfold ArePages at h ⊢
  split
  · rename_i hwanted
    rw [if_pos hwanted] at h
    refine h.imp ?_
    rintro entry file ⟨htext, page, hpage, hplace⟩
    exact ⟨htext, page, hpage, hplace.of_grows hgrows⟩
  · rename_i hnone
    rwa [if_neg hnone] at h

theorem IsIndex.of_grows {files : List File} (h : IsIndex docs options t' directory out files)
    (hgrows : Grows (fun _ => True) t t') : IsIndex docs options t directory out files := by
  unfold IsIndex at h ⊢
  split
  · rename_i hwanted
    rw [if_pos hwanted] at h
    obtain ⟨file, rfl, htext, hplace⟩ := h
    exact ⟨file, rfl, htext, hplace.of_grows hgrows⟩
  · rename_i hnone
    rwa [if_neg hnone] at h

/-- The files of a bundle in the order of writing. Its directory is the one to which `directory`
leads. -/
structure Files (docs : Docs) (options : RenderOptions) (t : FileTree) (directory out : Location) where
  data : File
  pages : List File
  index : List File
  leads : ∃ depth, t.Leads depth [] directory out
  data_text : dataText docs options.jsonIndent = .ok data.text
  data_place : Placed t directory out (.ofString dataFile) data
  pages_are : ArePages docs options t directory out pages
  index_is : IsIndex docs options t directory out index

namespace Files

variable (files : Files docs options t directory out)

/-- All files in the order of writing. -/
def all : List File :=
  files.data :: files.pages ++ files.index

/-- What the writing of the bundle lays down. -/
def items : List (Location × Entry) :=
  (out, .directory) :: entriesOf files.all

def paths : List Path :=
  files.all.map fun f => .ofTop f.target

theorem exists_isPage {file : File} (h : file ∈ files.pages) :
    ∃ entry ∈ docs, IsPage t directory out entry.2 file := by
  have hpages := files.pages_are
  unfold ArePages at hpages
  split at hpages
  · exact exists_left_of_forall₂ hpages h
  · rw [hpages] at h
    cases h

theorem exists_page (hwanted : options.includeMarkdown = true)
    {entry : String × ContractDoc} (h : entry ∈ docs) :
    ∃ file ∈ files.pages, IsPage t directory out entry.2 file := by
  have hpages := files.pages_are
  rw [ArePages, if_pos hwanted] at hpages
  exact exists_right_of_forall₂ hpages h

theorem placed_index {file : File} (h : file ∈ files.index) :
    Placed t directory out (.ofString indexFile) file := by
  have hindex := files.index_is
  unfold IsIndex at hindex
  split at hindex
  · obtain ⟨last, hlast, -, hplace⟩ := hindex
    rw [hlast, List.mem_singleton] at h
    exact h ▸ hplace
  · rw [hindex] at h
    cases h

theorem length_index_le : files.index.length ≤ 1 := by
  have hindex := files.index_is
  unfold IsIndex at hindex
  split at hindex
  · obtain ⟨last, hlast, -⟩ := hindex
    rw [hlast, List.length_singleton]
  · rw [hindex]
    exact Nat.zero_le 1

variable {files}

theorem mem_all {file : File} :
    file ∈ files.all ↔ file = files.data ∨ file ∈ files.pages ∨ file ∈ files.index := by
  rw [all, List.cons_append, List.mem_cons, List.mem_append]

theorem exists_placed {file : File} (h : file ∈ files.all) :
    ∃ relative, Placed t directory out relative file := by
  rcases mem_all.1 h with rfl | hpage | hindex
  · exact ⟨_, files.data_place⟩
  · obtain ⟨entry, -, hpage⟩ := files.exists_isPage hpage
    obtain ⟨page, -, hplace⟩ := hpage.place
    exact ⟨page, hplace⟩
  · exact ⟨_, files.placed_index hindex⟩

section

variable (hguarded : Guarded out t)
include hguarded

theorem inside {file : File} (h : file ∈ files.all) : out <+: file.place := by
  obtain ⟨relative, hplaced⟩ := exists_placed h
  rw [hplaced.place_eq hguarded]
  exact hplaced.inside

/-- A file that is new or changed when the bundle is laid down is one of its files. -/
theorem exists_of_file (hlaid : Laid files.items t t') {place : Location} {content : ByteArray}
    (hat : t'.at? place = some (.file content)) (hnew : t.at? place ≠ some (.file content)) :
    ∃ file ∈ files.all, file.target = place ∧ content = file.text.toUTF8 := by
  rcases List.mem_cons.1 (hlaid.mem_of_file hat hnew) with hdirectory | hmem
  · cases hdirectory
  · obtain ⟨file, hfile, heq⟩ := List.mem_map.1 hmem
    obtain ⟨rfl, hcontent⟩ := Prod.mk.inj heq
    obtain ⟨relative, hplaced⟩ := exists_placed hfile
    exact ⟨file, hfile, (hplaced.place_eq hguarded).symm, (Entry.file.inj hcontent).symm⟩

/-- Outside of its directory laying down the bundle makes no more than the directories above. -/
theorem at?_outside (hlaid : Laid files.items t t') {place : Location} (hoff : ¬out <+: place) :
    t'.at? place = if place <+: out then some .directory else t.at? place := by
  split
  · rename_i hup
    refine hlaid.above (out, .directory) List.mem_cons_self place hup ?_
    rintro rfl
    exact hoff List.prefix_rfl
  · rename_i hup
    refine hlaid.rest place fun item hitem habove => ?_
    rcases List.mem_cons.1 hitem with rfl | hitem
    · exact hup habove
    · obtain ⟨file, hfile, rfl⟩ := List.mem_map.1 hitem
      rcases List.prefix_or_prefix_of_prefix habove (inside hguarded hfile) with hprefix | hprefix
      · exact hup hprefix
      · exact hoff hprefix

theorem mem_paths {place : Location} :
    .ofTop place ∈ files.paths ↔ ∃ file ∈ files.all, file.place = place := by
  rw [paths, List.mem_map]
  refine exists_congr fun file => and_congr_right fun hfile => ?_
  obtain ⟨relative, hplaced⟩ := exists_placed hfile
  rw [hplaced.place_eq hguarded]
  exact ⟨fun h => congrArg Path.parts h, fun h => congrArg Path.ofTop h⟩

/-- Under paths all of which are different, each file stands when the bundle is laid down. -/
theorem at?_of_nodup (hpaths : files.paths.Nodup) (hlaid : Laid files.items t t') {file : File}
    (hfile : file ∈ files.all) : t'.at? file.place = some (.file file.text.toUTF8) := by
  have hkeys : (Table.keys (entriesOf files.all)).Nodup := by
    have hplaces : Table.keys (entriesOf files.all) = files.all.map File.target := by
      rw [Table.keys, entriesOf, List.map_map]
      refine List.map_congr_left fun file hfile => ?_
      obtain ⟨relative, hplaced⟩ := exists_placed hfile
      exact hplaced.place_eq hguarded
    rw [hplaces]
    refine List.Nodup.of_map Path.ofTop ?_
    rwa [List.map_map]
  have hmem : (file.place, Entry.file file.text.toUTF8) ∈ entriesOf files.all :=
    List.mem_map_of_mem hfile
  refine hlaid.item _ _ ?_
  rw [items, ← List.singleton_append, Table.get?_ofList_append, Table.ofList_of_nodup hkeys,
    Table.get?_of_mem hkeys hmem]
  rfl

/-- In a directory that was empty or missing there are the files of a bundle, the directories above
them, and nothing else. -/
theorem at?_of_empty (hlaid : Laid files.items t t')
    (hempty : ∀ place, out <+: place → t.at? place = none) {place : Location}
    (hplace : out <+: place) :
    ((∃ content, t'.at? place = some (.file content)) ↔ .ofTop place ∈ files.paths) ∧
      (t'.at? place = some .directory ↔
        ∃ file, .ofTop file ∈ files.paths ∧ place <+: file ∧ place ≠ file) ∧
      ∀ target, t'.at? place ≠ some (.link target) := by
  have habove (file : File) (hfile : file ∈ files.all) (hup : place <+: file.place)
      (hne : place ≠ file.place) : t'.at? place = some .directory := by
    have hitem : (file.place, Entry.file file.text.toUTF8) ∈ files.items :=
      List.mem_cons_of_mem _ (List.mem_map_of_mem hfile)
    exact hlaid.above _ hitem place hup hne
  have hbelow : (∃ file, .ofTop file ∈ files.paths ∧ place <+: file ∧ place ≠ file) ↔
      ∃ file ∈ files.all, place <+: file.place ∧ place ≠ file.place := by
    simp only [mem_paths hguarded]
    constructor
    · rintro ⟨_, ⟨file, hfile, rfl⟩, hup, hne⟩
      exact ⟨file, hfile, hup, hne⟩
    · rintro ⟨file, hfile, hup, hne⟩
      exact ⟨file.place, ⟨file, hfile, rfl⟩, hup, hne⟩
  rw [hbelow, mem_paths hguarded]
  by_cases hhere : ∃ file ∈ files.all, file.place = place
  · obtain ⟨file, hfile, rfl⟩ := hhere
    have hat : ∃ content, t'.at? file.place = some (.file content) := by
      have hitem : (file.place, Entry.file file.text.toUTF8) ∈ entriesOf files.all :=
        List.mem_map_of_mem hfile
      obtain ⟨entry, hentry⟩ : ∃ entry, (Table.ofList (entriesOf files.all)).get? file.place = some entry :=
        Table.exists_get?_ofList hitem
      obtain ⟨last, -, hlast⟩ := List.mem_map.1 (Table.mem_of_get?_ofList hentry)
      obtain rfl : Entry.file last.text.toUTF8 = entry := congrArg Prod.snd hlast
      refine ⟨last.text.toUTF8, hlaid.item _ _ ?_⟩
      rw [items, ← List.singleton_append, Table.get?_ofList_append, hentry]
      rfl
    obtain ⟨content, hat⟩ := hat
    refine ⟨iff_of_true ⟨content, hat⟩ ⟨file, hfile, rfl⟩, iff_of_false (by simp [hat]) ?_,
      by simp [hat]⟩
    rintro ⟨other, hother, hup, hne⟩
    rw [habove other hother hup hne] at hat
    cases hat
  · by_cases hup : ∃ file ∈ files.all, place <+: file.place
    · obtain ⟨file, hfile, hup⟩ := hup
      have hne : place ≠ file.place := fun heq => hhere ⟨file, hfile, heq.symm⟩
      have hat := habove file hfile hup hne
      exact ⟨iff_of_false (by simp [hat]) hhere, iff_of_true hat ⟨file, hfile, hup, hne⟩,
        by simp [hat]⟩
    · -- Not even the directory itself, above which the data stand.
      have hat : t'.at? place = none := by
        rw [hlaid.rest place, hempty place hplace]
        intro item hitem hprefix
        rcases List.mem_cons.1 hitem with rfl | hitem
        · exact hup ⟨files.data, mem_all.2 (.inl rfl),
            hprefix.trans (inside hguarded (mem_all.2 (.inl rfl)))⟩
        · obtain ⟨file, hfile, rfl⟩ := List.mem_map.1 hitem
          exact hup ⟨file, hfile, hprefix⟩
      refine ⟨iff_of_false (by simp [hat]) hhere, iff_of_false (by simp [hat]) ?_, by simp [hat]⟩
      rintro ⟨file, hfile, hprefix, -⟩
      exact hup ⟨file, hfile, hprefix⟩

end

end Files

/-! ### Writing -/

/-- Where its directory is there and no link is on the way, a file is written as its path says. -/
theorem write_of_founded (out parts : List String) (hdotless : Dotless out) (hparts : parts ≠ [])
    (hparts' : Dotless parts) (hname : FileTree.Nameable (out ++ parts))
    (hparent : FileTree.Nameable (out ++ parts.dropLast)) (hfounded : t.Founded (out ++ parts))
    (hat : t.at? (out ++ parts) = none ∨ ∃ content, t.at? (out ++ parts) = some (.file content))
    (text : String) :
    write (.ofTop out) ⟨.here, parts⟩ text t =
      (.ok (.ofTop (out ++ parts)), t.put (out ++ parts) (.file text.toUTF8)) := by
  have htargetDotless : Dotless (out ++ parts) :=
    ⟨by simp [hdotless.noDot, hparts'.noDot], by simp [hdotless.noDots, hparts'.noDots]⟩
  have hplain : t.Plain (out ++ parts) := by
    refine hfounded.plain fun target hlink => ?_
    rcases hat with hnone | ⟨content, hfile⟩
    · rw [hnone] at hlink
      cases hlink
    · rw [hfile] at hlink
      cases hlink
  have hne : parts.dropLast ≠ parts := by
    intro heq
    have hlength := congrArg List.length heq
    rw [List.length_dropLast] at hlength
    have hpos := List.length_pos_iff.2 hparts
    omega
  have hup : out ++ parts.dropLast <+: out ++ parts :=
    (List.prefix_append_right_inj out).2 parts.dropLast_prefix
  have hroot : t.resolve (.ofTop out) = .ok out :=
    FileTree.resolve_of_nameable (hname.noNull_of_prefix (List.prefix_append _ _))
      (hplain.of_prefix (List.prefix_append _ _)) hdotless
  have htarget : t.resolve ((Path.ofTop out).join ⟨.here, parts⟩) = .ok (out ++ parts) :=
    FileTree.resolve_of_nameable hname.noNull hplain htargetDotless
  have hin : isInside out (out ++ parts) = true :=
    List.isPrefixOf_iff_prefix.2 (List.prefix_append _ _)
  have hmake : FileTree.makeDirectories (.ofTop (out ++ parts).dropLast) t = (.ok (), t) := by
    rw [List.dropLast_append_of_ne_nil hparts]
    exact FileTree.makeDirectories_of_founded (htargetDotless.of_prefix hup) hparent
      (hfounded.of_prefix hup) (hfounded _ hup (by simpa using hne))
  have hwrite := FileTree.writeText_of_founded htargetDotless hname hfounded hplain (t := t)
    (by rcases hat with hnone | ⟨content, hfile⟩ <;> simp [*]) text
  rw [write_apply text hroot htarget, if_pos hin,
    bind_apply_of_ok _ (liftFiling_apply_of_ok ((bind_apply_of_ok _ hmake).trans hwrite)),
    pure_apply]

section

variable (hdotless : Dotless directory)
include hdotless

/-- A file that was written was laid down where its path leads. -/
theorem settles_write (htidy : t.Tidy)
    (hout : t.locate true (.ofTop directory) = .ok (out, some .directory)) {relative path : Path}
    (hrelative : "." ∉ relative.parts) {text : String}
    (h : write (.ofTop directory) relative text t = (.ok path, t')) :
    ∃ file : File, path = .ofTop file.target ∧ file.text = text ∧
      Placed t directory out relative file ∧
      Settles (entriesOf [file]) (write (.ofTop directory) relative text) t path t' := by
  obtain ⟨root, target, t₁, hroot, htarget, hinside, rfl, hmake, hwrite⟩ := exists_of_write h
  obtain ⟨depth, hleads⟩ := FileTree.leads_of_locate hdotless.noDot hout fun _ => nofun
  obtain rfl : root = out :=
    FileTree.resolve_of_leads hleads (hleads.noDots List.not_mem_nil) hroot
  have hstart := startOf_join_ofTop t directory relative
  have htargetDotless := FileTree.dotless_of_resolve htarget (hstart ▸ List.not_mem_nil)
    (Path.noDot_join hdotless.noDot hrelative)
  obtain ⟨place, hplace, hsettles⟩ := FileTree.settles_writeText htidy htargetDotless hmake hwrite
  have hgrows := hsettles.laid.grows
  obtain ⟨depth', hleads'⟩ := FileTree.leads_of_locate htargetDotless.noDot hplace fun _ => nofun
  refine ⟨⟨target, place, text⟩, rfl, rfl,
    ⟨hinside, ⟨t, htidy, .refl, htarget⟩, depth', hgrows.leads_iff.2 hleads'⟩, ?_⟩
  refine ⟨h, hsettles.tidy, hsettles.laid, fun s hs hgrown => ?_⟩
  obtain ⟨s', hrun, hs', hlaid⟩ := hsettles.again s hs hgrown
  refine ⟨s', ?_, hs', hlaid⟩
  have hall := trans_of (Grows _) hgrows hgrown
  have hroot' : s.resolve (.ofTop directory) = .ok root := by
    exact hall.resolve htidy hs hroot <|
      FileTree.locate_ne_tooManyLinks ((hall.leads_iff.1 hleads).plain FileTree.plain_nil)
        (FileTree.dotless_of_resolve hroot List.not_mem_nil hdotless.noDot)
  have htarget' : s.resolve ((Path.ofTop directory).join relative) = .ok target := by
    refine hall.resolve htidy hs htarget ?_
    rw [hgrown.keeps.locate hs hplace nofun]
    simp
  have hin : isInside root target = true := List.isPrefixOf_iff_prefix.2 hinside
  rw [write_apply text hroot' htarget', if_pos hin,
    bind_apply_of_ok _ (liftFiling_apply_of_ok hrun), pure_apply]

theorem settles_writePages (htidy : t.Tidy)
    (hout : t.locate true (.ofTop directory) = .ok (out, some .directory))
    (h : writePages (.ofTop directory) docs t = (.ok written, t')) :
    ∃ files, written = files.map (fun f : File => .ofTop f.target) ∧
      List.Forall₂ (fun entry file => IsPage t directory out entry.2 file) docs files ∧
      Settles (entriesOf files) (writePages (.ofTop directory) docs) t written t' := by
  induction docs generalizing t written with
  | nil =>
      obtain ⟨rfl, rfl⟩ := of_pure_apply h
      exact ⟨[], rfl, .nil, .pure htidy []⟩
  | cons entry docs ih =>
      obtain ⟨page, t₁, hpage', h⟩ := exists_of_bind_apply h
      obtain ⟨hpage, rfl⟩ := of_liftFault_apply hpage'
      obtain ⟨text, t₁, htext', h⟩ := exists_of_bind_apply h
      obtain ⟨htext, rfl⟩ := of_liftFault_apply htext'
      obtain ⟨path, t₁, hpath, h⟩ := exists_of_bind_apply h
      obtain ⟨rest, t₂, hrest, h⟩ := exists_of_bind_apply h
      obtain ⟨rfl, rfl⟩ := of_pure_apply h
      obtain ⟨file, rfl, rfl, hplace, hsettles⟩ := settles_write hdotless htidy hout
        (noDot_pagePath hpage) hpath
      obtain ⟨files, rfl, hfiles, hsettles'⟩ := ih hsettles.tidy
        (hsettles.laid.grows.locate_directory htidy hsettles.tidy hout) hrest
      refine ⟨file :: files, rfl, .cons ⟨htext, page, hpage, hplace⟩ (hfiles.imp ?_), ?_⟩
      · rintro entry other ⟨hother, page, hpage, hplace⟩
        exact ⟨hother, page, hpage, hplace.of_grows hsettles.laid.grows⟩
      · exact .of_liftFault hpage <| .of_liftFault htext <| hsettles.bind (hsettles'.map _)

theorem settles_writeMarkdown (htidy : t.Tidy)
    (hout : t.locate true (.ofTop directory) = .ok (out, some .directory))
    (h : writeMarkdown docs (.ofTop directory) options t = (.ok written, t')) :
    ∃ files, written = files.map (fun f : File => .ofTop f.target) ∧
      ArePages docs options t directory out files ∧
      Settles (entriesOf files) (writeMarkdown docs (.ofTop directory) options) t written t' := by
  unfold writeMarkdown at h ⊢
  split at h
  · rename_i hwanted
    obtain ⟨files, hwritten, hfiles, hsettles⟩ := settles_writePages hdotless htidy hout h
    refine ⟨files, hwritten, ?_, ?_⟩
    · rwa [ArePages, if_pos hwanted]
    · rwa [if_pos hwanted]
  · rename_i hnone
    obtain ⟨rfl, rfl⟩ := of_pure_apply h
    refine ⟨[], rfl, ?_, ?_⟩
    · rw [ArePages, if_neg hnone]
    · rw [if_neg hnone]
      exact .pure htidy []

theorem settles_writeIndex (htidy : t.Tidy)
    (hout : t.locate true (.ofTop directory) = .ok (out, some .directory))
    (h : writeIndex docs (.ofTop directory) options t = (.ok written, t')) :
    ∃ files, written = files.map (fun f : File => .ofTop f.target) ∧
      IsIndex docs options t directory out files ∧
      Settles (entriesOf files) (writeIndex docs (.ofTop directory) options) t written t' := by
  unfold writeIndex at h ⊢
  split at h
  · rename_i hwanted
    obtain ⟨text, t₁, htext', h⟩ := exists_of_bind_apply h
    obtain ⟨htext, rfl⟩ := of_liftFault_apply htext'
    obtain ⟨path, t₁, hpath, h⟩ := exists_of_bind_apply h
    obtain ⟨rfl, rfl⟩ := of_pure_apply h
    obtain ⟨file, rfl, rfl, hplace, hsettles⟩ := settles_write hdotless htidy hout
      (Path.noDot_ofString indexFile) hpath
    refine ⟨[file], rfl, ?_, ?_⟩
    · rw [IsIndex, if_pos hwanted]
      exact ⟨file, rfl, htext, hplace⟩
    · rw [if_pos hwanted]
      exact .of_liftFault htext (hsettles.map _)
  · rename_i hnone
    obtain ⟨rfl, rfl⟩ := of_pure_apply h
    refine ⟨[], rfl, ?_, ?_⟩
    · rw [IsIndex, if_neg hnone]
    · rw [if_neg hnone]
      exact .pure htidy []

/-- A bundle that was written laid down its files in the directory to which its path leads. -/
theorem settles_render (htidy : t.Tidy)
    (h : render docs (.ofTop directory) options t = (.ok written, t')) :
    ∃ out, ∃ files : Files docs options t directory out, written = files.paths ∧
      Settles files.items (render docs (.ofTop directory) options) t written t' ∧
      t'.locate true (.ofTop directory) = .ok (out, some .directory) := by
  obtain ⟨text, path, rest, t₁, t₂, htext, hmake, hdata, hrest, rfl⟩ := exists_of_render h
  obtain ⟨pages, t₃, hpages, hrest⟩ := exists_of_bind_apply hrest
  obtain ⟨index, t₄, hindex, hrest⟩ := exists_of_bind_apply hrest
  obtain ⟨rfl, rfl⟩ := of_pure_apply hrest
  obtain ⟨out, hout₁, hmade⟩ := FileTree.settles_makeDirectories htidy hdotless hmake
  obtain ⟨data, rfl, rfl, hdataPlace, hdataSettles⟩ := settles_write hdotless hmade.tidy hout₁
    (Path.noDot_ofString dataFile) hdata
  have hout₂ :=
    hdataSettles.laid.grows.locate_directory hmade.tidy hdataSettles.tidy hout₁
  obtain ⟨pageFiles, rfl, hpagesAre, hpagesSettle⟩ :=
    settles_writeMarkdown hdotless hdataSettles.tidy hout₂ hpages
  have hout₃ :=
    hpagesSettle.laid.grows.locate_directory hdataSettles.tidy hpagesSettle.tidy hout₂
  obtain ⟨indexFiles, rfl, hindexIs, hindexSettles⟩ :=
    settles_writeIndex hdotless hpagesSettle.tidy hout₃ hindex
  have hout₄ :=
    hindexSettles.laid.grows.locate_directory hpagesSettle.tidy hindexSettles.tidy hout₃
  have hgrows₂ := trans_of (Grows _) hmade.laid.grows hdataSettles.laid.grows
  have hgrows₃ := trans_of (Grows _) hgrows₂ hpagesSettle.laid.grows
  obtain ⟨depth, hleads⟩ := FileTree.leads_of_locate hdotless.noDot hout₁ fun _ => nofun
  refine ⟨out, ⟨data, pageFiles, indexFiles, ⟨depth, hmade.laid.grows.leads_iff.2 hleads⟩, htext,
    hdataPlace.of_grows hmade.laid.grows, hpagesAre.of_grows hgrows₂, hindexIs.of_grows hgrows₃⟩,
    ?_, ?_, hout₄⟩
  · simp [Files.paths, Files.all]
  · refine Settles.tryCatch ?_ _
    rw [writeAll_eq]
    have hitems : (out, Entry.directory) :: entriesOf (data :: pageFiles ++ indexFiles) =
        [(out, .directory)] ++
          (entriesOf [data] ++ (entriesOf pageFiles ++ entriesOf indexFiles)) := by
      simp [entriesOf]
    change Settles ((out, Entry.directory) :: entriesOf (data :: pageFiles ++ indexFiles)) _ t _ _
    rw [hitems]
    refine hmade.liftFiling.bind (.of_liftFault htext ?_)
    exact hdataSettles.bind (hpagesSettle.bind (hindexSettles.map _))

end

end Bundle

end NatSpec
