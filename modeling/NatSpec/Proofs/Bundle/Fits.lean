import Mathlib.Data.List.Forall2
import NatSpec.Proofs.Bundle.Contents
import NatSpec.Proofs.FileTree.Opened
import NatSpec.Proofs.FileTree.Room

/-!
When a bundle is written. If no link leads out of its directory then its files are written exactly
if each of them lands inside, where there is room for it, and no two of them are above one another;
and what is left is these files, later ones over earlier ones, the directories above them, and all
else as it was.
-/

namespace NatSpec

theorem exists_of_forall₂_append {α β : Type} {R : α → β → Prop} {l₁ l₂ : List α} {u : List β}
    (h : List.Forall₂ R (l₁ ++ l₂) u) :
    ∃ u₁ u₂, List.Forall₂ R l₁ u₁ ∧ List.Forall₂ R l₂ u₂ ∧ u = u₁ ++ u₂ :=
  ⟨u.take l₁.length, u.drop l₁.length, (List.forall₂_take_append _ _ _ h.flip).flip,
    (List.forall₂_drop_append _ _ _ h.flip).flip, (List.take_append_drop ..).symm⟩

theorem forall₂_comp_iff {α β γ : Type} {R : α → β → Prop} {S : β → γ → Prop} {l : List α}
    {w : List γ} :
    List.Forall₂ (fun a c => ∃ b, R a b ∧ S b c) l w ↔
      ∃ u, List.Forall₂ R l u ∧ List.Forall₂ S u w := by
  constructor
  · intro h
    induction h with
    | nil => exact ⟨[], .nil, .nil⟩
    | cons hac _ ih =>
        obtain ⟨b, hab, hbc⟩ := hac
        obtain ⟨u, hleft, hright⟩ := ih
        exact ⟨b :: u, .cons hab hleft, .cons hbc hright⟩
  · rintro ⟨u, hleft, hright⟩
    induction hleft generalizing w with
    | nil =>
        obtain rfl := List.forall₂_nil_left_iff.1 hright
        exact .nil
    | cons hab _ ih =>
        obtain ⟨c, w, hbc, hrest, rfl⟩ := List.forall₂_cons_left_iff.1 hright
        exact .cons ⟨_, hab, hbc⟩ (ih hrest)

open FileTree (Dotless Grows Laid Unnested Based)

namespace Bundle

variable {t t' t₁ : FileTree} {directory path relative : Path} {root target : Location}
  {docs : Docs} {options : RenderOptions} {written : List Path} {text : String}
  {files : List (Path × String)} {items : List (Location × Entry)}

/-! ### Writing inside -/

/-- The path of a bundle's directory resolves to a place out of which no link leads. -/
structure Opened (directory : Path) (root : Location) (t : FileTree) : Prop where
  based : t.Based
  noDot : "." ∉ directory.parts
  resolve : t.resolve directory = .ok root
  guarded : Guarded root t

/-- What stands where a file of a bundle is written: its path resolves to a place inside. -/
structure Lands (t : FileTree) (directory : Path) (root : Location) (file : Path × String)
    (item : Location × Entry) : Prop where
  noDot : "." ∉ file.1.parts
  resolve : t.resolve (directory.join file.1) = .ok item.1
  inside : root <+: item.1
  entry : item.2 = .file file.2.toUTF8

namespace Opened

variable (h : Opened directory root t)
include h

theorem plain_of_resolve {p : Path} (hp : t.resolve p = .ok target) (hinside : root <+: target) :
    t.Plain target := by
  rcases h.guarded.links with hloop | hnone
  · -- Without loops a path is resolved to its end, so no link is left on the way.
    exact hloop.plain_of_resolve (h.based.plain_startOf p) (h.based.dotless_startOf p).noDots hp
  · intro upper hupper link hlink
    rcases List.prefix_or_prefix_of_prefix hupper hinside with habove | hbelow
    · exact h.guarded.plain upper habove link hlink
    · exact hnone upper hbelow link hlink

theorem dotless_of_resolve {p : Path} (hdot : "." ∉ p.parts) (hp : t.resolve p = .ok target) :
    Dotless target :=
  FileTree.dotless_of_resolve hp (h.based.dotless_startOf p).noDot hdot

theorem of_grows {P : String → Prop} (hgrows : Grows P t t') (htidy : t'.Tidy) :
    Opened directory root t' where
  based := h.based.of_grows hgrows htidy
  noDot := h.noDot
  resolve := (hgrows.resolve_iff h.based (h.based.of_grows hgrows htidy) h.noDot
    h.guarded.plain).1 h.resolve
  guarded := h.guarded.of_grows hgrows

/-- Files land where they would have landed before. -/
theorem lands_iff {P : String → Prop} (hgrows : Grows P t t') (htidy : t'.Tidy)
    {file : Path × String} {item : Location × Entry} :
    Lands t directory root file item ↔ Lands t' directory root file item := by
  have h' := h.of_grows hgrows htidy
  constructor
  · rintro ⟨hdot, hresolve, hinside, hentry⟩
    have hplain := h.plain_of_resolve hresolve hinside
    exact ⟨hdot, (hgrows.resolve_iff h.based h'.based (Path.noDot_join h.noDot hdot) hplain).1
      hresolve, hinside, hentry⟩
  · rintro ⟨hdot, hresolve, hinside, hentry⟩
    have hplain : t.Plain item.1 := fun upper hupper link hlink =>
      h'.plain_of_resolve hresolve hinside upper hupper link
        (((hgrows.becomes upper).link_iff link).2 hlink)
    exact ⟨hdot, (hgrows.resolve_iff h.based h'.based (Path.noDot_join h.noDot hdot) hplain).2
      hresolve, hinside, hentry⟩

/-- A file that was written landed where there was room, and was laid down. -/
theorem of_write (hdot : "." ∉ relative.parts)
    (hwrite : write directory relative text t = (.ok path, t')) :
    ∃ item, Lands t directory root (relative, text) item ∧ path = .ofTop item.1 ∧ t.Room item.1 ∧
      Laid [item] t t' ∧ t'.Tidy := by
  obtain ⟨root', target, t₁, hroot, htarget, hinside, rfl, hmake, hwrite⟩ := exists_of_write hwrite
  obtain rfl := Except.ok.inj (h.resolve.symm.trans hroot)
  obtain ⟨hroom, htidy, hlaid⟩ := FileTree.room_of_writeText h.based.tidy
    (h.dotless_of_resolve (Path.noDot_join h.noDot hdot) htarget)
    (h.plain_of_resolve htarget hinside) hmake hwrite
  exact ⟨(target, _), ⟨hdot, htarget, hinside, rfl⟩, rfl, hroom, hlaid, htidy⟩

/-- A file is written where it lands if there is room. -/
theorem exists_write {file : Path × String} {item : Location × Entry}
    (hlands : Lands t directory root file item) (hroom : t.Room item.1) :
    ∃ path t', write directory file.1 file.2 t = (.ok path, t') := by
  obtain ⟨t₁, t₂, hmake, hwrite⟩ := FileTree.exists_writeText h.based.tidy
    (h.dotless_of_resolve (Path.noDot_join h.noDot hlands.noDot) hlands.resolve) hroom file.2
  have hin : isInside root item.1 = true := List.isPrefixOf_iff_prefix.2 hlands.inside
  refine ⟨.ofTop item.1, t₂, ?_⟩
  rw [write_apply file.2 h.resolve hlands.resolve, if_pos hin,
    bind_apply_of_ok _ (liftFiling_apply_of_ok ((bind_apply_of_ok _ hmake).trans hwrite)),
    pure_apply]

end Opened

theorem Lands.of_resolve {place : Location} (hdot : "." ∉ relative.parts)
    (hresolve : t.resolve (directory.join relative) = .ok place) (hinside : root <+: place)
    (text : String) : Lands t directory root (relative, text) (place, .file text.toUTF8) :=
  ⟨hdot, hresolve, hinside, rfl⟩

/-- Where no link is on the way a file lands in the place that its path names. -/
theorem Lands.of_plain {out parts : Location} (hname : FileTree.Nameable (out ++ parts))
    (hdotless : Dotless (out ++ parts)) (hplain : t.Plain (out ++ parts)) (text : String) :
    Lands t (.ofTop out) out (⟨.here, parts⟩, text) (out ++ parts, .file text.toUTF8) := by
  have htarget : t.resolve ((Path.ofTop out).join ⟨.here, parts⟩) = .ok (out ++ parts) :=
    FileTree.resolve_of_nameable hname.noNull hplain hdotless
  exact .of_resolve (fun hmem => hdotless.noDot (List.mem_append_right _ hmem)) htarget
    (List.prefix_append _ _) text

theorem Lands.unique {file : Path × String} {item other : Location × Entry}
    (h : Lands t directory root file item) (h' : Lands t directory root file other) :
    item = other :=
  Prod.ext (Except.ok.inj (h.resolve.symm.trans h'.resolve)) (h.entry.trans h'.entry.symm)

theorem eq_of_lands {items others : List (Location × Entry)}
    (h : List.Forall₂ (Lands t directory root) files items)
    (h' : List.Forall₂ (Lands t directory root) files others) : items = others := by
  induction h generalizing others with
  | nil => exact (List.forall₂_nil_left_iff.1 h').symm
  | cons hitem _ ih =>
      obtain ⟨other, others, hother, hrest, rfl⟩ := List.forall₂_cons_left_iff.1 h'
      rw [hitem.unique hother, ih hrest]

/-- Where a file landed, it leaves room for what is apart from it. -/
theorem Lands.room_iff {file : Path × String} {item : Location × Entry}
    (h : Lands t directory root file item) (hlaid : Laid [item] t t₁) {place : Location} :
    t₁.Room place ↔ t.Room place ∧ Unnested item.1 place := by
  obtain ⟨target, entry⟩ := item
  obtain rfl : entry = .file file.2.toUTF8 := h.entry
  exact hlaid.room_iff

/-- Files that were written one after another landed where there was room, none above another one,
and were laid down. -/
theorem Opened.of_writeEach (h : Opened directory root t)
    (hdot : ∀ file ∈ files, "." ∉ file.1.parts)
    (hwrite : writeEach directory files t = (.ok written, t')) :
    ∃ items, List.Forall₂ (Lands t directory root) files items ∧
      written = items.map (fun item => .ofTop item.1) ∧ (∀ item ∈ items, t.Room item.1) ∧
      (items.Pairwise fun item other => Unnested item.1 other.1) ∧ Laid items t t' ∧ t'.Tidy := by
  induction files generalizing t written with
  | nil =>
      obtain ⟨rfl, rfl⟩ := of_pure_apply hwrite
      exact ⟨[], .nil, rfl, by simp, .nil, .nil, h.based.tidy⟩
  | cons file files ih =>
      obtain ⟨hdotFirst, hdotRest⟩ := List.forall_mem_cons.1 hdot
      obtain ⟨path, rest, t₁, hfirst, hrest, rfl⟩ := writeEach_cons.1 hwrite
      obtain ⟨item, hlands, rfl, hroom, hlaid, htidy⟩ := h.of_write hdotFirst hfirst
      obtain ⟨items, hitems, rfl, hrooms, hunnested, hlaid', htidy'⟩ :=
        ih (h.of_grows hlaid.grows htidy) hdotRest hrest
      -- The rooms are those of the tree after the first file; it left them as they were.
      have hrooms' (other : Location × Entry) (hother : other ∈ items) :=
        (hlands.room_iff hlaid).1 (hrooms other hother)
      refine ⟨item :: items, .cons hlands ?_, rfl, List.forall_mem_cons.2
        ⟨hroom, fun other hother => (hrooms' other hother).1⟩, List.pairwise_cons.2
        ⟨fun other hother => (hrooms' other hother).2, hunnested⟩, hlaid.append hlaid', htidy'⟩
      exact hitems.imp fun _ _ => (h.lands_iff hlaid.grows htidy).2

/-- Files that land where there is room, none above another one, are written. -/
theorem Opened.exists_writeEach (h : Opened directory root t) {items : List (Location × Entry)}
    (hlands : List.Forall₂ (Lands t directory root) files items)
    (hrooms : ∀ item ∈ items, t.Room item.1)
    (hunnested : items.Pairwise fun item other => Unnested item.1 other.1) :
    ∃ written t', writeEach directory files t = (.ok written, t') := by
  induction files generalizing t items with
  | nil => exact ⟨[], t, rfl⟩
  | cons file files ih =>
      obtain ⟨item, items, hfirst, hrest, rfl⟩ := List.forall₂_cons_left_iff.1 hlands
      obtain ⟨hroom, hroomsRest⟩ := List.forall_mem_cons.1 hrooms
      obtain ⟨hunnestedFirst, hunnestedRest⟩ := List.pairwise_cons.1 hunnested
      obtain ⟨path, t₁, hwrite⟩ := h.exists_write hfirst hroom
      obtain ⟨other, hother, -, -, hlaid, htidy⟩ := h.of_write hfirst.noDot hwrite
      obtain rfl := hother.unique hfirst
      obtain ⟨rest, t₂, heach⟩ := ih (h.of_grows hlaid.grows htidy)
        (hrest.imp fun _ _ => (h.lands_iff hlaid.grows htidy).1)
        (fun next hnext =>
          (hfirst.room_iff hlaid).2 ⟨hroomsRest next hnext, hunnestedFirst next hnext⟩)
        hunnestedRest
      exact ⟨path :: rest, t₂, writeEach_cons.2 ⟨path, rest, t₁, hwrite, heach, rfl⟩⟩

/-! ### The items of a bundle -/

/-- A contract and what is laid down for its page. -/
def PageLands (t : FileTree) (directory : Path) (root : Location) (doc : ContractDoc)
    (item : Location × Entry) : Prop :=
  ∃ file, pageFile doc = .ok file ∧ Lands t directory root file item

/-- What is laid down for a bundle: its data, its pages if they are wanted, and its index if that
is. -/
structure Items (docs : Docs) (options : RenderOptions) (t : FileTree) (directory : Path)
    (root : Location) (data : Location × Entry) (pages index : List (Location × Entry)) : Prop where
  data_lands : ∃ text, dataText docs options.jsonIndent = .ok text ∧
    Lands t directory root (Path.ofString dataFile, text) data
  pages_land : if options.includeMarkdown then
      List.Forall₂ (fun entry item => PageLands t directory root entry.2 item) docs pages
    else pages = []
  index_lands : if options.includeHtml then
      ∃ text item, Index.render docs options.includeMarkdown = .ok text ∧
        Lands t directory root (Path.ofString indexFile, text) item ∧ index = [item]
    else index = []

/-- The pages of a bundle land as they are wanted. -/
theorem exists_pageFiles_iff :
    (∃ files, pageFiles docs options = .ok files ∧
        List.Forall₂ (Lands t directory root) files items) ↔
      if options.includeMarkdown then
        List.Forall₂ (fun entry item => PageLands t directory root entry.2 item) docs items
      else items = [] := by
  simp only [pageFiles_eq_ok_iff]
  split
  · exact forall₂_comp_iff.symm
  · rw [exists_eq_left, List.forall₂_nil_left_iff]

/-- The index of a bundle lands as it is wanted. -/
theorem exists_indexFiles_iff :
    (∃ files, indexFiles docs options = .ok files ∧
        List.Forall₂ (Lands t directory root) files items) ↔
      if options.includeHtml then
        ∃ text item, Index.render docs options.includeMarkdown = .ok text ∧
          Lands t directory root (Path.ofString indexFile, text) item ∧ items = [item]
      else items = [] := by
  simp only [indexFiles_eq_ok_iff]
  split
  · constructor
    · rintro ⟨files, ⟨text, htext, rfl⟩, hlands⟩
      obtain ⟨item, rest, hitem, hrest, rfl⟩ := List.forall₂_cons_left_iff.1 hlands
      obtain rfl := List.forall₂_nil_left_iff.1 hrest
      exact ⟨text, item, htext, hitem, rfl⟩
    · rintro ⟨text, item, htext, hitem, rfl⟩
      exact ⟨_, ⟨text, htext, rfl⟩, .cons hitem .nil⟩
  · rw [exists_eq_left, List.forall₂_nil_left_iff]

/-- The files of a bundle land as its data, its pages and its index. -/
theorem exists_items_iff :
    (∃ files, contents docs options = .ok files ∧
        List.Forall₂ (Lands t directory root) files items) ↔
      ∃ data pages index, Items docs options t directory root data pages index ∧
        items = data :: pages ++ index := by
  constructor
  · rintro ⟨files, hfiles, hlands⟩
    obtain ⟨text, pageList, indexList, htext, hpages, hindex, rfl⟩ := contents_eq_ok_iff.1 hfiles
    obtain ⟨first, index, hfirst, hindexLands, rfl⟩ := exists_of_forall₂_append hlands
    obtain ⟨data, pages, hdata, hpagesLand, rfl⟩ := List.forall₂_cons_left_iff.1 hfirst
    exact ⟨data, pages, index, ⟨⟨text, htext, hdata⟩,
      exists_pageFiles_iff.1 ⟨pageList, hpages, hpagesLand⟩,
      exists_indexFiles_iff.1 ⟨indexList, hindex, hindexLands⟩⟩, rfl⟩
  · rintro ⟨data, pages, index, ⟨⟨text, htext, hdata⟩, hpages, hindex⟩, rfl⟩
    obtain ⟨pageList, hpageList, hpagesLand⟩ := exists_pageFiles_iff.2 hpages
    obtain ⟨indexList, hindexList, hindexLands⟩ := exists_indexFiles_iff.2 hindex
    exact ⟨_, contents_eq_ok_iff.2 ⟨text, pageList, indexList, htext, hpageList, hindexList, rfl⟩,
      List.rel_append (.cons hdata hpagesLand) hindexLands⟩

/-! ### Bundles that fit -/

/-- The links at and below the place of a directory do not lead out of it: none is there, or none in
the whole tree leads back to itself. -/
def Tame (t : FileTree) (directory : Path) : Prop :=
  ∀ root, t.resolve directory = .ok root →
    t.LoopFree ∨ ∀ place, root <+: place → ∀ target, t.at? place ≠ some (.link target)

/-- A bundle fits into a directory once this is made: each of its files lands inside, where there is
room for it, and none above another one. -/
structure Fits (docs : Docs) (options : RenderOptions) (directory : Path) (root : Location)
    (data : Location × Entry) (pages index : List (Location × Entry)) (t t₁ : FileTree) : Prop where
  opened : Opened directory root t
  made : FileTree.makeDirectories directory t = (.ok (), t₁)
  ready : Opened directory root t₁
  items : Items docs options t directory root data pages index
  room : ∀ item ∈ data :: pages ++ index, t₁.Room item.1
  apart : (data :: pages ++ index).Pairwise fun item other => Unnested item.1 other.1

/-- A directory that was made under a path is opened. -/
theorem opened_of_makeDirectories (hbased : t.Based) (hdot : "." ∉ directory.parts)
    (htame : Tame t directory) (h : FileTree.makeDirectories directory t = (.ok (), t₁)) :
    ∃ root, Opened directory root t ∧ Opened directory root t₁ ∧ Grows (fun _ => True) t t₁ := by
  obtain ⟨root, hroot, hplain, hbased', hgrows⟩ := hbased.resolve_of_makeDirectories hdot h
  have hopened : Opened directory root t := ⟨hbased, hdot, hroot, hplain, htame root hroot⟩
  exact ⟨root, hopened, hopened.of_grows hgrows hbased'.tidy, hgrows⟩

/-- A bundle that was written fits, and its files were laid down where they land. -/
theorem exists_fits_of_render (hbased : t.Based) (hdot : "." ∉ directory.parts)
    (htame : Tame t directory) (h : render docs directory options t = (.ok written, t')) :
    ∃ root data pages index t₁, Fits docs options directory root data pages index t t₁ ∧
      written = (data :: pages ++ index).map (fun item => .ofTop item.1) ∧
      Laid (data :: pages ++ index) t₁ t' := by
  obtain ⟨files, t₁, hfiles, hmake, hwrite⟩ := render_eq_ok_iff.1 h
  obtain ⟨root, hopened, hready, hgrows⟩ := opened_of_makeDirectories hbased hdot htame hmake
  obtain ⟨items, hlands, hwritten, hrooms, hunnested, hlaid, -⟩ :=
    hready.of_writeEach (noDot_of_contents hfiles) hwrite
  obtain ⟨data, pages, index, hitems, rfl⟩ := exists_items_iff.1 ⟨files, hfiles,
    hlands.imp fun _ _ => (hopened.lands_iff hgrows hready.based.tidy).2⟩
  exact ⟨root, data, pages, index, t₁, ⟨hopened, hmake, hready, hitems, hrooms, hunnested⟩,
    hwritten, hlaid⟩

/-- A bundle that fits is written, and its files are laid down where they land. -/
theorem Fits.exists_render {data : Location × Entry} {pages index : List (Location × Entry)}
    (h : Fits docs options directory root data pages index t t₁) :
    ∃ t', render docs directory options t =
        (.ok ((data :: pages ++ index).map fun item => .ofTop item.1), t') ∧
      Laid (data :: pages ++ index) t₁ t' := by
  obtain ⟨files, hfiles, hlands⟩ := exists_items_iff.2 ⟨data, pages, index, h.items, rfl⟩
  have hgrows : Grows (fun _ => True) t t₁ := by
    have hkept := FileTree.makeDirectories_grows (P := fun _ => True) directory t
    rwa [h.made] at hkept
  have hlands₁ : List.Forall₂ (Lands t₁ directory root) files (data :: pages ++ index) :=
    hlands.imp fun _ _ => (h.opened.lands_iff hgrows h.ready.based.tidy).1
  obtain ⟨written, t', hwrite⟩ := h.ready.exists_writeEach hlands₁ h.room h.apart
  obtain ⟨others, hothers, rfl, -, -, hlaid, -⟩ :=
    h.ready.of_writeEach (noDot_of_contents hfiles) hwrite
  obtain rfl := eq_of_lands hothers hlands₁
  exact ⟨t', render_eq_ok_iff.2 ⟨files, t₁, hfiles, h.made, hwrite⟩, hlaid⟩

/-- A directory that is there is opened, and making it changes nothing. -/
theorem opened_of_directory (root : Location) (hsound : t.Sound) (hname : FileTree.Nameable root)
    (hdotless : Dotless root) (hroot : t.at? root = some .directory)
    (hlinks : t.LoopFree ∨ ∀ place, root <+: place → ∀ target, t.at? place ≠ some (.link target)) :
    Opened (.ofTop root) root t ∧ FileTree.makeDirectories (.ofTop root) t = (.ok (), t) := by
  have hplain : t.Plain root := hsound.tidy.plain hroot (by simp)
  exact ⟨⟨hsound.based, hdotless.noDot, FileTree.resolve_of_nameable hname.noNull hplain hdotless,
    hplain, hlinks⟩,
    FileTree.makeDirectories_of_founded hdotless hname (hsound.tidy.founded hroot) hroot⟩

/-- A directory that is missing, in one that is there, is opened and made. -/
theorem opened_of_missing (root : Location) (hbased : t.Based) (hname : FileTree.Nameable root)
    (hdotless : Dotless root) (hfounded : t.Founded root) (hroot : t.at? root = none)
    (hlinks : t.LoopFree ∨ ∀ place, root <+: place → ∀ target, t.at? place ≠ some (.link target)) :
    Opened (.ofTop root) root t ∧
      FileTree.makeDirectories (.ofTop root) t = (.ok (), t.put root .directory) ∧
      Opened (.ofTop root) root (t.put root .directory) := by
  have hplain : t.Plain root := hfounded.plain fun target => by simp [hroot]
  have hopened : Opened (.ofTop root) root t := ⟨hbased, hdotless.noDot,
    FileTree.resolve_of_nameable hname.noNull hplain hdotless, hplain, hlinks⟩
  have hlocate := hname.locate_eq false hplain hdotless hfounded
  rw [hroot] at hlocate
  have hmake := FileTree.makeDirectories_of_missing hname.noNull hlocate
  have hgrows := FileTree.makeDirectories_grows (P := fun _ => True) (.ofTop root) t
  rw [hmake] at hgrows
  have hne : root ≠ [] := by
    rintro rfl
    cases hroot
  exact ⟨hopened, hmake, hopened.of_grows hgrows (hbased.tidy.put hne hfounded fun _ => rfl)⟩

/-- In a directory that was made the files of a bundle are written and laid down if each of them
lands where there is room, and none above another one. -/
theorem exists_render_of_lands (hopened : Opened directory root t)
    (hmade : FileTree.makeDirectories directory t = (.ok (), t₁)) (hready : Opened directory root t₁)
    (hfiles : contents docs options = .ok files)
    (hlands : List.Forall₂ (Lands t directory root) files items)
    (hroom : ∀ item ∈ items, t₁.Room item.1)
    (hunnested : items.Pairwise fun item other => Unnested item.1 other.1) :
    ∃ t', render docs directory options t = (.ok (items.map fun item => .ofTop item.1), t') ∧
      Laid items t₁ t' := by
  obtain ⟨data, pages, index, hitems, rfl⟩ := exists_items_iff.1 ⟨files, hfiles, hlands⟩
  exact Fits.exists_render ⟨hopened, hmade, hready, hitems, hroom, hunnested⟩

end Bundle

end NatSpec
