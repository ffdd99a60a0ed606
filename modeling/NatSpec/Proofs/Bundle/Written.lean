import NatSpec.Proofs.Bundle.Data
import NatSpec.Proofs.Bundle.Frame
import NatSpec.Proofs.FileTree.Made

/-!
What stands in a bundle that was written. The data come first, and a file holds its text from then
on unless a later one takes its place: that happens only where a link of an old bundle leads from
one to the other.
-/

namespace NatSpec

namespace FileTree

variable {t t' t'' : FileTree} {written others : List Path} {target : Location}

/-- Files under other paths than the given ones are as they were. -/
def KeepsFiles (written : List Path) (t t' : FileTree) : Prop :=
  ∀ place content, Path.ofTop place ∉ written → t.at? place = some (.file content) →
    t'.at? place = some (.file content)

theorem KeepsFiles.refl : KeepsFiles [] t t :=
  fun _ _ _ => id

theorem KeepsFiles.append (h : KeepsFiles written t t') (h' : KeepsFiles others t' t'') :
    KeepsFiles (written ++ others) t t'' := by
  intro place content hplace hat
  rw [List.mem_append, not_or] at hplace
  exact h' place content hplace.2 (h place content hplace.1 hat)

/-- Growing without any text keeps all files. -/
theorem Grows.keepsFiles (h : Grows (fun _ => False) t t') : KeepsFiles [] t t' := by
  intro place content _ hat
  have hbecomes := h.becomes place
  rw [hat] at hbecomes
  generalize t'.at? place = entry at hbecomes
  cases hbecomes with
  | same => rfl
  | written h => exact h.elim

/-- A text that was written under a path without links stands there. -/
theorem writeText_eq_ok (hplain : t.Plain target) (hdotless : Dotless target) {text : String}
    (h : writeText (.ofTop target) text t = (.ok (), t')) :
    Nameable target ∧ t'.at? target = some (.file text.toUTF8) ∧
      KeepsFiles [.ofTop target] t t' := by
  have hput : Nameable target ∧ target ≠ [] ∧ t' = t.put target (.file text.toUTF8) := by
    rw [writeText, writeBytes_apply] at h
    split at h
    · cases h
    · rename_i hnull
      rcases locate_of_plain true hplain hdotless with ⟨reason, hstop, -⟩ | hreach
      · rw [hstop] at h
        cases h
      · obtain ⟨⟨hshort, hnames⟩, -⟩ := (locate_eq_iff true hplain hdotless).1 hreach
        rw [hreach] at h
        split at h
        · cases h
        · rename_i place entry hdirectory hplace
          obtain ⟨rfl, rfl⟩ := Prod.mk.inj (Except.ok.inj hplace)
          refine ⟨⟨by simpa using hnull, hshort, hnames⟩, ?_, (Prod.mk.inj h).2.symm⟩
          rintro rfl
          exact hdirectory rfl
        · cases h
  obtain ⟨hname, hne, rfl⟩ := hput
  refine ⟨hname, ?_, ?_⟩
  · rw [at?_put hne, if_pos rfl]
  · intro place content hplace hat
    rw [at?_put hne, if_neg, hat]
    rintro rfl
    exact hplace List.mem_cons_self

end FileTree

open FileTree (Dotless KeepsFiles)

namespace Bundle

variable {t t' : FileTree} {directory path : Path} {out : Location} {docs : Docs}
  {options : RenderOptions} {written : List Path} {text : String}

theorem exists_of_write {relative : Path}
    (h : write directory relative text t = (.ok path, t')) :
    ∃ root target t₁, t.resolve directory = .ok root ∧
      t.resolve (directory.join relative) = .ok target ∧ root <+: target ∧ path = .ofTop target ∧
      FileTree.makeDirectories (.ofTop target.dropLast) t = (.ok (), t₁) ∧
      FileTree.writeText (.ofTop target) text t₁ = (.ok (), t') := by
  unfold write at h
  rw [bind_apply_of_ok _ getRun_apply] at h
  obtain ⟨target, t₁, htarget', h⟩ := exists_of_bind_apply h
  obtain ⟨htarget, rfl⟩ := of_liftFault_apply htarget'
  obtain ⟨root, t₁, hroot', h⟩ := exists_of_bind_apply h
  obtain ⟨hroot, rfl⟩ := of_liftFault_apply hroot'
  split at h
  · rename_i hinside
    obtain ⟨_, t₁, hmake, h⟩ := exists_of_bind_apply h
    obtain ⟨_, t₂, hwrite, h⟩ := exists_of_bind_apply h
    obtain ⟨rfl, rfl⟩ := of_pure_apply h
    exact ⟨root, target, t₁, hroot, htarget,
      List.isPrefixOf_iff_prefix.1 hinside, rfl, of_liftFiling_apply hmake,
      of_liftFiling_apply hwrite⟩
  · cases h

/-- The data file is written before all other files. -/
theorem exists_of_render (h : render docs directory options t = (.ok written, t')) :
    ∃ text path rest t₁ t₂, dataText docs options.jsonIndent = .ok text ∧
      FileTree.makeDirectories directory t = (.ok (), t₁) ∧
      write directory (Path.ofString dataFile) text t₁ = (.ok path, t₂) ∧
      (do return (← writeMarkdown docs directory options) ++
        (← writeIndex docs directory options) : Run (List Path)) t₂ = (.ok rest, t') ∧
      written = path :: rest := by
  have hall : writeAll docs directory options t = (.ok written, t') := by
    unfold render at h
    obtain ⟨result, t₁, hall⟩ : ∃ result t₁, writeAll docs directory options t = (result, t₁) :=
      ⟨_, _, rfl⟩
    cases result with
    | error f =>
        rw [tryCatch_apply_of_error _ hall] at h
        cases h
    | ok files => rwa [tryCatch_apply_of_ok _ hall, ← hall] at h
  rw [writeAll_eq] at hall
  obtain ⟨_, t₁, hmake, hall⟩ := exists_of_bind_apply hall
  obtain ⟨text, t₁', htext', hall⟩ := exists_of_bind_apply hall
  obtain ⟨htext, rfl⟩ := of_liftFault_apply htext'
  obtain ⟨path, t₂, hpath, hall⟩ := exists_of_bind_apply hall
  obtain ⟨pages, t₃, hpages, hall⟩ := exists_of_bind_apply hall
  obtain ⟨index, t₄, hindex, hall⟩ := exists_of_bind_apply hall
  obtain ⟨rfl, rfl⟩ := of_pure_apply hall
  refine ⟨text, path, pages ++ index, t₁, t₂, htext, of_liftFiling_apply hmake,
    hpath, ?_, rfl⟩
  rw [bind_apply_of_ok _ hpages, bind_apply_of_ok _ hindex, pure_apply]

/-! ### What the files hold -/

section Guarded

variable (hdotless : Dotless out)
include hdotless

/-- A file that was written holds its text, and all other files hold what they held. -/
theorem write_eq_ok (hguarded : Guarded out t) {relative : Path}
    (hrelative : "." ∉ relative.parts)
    (h : write (.ofTop out) relative text t = (.ok path, t')) :
    ∃ place, path = .ofTop place ∧ FileTree.Nameable place ∧
      t'.at? place = some (.file text.toUTF8) ∧ KeepsFiles [path] t t' ∧ Guarded out t' := by
  obtain ⟨root, target, t₁, hroot, htarget, hinside, rfl, hmake, hwrite⟩ := exists_of_write h
  obtain rfl := FileTree.resolve_of_plain hguarded.plain hdotless.noDots hroot
  have hstart := startOf_join_ofTop t root relative
  have hplain := hguarded.plain_of_resolve hstart htarget hinside
  have htargetDotless := FileTree.dotless_of_resolve htarget (hstart ▸ List.not_mem_nil)
    (Path.noDot_join hdotless.noDot hrelative)
  have hgrows := FileTree.makeDirectories_grows (P := fun _ => False) (.ofTop target.dropLast) t
  rw [hmake] at hgrows
  obtain ⟨hname, hat, hkept⟩ :=
    FileTree.writeText_eq_ok (hgrows.plain hplain) htargetDotless hwrite
  have hall : FileTree.Grows (fun _ => True) t (write (.ofTop root) relative text t).2 :=
    write_grows _ relative trivial t
  rw [h] at hall
  exact ⟨target, rfl, hname, hat, hgrows.keepsFiles.append hkept, hguarded.of_grows hall⟩

theorem keepsFiles_writePages (hguarded : Guarded out t)
    (h : writePages (.ofTop out) docs t = (.ok written, t')) :
    KeepsFiles written t t' ∧ Guarded out t' := by
  induction docs generalizing t written with
  | nil =>
      obtain ⟨rfl, rfl⟩ := of_pure_apply h
      exact ⟨.refl, hguarded⟩
  | cons entry docs ih =>
      obtain ⟨page, t₁, hpage', h⟩ := exists_of_bind_apply h
      obtain ⟨hpage, rfl⟩ := of_liftFault_apply hpage'
      obtain ⟨text, t₁, htext', h⟩ := exists_of_bind_apply h
      obtain ⟨-, rfl⟩ := of_liftFault_apply htext'
      obtain ⟨path, t₁, hpath, h⟩ := exists_of_bind_apply h
      obtain ⟨rest, t₂, hrest, h⟩ := exists_of_bind_apply h
      obtain ⟨rfl, rfl⟩ := of_pure_apply h
      obtain ⟨-, -, -, -, hfirst, hguarded₁⟩ := write_eq_ok hdotless hguarded
        (noDot_pagePath hpage) hpath
      obtain ⟨hothers, hguarded₂⟩ := ih hguarded₁ hrest
      exact ⟨hfirst.append hothers, hguarded₂⟩

theorem keepsFiles_writeMarkdown (hguarded : Guarded out t)
    (h : writeMarkdown docs (.ofTop out) options t = (.ok written, t')) :
    KeepsFiles written t t' ∧ Guarded out t' := by
  unfold writeMarkdown at h
  split at h
  · exact keepsFiles_writePages hdotless hguarded h
  · obtain ⟨hwritten, rfl⟩ := Prod.mk.inj h
    obtain rfl := Except.ok.inj hwritten
    exact ⟨.refl, hguarded⟩

theorem keepsFiles_writeIndex (hguarded : Guarded out t)
    (h : writeIndex docs (.ofTop out) options t = (.ok written, t')) :
    KeepsFiles written t t' := by
  unfold writeIndex at h
  split at h
  · obtain ⟨content, t₁, hcontent', h⟩ := exists_of_bind_apply h
    obtain ⟨-, rfl⟩ := of_liftFault_apply hcontent'
    obtain ⟨path, t₁, hpath, h⟩ := exists_of_bind_apply h
    obtain ⟨rfl, rfl⟩ := of_pure_apply h
    obtain ⟨-, -, -, -, hkept, -⟩ := write_eq_ok hdotless hguarded
      (Path.noDot_ofString indexFile) hpath
    exact hkept
  · obtain ⟨hwritten, rfl⟩ := Prod.mk.inj h
    obtain rfl := Except.ok.inj hwritten
    exact .refl

/-- The data stand in their file when the whole bundle is written, unless a later file was written
under the same path. That path can name its place. -/
theorem exists_data_of_render (hguarded : Guarded out t)
    (h : render docs (.ofTop out) options t = (.ok written, t')) :
    ∃ text place rest, dataText docs options.jsonIndent = .ok text ∧
      written = .ofTop place :: rest ∧ FileTree.Nameable place ∧
      (.ofTop place ∉ rest → t'.at? place = some (.file text.toUTF8)) := by
  obtain ⟨text, path, rest, t₁, t₂, htext, hmake, hwrite, hrest, rfl⟩ := exists_of_render h
  have hgrows := FileTree.makeDirectories_grows (P := fun _ => False) (.ofTop out) t
  rw [hmake] at hgrows
  obtain ⟨place, rfl, hname, hat, -, hguarded₂⟩ := write_eq_ok hdotless
    (hguarded.of_grows hgrows) (Path.noDot_ofString dataFile) hwrite
  obtain ⟨pages, t₃, hpages, hrest⟩ := exists_of_bind_apply hrest
  obtain ⟨index, t₄, hindex, hrest⟩ := exists_of_bind_apply hrest
  obtain ⟨rfl, rfl⟩ := of_pure_apply hrest
  obtain ⟨hpagesKept, hguarded₃⟩ := keepsFiles_writeMarkdown hdotless hguarded₂ hpages
  have hindexKept := keepsFiles_writeIndex hdotless hguarded₃ hindex
  exact ⟨text, place, _, htext, rfl, hname, fun hplace =>
    hpagesKept.append hindexKept place _ hplace hat⟩

end Guarded

end Bundle

end NatSpec
