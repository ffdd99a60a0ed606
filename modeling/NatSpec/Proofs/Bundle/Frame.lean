import NatSpec.Proofs.Bundle.Write
import NatSpec.Proofs.FileTree.Frame

/-!
What writing a bundle changes. Wherever it is written, a bundle removes nothing: it adds
directories, and writes its own texts over files or to new ones. And it is written within its
directory if no link leads out of it: either no link leads back to itself, or there are no links in
the directory.
-/

namespace NatSpec.Bundle

open FileTree (Plain Dotless LoopFree Grows Within Becomes)

inductive IsText (docs : Docs) (options : RenderOptions) : String → Prop
  | data {text : String} : dataText docs options.jsonIndent = .ok text → IsText docs options text
  | page {name text : String} {doc : ContractDoc} : (name, doc) ∈ docs →
      Page.render doc = .ok text → IsText docs options text
  | index {text : String} : Index.render docs options.includeMarkdown = .ok text →
      IsText docs options text

theorem noDot_pagePath {doc : ContractDoc} {page : Path} (h : doc.pagePath = .ok page) :
    "." ∉ page.parts := by
  unfold ContractDoc.pagePath at h
  split at h
  · obtain rfl := Except.ok.inj h
    exact Path.noDot_div (Path.noDot_div (Path.noDot_ofString _) _) _
  · cases h

/-! ### What each write keeps, all writes keep -/

section Related

variable {R : FileTree → FileTree → Prop} [IsPreorder FileTree R] {directory : Path}
  {P : String → Prop}

theorem related_liftFault {α β : Type} {x : Except Fault α} {f : α → Run β} {t : FileTree}
    (hf : ∀ a, x = .ok a → R t (f a t).2) : R t ((liftM x >>= f : Run β) t).2 := by
  refine related_bind (refl_of R t) fun a t' hx => ?_
  obtain ⟨hlift, rfl⟩ := Prod.mk.inj ((liftFault_apply x).symm.trans hx)
  exact hf a (liftM_eq_ok_iff.1 hlift)

variable (hwrite : ∀ relative text t, "." ∉ relative.parts → P text →
  R t (write directory relative text t).2)
include hwrite

theorem related_writePages {docs : Docs}
    (hdocs : ∀ name doc text, (name, doc) ∈ docs → Page.render doc = .ok text → P text)
    (t : FileTree) : R t (writePages directory docs t).2 := by
  induction docs generalizing t with
  | nil => exact refl_of R t
  | cons entry docs ih =>
      refine related_liftFault fun page hpage => related_liftFault fun text htext => ?_
      refine related_bind
        (hwrite page text t (noDot_pagePath hpage) (hdocs _ _ _ (List.mem_cons_self ..) htext))
        fun written t' _ => ?_
      exact related_bind
        (ih (fun name doc text hmem => hdocs name doc text (List.mem_cons_of_mem _ hmem)) t')
        fun _ t'' _ => refl_of R t''

/-- What making the directory and writing each file keeps, writing the bundle keeps, also when it
fails. -/
theorem related_render (hmake : ∀ t, R t (FileTree.makeDirectories directory t).2) {docs : Docs}
    {options : RenderOptions} (htexts : ∀ text, IsText docs options text → P text)
    (t : FileTree) : R t (render docs directory options t).2 := by
  unfold render
  refine related_tryCatch ?_ fun f t' _ => refl_of R t'
  rw [writeAll_eq]
  refine related_bind (by rw [liftFiling_apply_snd]; exact hmake t) fun _ t _ => ?_
  refine related_liftFault fun text htext => related_bind
    (hwrite _ text t (Path.noDot_ofString dataFile) (htexts _ (.data htext))) fun _ t _ => ?_
  refine related_bind ?_ fun pages t _ => related_bind ?_ fun _ t _ => refl_of R t
  · unfold writeMarkdown
    split
    · exact related_writePages hwrite
        (fun name doc text hmem htext => htexts text (.page hmem htext)) t
    · exact refl_of R t
  · unfold writeIndex
    split
    · exact related_liftFault fun text htext => related_bind
        (hwrite _ text t (Path.noDot_ofString indexFile) (htexts _ (.index htext)))
        fun _ t _ => refl_of R t
    · exact refl_of R t

end Related

/-! ### One file -/

variable {t : FileTree} {out : Location}

theorem write_apply {directory relative : Path} {root target : Location} (content : String)
    (hroot : t.resolve directory = .ok root)
    (htarget : t.resolve (directory.join relative) = .ok target) :
    write directory relative content t =
      if isInside root target then
        (liftM (FileTree.makeDirectories (.ofTop target.dropLast) >>= fun _ =>
          FileTree.writeText (.ofTop target) content) >>= fun _ =>
            pure (Path.ofTop target) : Run Path) t
      else (.error (.problem (.outsideBundle relative.toString)), t) := by
  unfold write
  rw [bind_apply_of_ok _ getRun_apply, htarget, bind_apply_of_ok _ (liftFault_apply _), hroot,
    bind_apply_of_ok _ (liftFault_apply _), liftFiling_bind, bind_assoc]
  split <;> rfl

/-- A file is refused, or written at its resolved place, which is inside the resolved directory. -/
theorem write_cases (directory relative : Path) (content : String) (t : FileTree) :
    (write directory relative content t).2 = t ∨
      ∃ root target, t.resolve directory = .ok root ∧
        t.resolve (directory.join relative) = .ok target ∧ root <+: target ∧
        (write directory relative content t).2 =
          ((FileTree.makeDirectories (.ofTop target.dropLast) >>= fun _ =>
            FileTree.writeText (.ofTop target) content) t).2 := by
  cases htarget : t.resolve (directory.join relative) with
  | error f =>
      unfold write
      rw [bind_apply_of_ok _ getRun_apply, htarget]
      exact .inl rfl
  | ok target =>
      cases hroot : t.resolve directory with
      | error f =>
          unfold write
          rw [bind_apply_of_ok _ getRun_apply, htarget, bind_apply_of_ok _ (liftFault_apply _),
            hroot]
          exact .inl rfl
      | ok root =>
          rw [write_apply content hroot htarget]
          split
          · rename_i hinside
            rw [bind_pure_apply_snd, liftFiling_apply_snd]
            exact .inr ⟨root, target, rfl, rfl, List.isPrefixOf_iff_prefix.1 hinside, rfl⟩
          · exact .inl rfl

theorem write_grows {P : String → Prop} (directory relative : Path) {content : String}
    (hcontent : P content) (t : FileTree) :
    Grows P t (write directory relative content t).2 := by
  rcases write_cases directory relative content t with hsame | ⟨root, target, -, -, -, hwrite⟩
  · rw [hsame]
    exact .refl
  · rw [hwrite]
    exact related_bind (FileTree.makeDirectories_grows _ t) fun _ t' _ =>
      FileTree.writeText_grows _ hcontent t'

/-- A bundle is written without removing anything, and without any text but its own. -/
theorem render_grows (docs : Docs) (directory : Path) (options : RenderOptions) (t : FileTree) :
    Grows (IsText docs options) t (render docs directory options t).2 :=
  related_render (fun relative _ t _ htext => write_grows directory relative htext t)
    (FileTree.makeDirectories_grows directory) (fun _ => id) t

/-! ### Within the directory -/

/-- A directory out of which no link leads: it is reached without links, and either no link leads
back to itself, or there is none at or below it. -/
structure Guarded (out : Location) (t : FileTree) : Prop where
  plain : t.Plain out
  links : t.LoopFree ∨ ∀ place, out <+: place → ∀ target, t.at? place ≠ some (.link target)

theorem Guarded.of_grows {P : String → Prop} {t' : FileTree} (h : Guarded out t)
    (hgrows : Grows P t t') : Guarded out t' where
  plain := hgrows.plain h.plain
  links := h.links.imp hgrows.loopFree fun hnone place hplace target hlink =>
    hnone place hplace target (((hgrows.becomes place).link_iff target).1 hlink)

/-- A path that is resolved to a place inside gets there without links. -/
theorem Guarded.plain_of_resolve {target : Location} (h : Guarded out t) {p : Path}
    (hstart : t.startOf p = []) (hp : t.resolve p = .ok target) (hin : out <+: target) :
    t.Plain target := by
  rcases h.links with hloop | hnone
  · exact hloop.plain_of_resolve (hstart ▸ FileTree.plain_nil) (hstart ▸ List.not_mem_nil) hp
  · intro upper hupper link hlink
    rcases List.prefix_or_prefix_of_prefix hupper hin with habove | hbelow
    · exact h.plain upper habove link hlink
    · exact hnone upper hbelow link hlink

theorem startOf_join_ofTop (t : FileTree) (out : Location) (relative : Path) :
    t.startOf ((Path.ofTop out).join relative) = [] := by
  unfold Path.join FileTree.startOf
  by_cases hstart : relative.start = .here
  · rw [if_pos hstart]
    rfl
  · rw [if_neg hstart, if_neg hstart]

theorem write_within (hdotless : Dotless out) {relative : Path} (hrelative : "." ∉ relative.parts)
    (content : String) (t : FileTree) :
    Keeping (Guarded out) (Within out) t (write (.ofTop out) relative content t).2 := by
  intro hguarded
  refine ⟨hguarded.of_grows (write_grows (P := fun _ => True) _ relative trivial t), ?_⟩
  rcases write_cases (.ofTop out) relative content t with
    hsame | ⟨root, target, hroot, htarget, hinside, hwrite⟩
  · rw [hsame]
    exact .refl
  obtain rfl := FileTree.resolve_of_plain hguarded.plain hdotless.noDots hroot
  have hstart := startOf_join_ofTop t root relative
  have hplain := hguarded.plain_of_resolve hstart htarget hinside
  have htargetDotless := FileTree.dotless_of_resolve htarget (hstart ▸ List.not_mem_nil)
    (Path.noDot_join hdotless.noDot hrelative)
  -- Until the file is written, no link has been put on the way to it.
  have hboth : Keeping (Plain · target) (Within root) t
      (write (.ofTop root) relative content t).2 := by
    rw [hwrite]
    refine related_bind (FileTree.makeDirectories_within htargetDotless hinside
      target.dropLast_prefix t) fun _ t' _ hplain' => ?_
    exact ⟨(FileTree.writeText_grows (P := fun _ => True) _ trivial t').plain hplain',
      FileTree.writeText_within hplain' htargetDotless hinside content⟩
  exact (hboth hplain).2

/-- A bundle is written within its directory if no link leads out of it. -/
theorem render_within (hdotless : Dotless out) (docs : Docs) (options : RenderOptions)
    (t : FileTree) :
    Keeping (Guarded out) (Within out) t (render docs (.ofTop out) options t).2 := by
  refine related_render (P := fun _ => True)
    (fun relative text t hrelative _ => write_within hdotless hrelative text t) ?_
    (fun _ _ => trivial) t
  intro t hguarded
  obtain ⟨-, hwithin⟩ := FileTree.makeDirectories_within hdotless List.prefix_rfl
    List.prefix_rfl t hguarded.plain
  exact ⟨hguarded.of_grows (FileTree.makeDirectories_grows (P := fun _ => True) _ t), hwithin⟩

end NatSpec.Bundle
