import NatSpec.Docgen
import NatSpec.Proofs.Except
import NatSpec.Proofs.Run

/-!
How writing fails. Whatever goes wrong while an old bundle is cleared or a new one is written is a
problem of the bundle, or a fault that no problem accounts for.
-/

namespace NatSpec

/-- A failure while something is written: if it is a problem then one of the bundle. -/
def Failure.OfWriting (f : Failure) : Prop :=
  ∀ p, f = .problem p → p.kind = .bundle

namespace Failure

theorem ofWriting_fault (f : Fault) : OfWriting (.fault f) := by
  rintro p ⟨⟩

theorem ofWriting_problem {p : Problem} (h : p.kind = .bundle) : OfWriting (.problem p) := by
  rintro q ⟨⟩
  exact h

end Failure

open Failure (OfWriting ofWriting_fault ofWriting_problem)

theorem failsBy_get : FailsBy OfWriting (get : Run FileTree) := by
  rintro t e t' ⟨⟩

theorem failsBy_liftFiling {α : Type} (x : Filing α) : FailsBy OfWriting (liftM x : Run α) := by
  intro t e t' h
  obtain ⟨result, t₁, hxt⟩ : ∃ result t₁, x t = (result, t₁) := ⟨_, _, rfl⟩
  cases result with
  | error f =>
      rw [liftFiling_apply_of_error hxt] at h
      cases h
      exact ofWriting_fault f
  | ok a =>
      rw [liftFiling_apply_of_ok hxt] at h
      cases h

theorem failsBy_liftFault {α : Type} (x : Except Fault α) :
    FailsBy OfWriting (liftM x : Run α) := by
  intro t e t' h
  rw [liftFault_apply] at h
  obtain ⟨f, -, rfl⟩ := liftM_eq_error_iff.1 (congrArg Prod.fst h)
  exact ofWriting_fault f

namespace Bundle

/-- Writes the pages of contracts if they are wanted. -/
def writeMarkdown (docs : Docs) (directory : Path) (options : RenderOptions) : Run (List Path) :=
  if options.includeMarkdown then writePages directory docs else pure []

/-- Writes the index page if it is wanted. -/
def writeIndex (docs : Docs) (directory : Path) (options : RenderOptions) : Run (List Path) :=
  if options.includeHtml then do
    let content ← Index.render docs options.includeMarkdown
    return [← write directory (Path.ofString indexFile) content]
  else pure []

theorem writeAll_eq (docs : Docs) (directory : Path) (options : RenderOptions) :
    writeAll docs directory options = (do
      FileTree.makeDirectories directory
      let text ← dataText docs options.jsonIndent
      let data ← write directory (Path.ofString dataFile) text
      let pages ← writeMarkdown docs directory options
      let index ← writeIndex docs directory options
      return data :: pages ++ index) := by
  unfold writeAll writeMarkdown writeIndex
  cases options.includeMarkdown with
  | false => cases options.includeHtml with
    | false => simp
    | true => simp
  | true => cases options.includeHtml with
    | false => simp
    | true => simp

theorem failsBy_write (directory relative : Path) (content : String) :
    FailsBy OfWriting (write directory relative content) := by
  refine failsBy_get.bind fun t => (failsBy_liftFault _).bind fun target =>
    (failsBy_liftFault _).bind fun root => ?_
  split
  · exact (failsBy_liftFiling _).bind fun _ => (failsBy_liftFiling _).bind fun _ => .pure _
  · exact .throw (ofWriting_problem rfl)

theorem failsBy_writePages (directory : Path) (docs : Docs) :
    FailsBy OfWriting (writePages directory docs) := by
  induction docs with
  | nil => exact .pure _
  | cons entry docs ih =>
      exact (failsBy_liftFault _).bind fun page => (failsBy_liftFault _).bind fun text =>
        (failsBy_write directory page text).bind fun _ => ih.bind fun _ => .pure _

theorem failsBy_writeAll (docs : Docs) (directory : Path) (options : RenderOptions) :
    FailsBy OfWriting (writeAll docs directory options) := by
  rw [writeAll_eq]
  refine (failsBy_liftFiling _).bind fun _ => (failsBy_liftFault _).bind fun data =>
    (failsBy_write _ _ _).bind fun _ => .bind ?_ fun _ => .bind ?_ fun _ => .pure _
  · unfold writeMarkdown
    split
    · exact failsBy_writePages directory docs
    · exact .pure _
  · unfold writeIndex
    split
    · exact (failsBy_liftFault _).bind fun content => (failsBy_write _ _ _).bind fun _ => .pure _
    · exact .pure _

theorem ofWriting_report {f : Failure} (h : OfWriting f) : OfWriting (report f) := by
  cases f with
  | problem p => exact h
  | fault f =>
      rw [report]
      split
      · exact ofWriting_problem rfl
      · exact ofWriting_fault f

theorem failsBy_render (docs : Docs) (directory : Path) (options : RenderOptions) :
    FailsBy OfWriting (render docs directory options) :=
  (failsBy_writeAll docs directory options).tryCatch fun _ he => .throw (ofWriting_report he)

end Bundle

theorem failsBy_clearOutput (p : Path) : FailsBy OfWriting (clearOutput p) := by
  refine failsBy_get.bind fun t => (failsBy_liftFault _).bind fun there => ?_
  split
  · refine (failsBy_liftFiling _).tryCatch fun e he => ?_
    split
    · exact .throw (ofWriting_problem rfl)
    · exact .throw he
  · exact .pure _

end NatSpec
