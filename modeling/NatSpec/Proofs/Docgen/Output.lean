import NatSpec.Proofs.Docgen.Frame
import NatSpec.Proofs.FileTree.Lexical

/-!
The output directory as it is written. Where no links stand along the root and the output path, the
check goes by the names in them alone: it accepts a directory exactly if the names of the root are
the first of its own and others follow. A null character, which no file system has in a name, stops
the check before it has decided anything.
-/

namespace NatSpec

open FileTree (NullFree)

variable {t : FileTree} {root : String} {path : Option String} {r p : Location}

/-- How an output path is judged under a root, given the places `r` and `p` that are written in the
root and in the output path behind it. -/
structure Judged (t : FileTree) (root : String) (path : Option String) (r p : Location) : Prop where
  accepted : ∀ place, outputDirectory t (.ofString root) path = .ok place ↔
    place = p ∧ r <+: p ∧ r ≠ p
  isRoot : outputDirectory t (.ofString root) path = .error (.problem .outputIsRoot) ↔ p = r
  outside : outputDirectory t (.ofString root) path = .error (.problem .outputOutsideRoot) ↔
    ¬r <+: p
  again : ∀ place, outputDirectory t (.ofString root) path = .ok place →
    outputDirectory t (.ofString root) (some (Path.ofTop place).toString) = .ok place

theorem Judged.of_written (hsound : t.Sound) (hp : t.Written p)
    (hroot : t.resolve (.ofString root) = .ok r)
    (hplace : t.resolve (Path.ofTop r / path.getD "./docgen") = .ok p) :
    Judged t root path r p := by
  have hcheck := outputDirectory_of_resolve hroot hplace
  have hplace' : t.resolve (Path.ofTop r / (some (Path.ofTop p).toString).getD "./docgen") =
      .ok p := hp.resolve hsound.based (.ofTop r)
  have hagain := outputDirectory_of_resolve hroot hplace'
  exact {
    accepted := fun place => by
      rw [hcheck]
      grind
    isRoot := by
      rw [hcheck]
      grind
    outside := by
      rw [hcheck]
      grind
    again := fun place haccepted => by
      obtain rfl : place = p := by
        rw [hcheck] at haccepted
        grind
      rw [hagain, ← hcheck, haccepted]
  }

section

variable (hsound : t.Sound) (hroot : t.Unlinked (.ofString root))
include hsound hroot

theorem written_root (hfree : '\x00' ∉ root.toList) :
    t.resolve (.ofString root) = .ok (t.plainLocation (.ofString root)) ∧
      t.Written (t.plainLocation (.ofString root)) := by
  have hparts : NullFree (Path.ofString root).parts := FileTree.nullFree_components_iff.2 hfree
  exact ⟨hroot.resolve hsound.based (Path.noDot_ofString root) hparts,
    hroot.written hsound (Path.proper_components root.toList) hparts⟩

theorem outputDirectory_of_null
    (hnull : '\x00' ∈ root.toList ∨ '\x00' ∈ (path.getD "./docgen").toList) :
    outputDirectory t (.ofString root) path = .error (.fault .badValue) := by
  rw [outputDirectory]
  by_cases hfree : '\x00' ∈ root.toList
  · have hparts : ¬NullFree (Path.ofString root).parts :=
      fun h => FileTree.nullFree_components_iff.1 h hfree
    rw [FileTree.resolve_of_null hparts]
    rfl
  · obtain ⟨hresolve, hwritten⟩ := written_root hsound hroot hfree
    have htop : NullFree (Path.ofTop (t.plainLocation (.ofString root))).parts := hwritten.nullFree
    have hparts := mt htop.div_iff.1 (not_not_intro (hnull.resolve_left hfree))
    rw [hresolve, liftM_ok, ok_bind, FileTree.resolve_of_null hparts]
    rfl

end

/-- Where no links stand along the root and the output path, the check accepts exactly what is
written strictly inside the root, component by component, and tells the root itself from what is
outside. Only a null character keeps it from deciding. -/
theorem outputDirectory_of_unlinked (hsound : t.Sound) (hroot : t.Unlinked (.ofString root))
    (hpath : t.Unlinked (Path.ofString root / path.getD "./docgen")) :
    ('\x00' ∈ root.toList ∨ '\x00' ∈ (path.getD "./docgen").toList →
      outputDirectory t (.ofString root) path = .error (.fault .badValue)) ∧
    ('\x00' ∉ root.toList → '\x00' ∉ (path.getD "./docgen").toList →
      Judged t root path (t.plainLocation (.ofString root))
        (t.plainLocation (Path.ofString root / path.getD "./docgen"))) := by
  refine ⟨outputDirectory_of_null hsound hroot, fun hrootFree hpathFree => ?_⟩
  obtain ⟨hresolve, hwritten⟩ := written_root hsound hroot hrootFree
  have hparts : NullFree (Path.ofString root / path.getD "./docgen").parts :=
    (FileTree.nullFree_components_iff.2 hrootFree).div hpathFree
  have hproper : Path.Proper (Path.ofString root / path.getD "./docgen").parts :=
    Path.Proper.div (Path.proper_components root.toList) _
  -- The check takes the output path from the place of the root, not from the root as it is written.
  have htop : NullFree (Path.ofTop (t.plainLocation (.ofString root))).parts := hwritten.nullFree
  have hdot : "." ∉ (Path.ofTop (t.plainLocation (.ofString root)) / path.getD "./docgen").parts :=
    Path.noDot_div (fun hdot => (hwritten.proper _ hdot).2.2 rfl) _
  have hplace := (hsound.based.resolve_of_leads hdot
    (FileTree.holdsNull_eq_false_iff.2 (htop.div hpathFree)) (hpath.leads_div hwritten)).1
  exact .of_written hsound (hpath.written hsound hproper hparts) hresolve hplace

/-- A project in a home directory, with a link that the paths below do not follow. -/
def homeProject : FileTree :=
  ⟨["home"], [(["home"], .directory), (["home", "proj"], .directory),
    (["home", "proj", "latest"], .link "../..")]⟩

/-- The path leaves the root and comes back to it. -/
theorem outputDirectory_of_unlinked_sample :
    homeProject.Sound ∧ homeProject.Unlinked (.ofString "./proj/../proj/") ∧
    homeProject.Unlinked (Path.ofString "./proj/../proj/" / "src/../../proj//docs/./api") ∧
    outputDirectory homeProject (.ofString "./proj/../proj/") (some "src/../../proj//docs/./api") =
      .ok ["home", "proj", "docs", "api"] := by
  have hsound : homeProject.Sound := by decide +kernel
  have hroot : homeProject.Unlinked (.ofString "./proj/../proj/") := by decide +kernel
  have hpath : homeProject.Unlinked (Path.ofString "./proj/../proj/" /
      (some "src/../../proj//docs/./api").getD "./docgen") := by decide +kernel
  have hjudged := (outputDirectory_of_unlinked hsound hroot hpath).2 (by decide) (by decide)
  exact ⟨hsound, hroot, hpath, (hjudged.accepted _).2 (by decide +kernel)⟩

/-- A path with a null character is not judged, though what is written in it is strictly inside the
root. -/
theorem outputDirectory_of_null_character :
    homeProject.Sound ∧ homeProject.Unlinked (.ofString "proj") ∧
    homeProject.Unlinked (Path.ofString "proj" / "x\x00y") ∧
    homeProject.plainLocation (.ofString "proj") = ["home", "proj"] ∧
    homeProject.plainLocation (Path.ofString "proj" / "x\x00y") = ["home", "proj", "x\x00y"] ∧
    outputDirectory homeProject (.ofString "proj") (some "x\x00y") ≠
      .ok ["home", "proj", "x\x00y"] := by
  have hsound : homeProject.Sound := by decide +kernel
  have hroot : homeProject.Unlinked (.ofString "proj") := by decide +kernel
  refine ⟨hsound, hroot, by decide +kernel, by decide, by decide, ?_⟩
  rw [outputDirectory_of_null hsound hroot (.inr (by decide))]
  simp

end NatSpec
