import NatSpec.FileTree.Update
import NatSpec.Proofs.FileTree.Resolve
import NatSpec.Proofs.Run

/-!
What changes of a file tree leave alone. Making directories and writing texts removes nothing and
touches no link, wherever it happens (`Grows`). A change at a place without links on the way happens
at that place, and making the directories of a path makes no others.
-/

namespace NatSpec.FileTree

/-! ### Growing -/

/-- What may stand in a place after texts were written and directories made: what stood there, a
directory where nothing was, or one of the texts in the place of a file or of nothing. -/
inductive Becomes (texts : String → Prop) : Option Entry → Option Entry → Prop
  | same {entry : Option Entry} : Becomes texts entry entry
  | made : Becomes texts none (some .directory)
  | new {text : String} : texts text → Becomes texts none (some (.file text.toUTF8))
  | written {old : ByteArray} {text : String} : texts text →
      Becomes texts (some (.file old)) (some (.file text.toUTF8))

/-- A tree in which texts were written and directories made, and nothing else was changed. -/
structure Grows (texts : String → Prop) (t t' : FileTree) : Prop where
  here : t'.here = t.here
  becomes : ∀ place, Becomes texts (t.at? place) (t'.at? place)

variable {P : String → Prop} {t t' : FileTree} {place : Location}

theorem Becomes.trans {a b c : Option Entry} (hab : Becomes P a b) (hbc : Becomes P b c) :
    Becomes P a c := by
  cases hab with
  | same => exact hbc
  | made =>
      cases hbc with
      | same => exact .made
  | new htext =>
      cases hbc with
      | same => exact .new htext
      | written htext' => exact .new htext'
  | written htext =>
      cases hbc with
      | same => exact .written htext
      | written htext' => exact .written htext'

theorem Becomes.link_iff {a b : Option Entry} (h : Becomes P a b) (target : String) :
    b = some (.link target) ↔ a = some (.link target) := by
  cases h with
  | same => exact Iff.rfl
  | made => simp
  | new => simp
  | written => simp

namespace Grows

theorem refl : Grows P t t := ⟨rfl, fun _ => .same⟩

instance : IsPreorder FileTree (Grows P) where
  refl _ := refl
  trans _ _ _ hab hbc :=
    ⟨hbc.here.trans hab.here, fun place => (hab.becomes place).trans (hbc.becomes place)⟩

theorem plain (h : Grows P t t') (hplain : t.Plain place) : t'.Plain place :=
  fun upper hupper target hlink =>
    hplain upper hupper target (((h.becomes upper).link_iff target).1 hlink)

theorem leads_iff (h : Grows P t t') {depth : Nat} {parts : List String} {dest : Location} :
    t.Leads depth place parts dest ↔ t'.Leads depth place parts dest :=
  ⟨fun hleads => hleads.congr fun place target => ((h.becomes place).link_iff target).symm,
    fun hleads => hleads.congr fun place target => (h.becomes place).link_iff target⟩

/-- Growing makes no loops. -/
theorem loopFree (h : Grows P t t') (hloop : t.LoopFree) : t'.LoopFree := by
  intro place name target hlink
  obtain ⟨depth, dest, hleads⟩ := hloop place name target ((h.becomes _).link_iff _ |>.1 hlink)
  exact ⟨depth, dest, h.leads_iff.1 hleads⟩

theorem put_directory (hplace : place ≠ []) (hnone : t.at? place = none) :
    Grows P t (t.put place .directory) where
  here := rfl
  becomes other := by
    rw [at?_put hplace]
    split
    · rename_i heq
      rw [← heq, hnone]
      exact .made
    · exact .same

theorem put_text {text : String} (htext : P text) (hplace : place ≠ [])
    (hentry : ∀ entry, t.at? place = some entry → ∃ old, entry = .file old) :
    Grows P t (t.put place (.file text.toUTF8)) where
  here := rfl
  becomes other := by
    rw [at?_put hplace]
    split
    · rename_i heq
      subst heq
      cases hat : t.at? place with
      | none => exact .new htext
      | some entry =>
          obtain ⟨old, rfl⟩ := hentry entry hat
          exact .written htext
    · exact .same

end Grows

/-! ### Single changes -/

theorem makeDirectory_apply (p : Path) (t : FileTree) :
    makeDirectory p t =
      if holdsNull p then (.error .badValue, t)
      else
        match t.locate false p with
        | .ok (place, none) => (.ok (), t.put place .directory)
        | .ok (_, some _) => (.error (.refused .alreadyExists p.toString), t)
        | .error reason => (.error (.refused reason p.toString), t) := by
  unfold makeDirectory
  rw [bind_apply_of_ok _ get_apply]
  cases holdsNull p with
  | true => rfl
  | false =>
      rcases t.locate false p with reason | ⟨place, entry⟩
      · rfl
      · cases entry <;> rfl

theorem writeBytes_apply (p : Path) (content : ByteArray) (t : FileTree) :
    writeBytes p content t =
      if holdsNull p then (.error .badValue, t)
      else
        match t.locate true p with
        | .ok (_, some .directory) => (.error (.refused .isDirectory p.toString), t)
        | .ok (place, _) => (.ok (), t.put place (.file content))
        | .error reason => (.error (.refused reason p.toString), t) := by
  unfold writeBytes
  rw [bind_apply_of_ok _ get_apply]
  cases holdsNull p with
  | true => rfl
  | false =>
      rcases t.locate true p with reason | ⟨place, entry⟩
      · rfl
      · rcases entry with _ | (_ | _ | _) <;> rfl

theorem removeDirectory_apply (p : Path) (t : FileTree) :
    removeDirectory p t =
      match t.locate false p, p.parts.getLast? with
      | .error reason, _ => (.error (.refused reason p.toString), t)
      | .ok (place, _), some last =>
        if last = ".." then (.error (.refused .alreadyExists p.toString), t)
        else (.ok (), t.remove place)
      | .ok _, none => (.error (.refused .invalidArgument p.toString), t) := by
  unfold removeDirectory
  rw [bind_apply_of_ok _ get_apply]
  rcases t.locate false p with reason | ⟨place, entry⟩
  · rfl
  · cases p.parts.getLast? with
    | none => rfl
    | some last =>
        dsimp only
        split <;> rfl

theorem deleteTree_apply (p : Path) (t : FileTree) :
    deleteTree p t =
      match t.locate false p with
      | .error reason => (.error (.refused reason p.toString), t)
      | .ok (_, none) => (.error (.refused .notFound p.toString), t)
      | .ok (_, some (.link _)) => (.error (.refused .invalidArgument p.toString), t)
      | .ok (_, some (.file _)) => (.error (.refused .notDirectory p.toString), t)
      | .ok (place, some .directory) => removeDirectory p (t.clearBelow place) := by
  unfold deleteTree
  rw [bind_apply_of_ok _ get_apply]
  rcases t.locate false p with reason | ⟨place, entry⟩
  · rfl
  · rcases entry with _ | (_ | _ | _) <;> rfl

/-! ### Directories on the way -/

/-- Making one directory of several changes nothing else, whatever is there already. -/
theorem ensureDirectory_apply_snd (p : Path) (t : FileTree) :
    (ensureDirectory p t).2 = (makeDirectory p t).2 := by
  unfold ensureDirectory
  obtain ⟨result, t', hmake⟩ : ∃ result t', makeDirectory p t = (result, t') := ⟨_, _, rfl⟩
  cases result with
  | ok a => rw [tryCatch_apply_of_ok _ hmake, hmake]
  | error fault =>
      rw [tryCatch_apply_of_error _ hmake, hmake]
      split
      · rfl
      · rw [bind_apply_of_ok _ get_apply]
        rcases hdir : t'.isDirectory p with fault | there
        · rfl
        · rw [bind_apply_of_ok _ (liftExcept_apply _)]
          split <;> rfl
      · rfl

/-- What making each single directory keeps, making all directories of a path keeps. -/
theorem related_ensureDirectories {R : FileTree → FileTree → Prop} [IsPreorder FileTree R]
    {P : Path → Prop} (hparent : ∀ p, P p → P p.parent)
    (hmake : ∀ p t, P p → R t (makeDirectory p t).2) {p : Path} (hp : P p) (count : Nat)
    (t : FileTree) : R t (ensureDirectories p count t).2 := by
  have hensure (p : Path) (t : FileTree) (hp : P p) : R t (ensureDirectory p t).2 := by
    rw [ensureDirectory_apply_snd]
    exact hmake p t hp
  induction count generalizing p t with
  | zero => exact hensure p t hp
  | succ count ih =>
      unfold ensureDirectories
      refine related_tryCatch (hensure p t hp) fun fault t' _ => ?_
      split
      · exact related_bind (ih (hparent p hp) t') fun _ t'' _ => hensure p t'' hp
      · exact refl_of R t'

/-- The directories of a path are made at once where only the last one is missing. -/
theorem makeDirectories_of_missing {p : Path} (hnull : holdsNull p = false)
    (h : t.locate false p = .ok (place, none)) :
    makeDirectories p t = (.ok (), t.put place .directory) := by
  have hmake : makeDirectory p t = (.ok (), t.put place .directory) := by
    simp only [makeDirectory_apply, hnull, h, Bool.false_eq_true, if_false]
  have hensure : ensureDirectory p t = (.ok (), t.put place .directory) :=
    tryCatch_apply_of_ok _ hmake
  rw [makeDirectories]
  cases p.parts.length with
  | zero => exact hensure
  | succ count => exact tryCatch_apply_of_ok _ hensure

/-- Nothing is made where there is a directory. -/
theorem makeDirectories_of_directory {p : Path} {entry : Entry} (hnull : holdsNull p = false)
    (h : t.locate false p = .ok (place, some entry)) (hdirectory : t.isDirectory p = .ok true) :
    makeDirectories p t = (.ok (), t) := by
  have hmake : makeDirectory p t = (.error (.refused .alreadyExists p.toString), t) := by
    simp only [makeDirectory_apply, hnull, h, Bool.false_eq_true, if_false]
  have hensure : ensureDirectory p t = (.ok (), t) := by
    rw [ensureDirectory, tryCatch_apply_of_error _ hmake]
    dsimp only
    rw [bind_apply_of_ok _ get_apply, hdirectory]
    rfl
  rw [makeDirectories]
  cases p.parts.length with
  | zero => exact hensure
  | succ count => exact tryCatch_apply_of_ok _ hensure

theorem writeText_of_missing {p : Path} (hnull : holdsNull p = false)
    (h : t.locate true p = .ok (place, none)) (text : String) :
    writeText p text t = (.ok (), t.put place (.file text.toUTF8)) := by
  rw [writeText]
  simp only [writeBytes_apply, hnull, h, Bool.false_eq_true, if_false]

theorem makeDirectory_grows (p : Path) (t : FileTree) :
    Grows P t (makeDirectory p t).2 := by
  rw [makeDirectory_apply]
  split
  · exact .refl
  · split
    · rename_i place hlocate
      rcases locate_eq_ok hlocate with hdirectory | ⟨hplace, hnone, -⟩
      · cases hdirectory
      · exact .put_directory hplace hnone
    · exact .refl
    · exact .refl

theorem makeDirectories_grows (p : Path) (t : FileTree) :
    Grows P t (makeDirectories p t).2 :=
  related_ensureDirectories (P := fun _ => True) (fun _ _ => trivial)
    (fun p t _ => makeDirectory_grows p t) trivial _ t

theorem writeText_grows (p : Path) {text : String} (htext : P text) (t : FileTree) :
    Grows P t (writeText p text t).2 := by
  rw [writeText, writeBytes_apply]
  split
  · exact .refl
  · split
    · exact .refl
    · rename_i place entry hdirectory hlocate
      rcases locate_eq_ok hlocate with rfl | ⟨hplace, hat, hlink⟩
      · exact absurd rfl hdirectory
      · refine .put_text htext hplace fun found hfound => ?_
        rw [hat] at hfound
        cases found with
        | file old => exact ⟨old, rfl⟩
        | link target => exact absurd hfound (hlink rfl target)
        | directory => exact absurd hfound hdirectory
    · exact .refl

end NatSpec.FileTree
