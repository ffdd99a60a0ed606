import NatSpec.CompilerInput
import NatSpec.Proofs.FileTree.Read
import NatSpec.Proofs.Run
import NatSpec.Proofs.Text.Search

/-!
What the content of a compiler input can do. A content is patched or is a problem, or it is of one
of four kinds that are met by no problem: bytes that are not UTF-8, a whole number or a nesting
beyond the limits of the reader, and settings whose selection of outputs cannot be extended.
-/

namespace NatSpec.CompilerInput

variable {τ : Type} [DecidableEq τ] [IsText τ]

/-! ### Selections -/

/-- A selection takes the needed outputs: it is an array, or it names them already. -/
def TakesOutputs (selection : Json τ) : Prop :=
  match selection with
  | .arr _ => True
  | .str s => ∀ output ∈ (neededOutputs : List τ), IsText.units output <:+: IsText.units s
  | .obj fields => ∀ output ∈ neededOutputs, Table.contains fields (.text output) = true
  | _ => False

/-- The settings of a compiler lead to a selection for all contracts that takes the needed outputs.
Each table on the way is an object or is missing. -/
def Selectable (compiler : Fields τ) : Prop :=
  ∃ settings selection files : Fields τ,
    (Table.get? compiler "settings").getD (.obj []) = .obj settings ∧
    (Table.get? settings "outputSelection").getD (.obj []) = .obj selection ∧
    (Table.get? selection "*").getD (.obj []) = .obj files ∧
    TakesOutputs ((Table.get? files "*").getD (.arr []))

/-- An array stays an array, whatever is selected. -/
theorem exists_select_arr (items : List (Json τ)) (output : τ) :
    ∃ others, select (.arr items) output = .ok (.arr others) := by
  rw [select, selects, ok_bind]
  split
  · exact ⟨items, rfl⟩
  · exact ⟨items ++ [.str output], rfl⟩

theorem exists_foldlM_select_arr (outputs : List τ) (items : List (Json τ)) :
    ∃ others, outputs.foldlM select (.arr items) = .ok (.arr others) := by
  induction outputs generalizing items with
  | nil => exact ⟨items, rfl⟩
  | cons output outputs ih =>
      obtain ⟨others, hothers⟩ := exists_select_arr items output
      rw [List.foldlM_cons, hothers, ok_bind]
      exact ih others

/-- A value that is no array is never extended, so all outputs have to be there. -/
theorem foldlM_select_ok_iff {v : Json τ} {named : τ → Bool}
    (hselects : ∀ output, selects v output = .ok (named output)) (harr : ∀ items, v ≠ .arr items)
    (outputs : List τ) :
    (∃ changed, outputs.foldlM select v = .ok changed) ↔
      ∀ output ∈ outputs, named output = true := by
  have hselect (output : τ) :
      select v output = if named output then .ok v else .error .notRecord := by
    unfold select
    rw [hselects, ok_bind]
    cases named output with
    | true => rfl
    | false =>
        cases v with
        | arr items => exact absurd rfl (harr items)
        | _ => rfl
  induction outputs with
  | nil => simp [pure, Except.pure]
  | cons output outputs ih =>
      rw [List.foldlM_cons, hselect, List.forall_mem_cons]
      cases named output with
      | true => simpa [ok_bind] using ih
      | false => simp [bind, Except.bind]

theorem exists_selected_iff {v : Json τ} :
    (∃ changed, neededOutputs.foldlM select v = .ok changed) ↔ TakesOutputs v := by
  have hother (h : ∀ output, selects v output = .error .wrongKind) :
      ¬∃ changed, neededOutputs.foldlM select v = .ok changed := by
    rintro ⟨changed, hchanged⟩
    obtain ⟨first, hfirst, -⟩ := bind_eq_ok_iff.1 hchanged
    unfold select at hfirst
    rw [h] at hfirst
    cases hfirst
  cases v with
  | arr items =>
      obtain ⟨others, hothers⟩ := exists_foldlM_select_arr neededOutputs items
      exact iff_of_true ⟨_, hothers⟩ trivial
  | str s =>
      have hall := @foldlM_select_ok_iff τ _ _ (.str s) _ (fun _ => rfl) (fun _ => by simp)
        neededOutputs
      simp only [Text.isSome_cut?_iff] at hall
      exact hall
  | obj fields => exact foldlM_select_ok_iff (fun _ => rfl) (fun _ => by simp) _
  | _ => exact iff_of_false (hother fun _ => rfl) id

theorem exists_changeField_iff {v missing : Json τ} {name : String}
    {change : Json τ → Except Fault (Json τ)} :
    (∃ changed, changeField v name missing change = .ok changed) ↔
      ∃ fields, v = .obj fields ∧
        ∃ changed, change ((Table.get? fields name).getD missing) = .ok changed := by
  cases v with
  | obj fields =>
      constructor
      · rintro ⟨changed, h⟩
        obtain ⟨inner, hinner, -⟩ := bind_eq_ok_iff.1 h
        exact ⟨fields, rfl, inner, hinner⟩
      · rintro ⟨fields, hfields, inner, hinner⟩
        obtain rfl := Json.obj.inj hfields
        exact ⟨_, bind_eq_ok_iff.2 ⟨inner, hinner, rfl⟩⟩
  | _ => simp [changeField]

theorem exists_requestOutputs_iff {compiler : Fields τ} :
    (∃ changed, requestOutputs (.obj compiler) = .ok changed) ↔ Selectable compiler := by
  simp only [requestOutputs, exists_changeField_iff, exists_selected_iff, Json.obj.injEq, Selectable]
  constructor
  · rintro ⟨_, rfl, settings, hsettings, selection, hselection, files, hfiles, htakes⟩
    exact ⟨settings, selection, files, hsettings, hselection, hfiles, htakes⟩
  · rintro ⟨settings, selection, files, hsettings, hselection, hfiles, htakes⟩
    exact ⟨_, rfl, settings, hsettings, selection, hselection, files, hfiles, htakes⟩

/-! ### Files -/

/-- The contents of a compiler input that are met by no problem. -/
inductive Unusable (content : ByteArray) : Prop
  | undecodable (h : String.fromUTF8? content = none)
  | longNumber {text : String} (htext : String.fromUTF8? content = some text)
      (hread : (Json.read (Text.withLineFeeds text) : Except Json.Refusal (Json Utf16)) =
        .error .longNumber)
  | deepNesting {text : String} (htext : String.fromUTF8? content = some text)
      (hread : (Json.read (Text.withLineFeeds text) : Except Json.Refusal (Json Utf16)) =
        .error .deepNesting)
  | notSelectable {compiler : Fields Utf16} (h : FileTree.Holds content (.obj compiler))
      (hselect : ¬Selectable compiler)

variable {t : FileTree} {p : Path} {content : ByteArray}

/-- What patching does is settled by what is read. -/
theorem patch_apply (t : FileTree) (p : Path) :
    patch p t =
      match t.readValue p with
      | .error (.refused reason path) =>
        (.error (.problem (.unreadableInput p.toString (.refused reason path))), t)
      | .error (.misread place) =>
        (.error (.problem (.unreadableInput p.toString (.misread place))), t)
      | .error fault => (.error (.fault fault), t)
      | .ok v =>
        if v.isObj then
          match requestOutputs v with
          | .ok patched =>
            ((do
              FileTree.writeText p (patched.write (.spaces 2) ++ "\n")
              return patched : Run (Json Utf16))) t
          | .error fault => (.error (.fault fault), t)
        else (.error (.problem (.inputNotObject p.toString)), t) := by
  rw [patch, bind_apply_of_ok _ getRun_apply]
  cases (t.readValue p : Except Fault (Json Utf16)) with
  | error fault => cases fault <;> rfl
  | ok v =>
      cases hobj : v.isObj with
      | false => simp only [hobj]; rfl
      | true =>
          simp only [hobj, if_true]
          cases requestOutputs v with
          | ok patched => rfl
          | error fault => rfl

/-- A file that was read is written over. -/
theorem writeText_of_readBytes (h : t.readBytes p = .ok content) (text : String) :
    ∃ place, t.locate true p = .ok (place, some (.file content)) ∧
      FileTree.writeText p text t = (.ok (), t.put place (.file text.toUTF8)) := by
  obtain ⟨place, hlocate⟩ := FileTree.exists_locate_of_readBytes h
  refine ⟨place, hlocate, ?_⟩
  rw [FileTree.writeText, FileTree.writeBytes, bind_apply_of_ok _ get_apply,
    FileTree.holdsNull_of_readBytes h, if_neg Bool.false_ne_true, hlocate]
  rfl

/-- Patching a file ends in a fault just for the unusable contents. -/
theorem patch_fault_iff (h : t.readBytes p = .ok content) :
    (∃ fault, (patch p t).1 = .error (.fault fault)) ↔ Unusable content := by
  have hwrites (patched : Json Utf16) : ((do
      FileTree.writeText p (patched.write (.spaces 2) ++ "\n")
      return patched : Run (Json Utf16)) t).1 = .ok patched := by
    obtain ⟨place, -, hwrite⟩ := writeText_of_readBytes h (patched.write (.spaces 2) ++ "\n")
    rw [bind_apply_of_ok _ (liftFiling_apply_of_ok hwrite)]
    rfl
  rw [patch_apply, FileTree.readValue_eq_of_readBytes h]
  constructor
  · rintro ⟨fault, hfault⟩
    cases htext : String.fromUTF8? content with
    | none => exact .undecodable htext
    | some text =>
        cases hread : (Json.read (Text.withLineFeeds text) : Except Json.Refusal (Json Utf16)) with
        | error refusal =>
            simp only [htext, hread] at hfault
            cases refusal with
            | misread place => cases hfault
            | longNumber => exact .longNumber htext hread
            | deepNesting => exact .deepNesting htext hread
        | ok v =>
            simp only [htext, hread] at hfault
            cases v with
            | obj compiler =>
                refine .notSelectable ⟨text, htext, hread⟩ fun hselect => ?_
                obtain ⟨patched, hrequest⟩ := exists_requestOutputs_iff.2 hselect
                simp only [Json.isObj, if_true, hrequest, hwrites] at hfault
                cases hfault
            | _ => cases hfault
  · rintro (hnone | ⟨htext, hread⟩ | ⟨htext, hread⟩ | @⟨compiler, ⟨text, htext, hread⟩, hselect⟩)
    · exact ⟨.undecodable, by rw [hnone]⟩
    · exact ⟨.badValue, by simp only [htext, hread, Fault.ofRefusal]⟩
    · exact ⟨.deepNesting, by simp only [htext, hread, Fault.ofRefusal]⟩
    · simp only [htext, hread, Json.isObj, if_true]
      cases hrequest : requestOutputs (.obj compiler) with
      | error fault => exact ⟨fault, rfl⟩
      | ok patched => exact absurd (exists_requestOutputs_iff.1 ⟨patched, hrequest⟩) hselect

theorem configuration_of_patch {problem : Problem}
    (h : (patch p t).1 = .error (.problem problem)) : problem.kind = .configuration := by
  rw [patch_apply] at h
  split at h
  · obtain ⟨⟩ := h
    rfl
  · obtain ⟨⟩ := h
    rfl
  · cases h
  · split at h
    · split at h
      · rename_i v _ _ patched _
        -- Writing fails by faults only.
        obtain ⟨result, t₁, hwrite⟩ : ∃ result t₁,
            FileTree.writeText p (patched.write (.spaces 2) ++ "\n") t = (result, t₁) :=
          ⟨_, _, rfl⟩
        cases result with
        | ok written =>
            rw [bind_apply_of_ok _ (liftFiling_apply_of_ok hwrite)] at h
            cases h
        | error fault =>
            rw [bind_apply_of_error _ (liftFiling_apply_of_error hwrite)] at h
            cases h
      · cases h
    · obtain ⟨⟩ := h
      rfl

end NatSpec.CompilerInput
