import NatSpec.Proofs.CompilerInput
import NatSpec.Proofs.Table.Overlay

/-!
What asking for documentation does to the settings of compilers. On the way to the outputs that are
selected for all contracts each table gets one field, in its old place or behind the others. The
outputs go on with the needed ones that were missing. So no list that goes on from the old one and
names what is needed holds less, and asking again changes nothing.
-/

namespace NatSpec

namespace CompilerInput

variable {τ : Type}

/-! ### Fields that are set -/

/-- A table with another value under a name: where the old value stood, or behind all other fields
if there was none. -/
inductive Sets (name : τ) : Option (Json τ) → Json τ → Fields τ → Fields τ → Prop
  | inPlace {front back : Fields τ} {old new : Json τ} : .text name ∉ Table.keys front →
      Sets name (some old) new (front ++ (.text name, old) :: back)
        (front ++ (.text name, new) :: back)
  | atEnd {fields : Fields τ} {new : Json τ} : .text name ∉ Table.keys fields →
      Sets name none new fields (fields ++ [(.text name, new)])

theorem Sets.cons {name : τ} {old : Option (Json τ)} {new : Json τ} {fields changed : Fields τ}
    (h : Sets name old new fields changed) {entry : Json.Key τ × Json τ}
    (hentry : entry.1 ≠ .text name) : Sets name old new (entry :: fields) (entry :: changed) := by
  have hkeys {front : Fields τ} (hfront : Json.Key.text name ∉ Table.keys front) :
      .text name ∉ Table.keys (entry :: front) := by
    rw [Table.keys_cons, List.mem_cons, not_or]
    exact ⟨hentry.symm, hfront⟩
  cases h with
  | inPlace hfront => exact .inPlace (hkeys hfront)
  | atEnd hfields => exact .atEnd (hkeys hfields)

variable [DecidableEq τ]

theorem beq_text_iff {key : Json.Key τ} {name : τ} :
    (key == .text name) = true ↔ key = .text name := by
  constructor
  · intro h
    have hvalue : key.value = .text name := Json.Key.beq_iff.1 h
    cases key with
    | text s => rw [Json.Key.Value.text.inj hvalue]
    | float x =>
        rw [Json.Key.value] at hvalue
        split at hvalue <;> cases hvalue
    | null => cases hvalue
    | bool b => cases hvalue
    | int i => cases hvalue
  · rintro rfl
    exact BEq.rfl

theorem sets_set (fields : Fields τ) (name : τ) (new : Json τ) :
    Sets name (Table.get? fields (.text name)) new fields (Table.set fields (.text name) new) := by
  induction fields with
  | nil => exact .atEnd (by simp)
  | cons entry fields ih =>
      obtain ⟨key, old⟩ := entry
      rw [Table.get?, Table.set]
      split
      · rename_i hkey
        obtain rfl := beq_text_iff.1 hkey
        exact @Sets.inPlace _ name [] fields old new (by simp)
      · rename_i hkey
        exact ih.cons fun heq => hkey (beq_text_iff.2 heq)

/-! ### Selections -/

/-- A list that goes on from another one and has what is needed, with nothing more than that takes:
what is added was missing, is added once, and every list that does the same holds it. -/
structure LeastWith (needed before after : List τ) : Prop where
  added : ∃ added, after = before ++ added ∧ added.Nodup ∧ ∀ output ∈ added, output ∉ before
  present : ∀ output ∈ needed, output ∈ after
  least : ∀ other, before <+: other → (∀ output ∈ needed, output ∈ other) → after.Subperm other

theorem leastWith_append_filter {needed : List τ} (hneeded : needed.Nodup)
    (before : List τ) :
    LeastWith needed before (before ++ needed.filter fun output => output ∉ before) where
  added := ⟨_, rfl, hneeded.filter _, fun output houtput => by
    simpa using (List.mem_filter.1 houtput).2⟩
  present := by
    intro output houtput
    by_cases hbefore : output ∈ before
    · exact List.mem_append_left _ hbefore
    · exact List.mem_append_right _ (List.mem_filter.2 ⟨houtput, by simpa using hbefore⟩)
  least := by
    rintro _ ⟨rest, rfl⟩ hother
    refine (List.subperm_append_left _).2
      (List.subperm_of_subset (hneeded.filter _) fun output houtput => ?_)
    obtain ⟨houtput, hnew⟩ := List.mem_filter.1 houtput
    exact (List.mem_append.1 (hother output houtput)).resolve_left (by simpa using hnew)

variable [IsText τ]

omit [DecidableEq τ] in
theorem nodup_neededOutputs : (neededOutputs : List τ).Nodup := by
  have hne : (IsText.ofString "devdoc" : τ) ≠ IsText.ofString "userdoc" := by
    intro heq
    have hunits := congrArg IsText.units heq
    rw [IsText.units_ofString, IsText.units_ofString] at hunits
    exact absurd hunits (by decide)
  simpa [neededOutputs] using hne

/-- The needed outputs that are missing among texts go behind them. -/
theorem foldlM_select_texts {needed : List τ} (hneeded : needed.Nodup)
    (outputs : List τ) :
    needed.foldlM select (.arr (outputs.map .str)) =
      .ok (.arr ((outputs ++ needed.filter fun output => output ∉ outputs).map .str)) := by
  induction needed generalizing outputs with
  | nil =>
      rw [List.filter_nil, List.append_nil]
      rfl
  | cons output needed ih =>
      obtain ⟨hnot, hneeded⟩ := List.nodup_cons.1 hneeded
      have hselects :
          selects (.arr (outputs.map .str)) output = .ok (decide (output ∈ outputs)) := by
        rw [selects, List.any_map]
        refine congrArg Except.ok (Bool.eq_iff_iff.2 ?_)
        simp [Json.asText?, List.any_eq_true]
      rw [List.foldlM_cons, select, hselects, ok_bind, List.filter_cons]
      by_cases hold : output ∈ outputs
      · simp only [hold, decide_true, not_true, decide_false, if_true, Bool.false_eq_true, if_false]
        exact ih hneeded outputs
      · simp only [hold, decide_false, not_false_eq_true, decide_true, Bool.false_eq_true, if_false,
          if_true]
        rw [ok_bind]
        -- What comes behind is not the output just added, so it is missing as it was before.
        have hfilter : (needed.filter fun other => other ∉ outputs ++ [output]) =
            needed.filter fun other => other ∉ outputs :=
          List.filter_congr fun other hother => by
            have hne : other ≠ output := fun heq => hnot (heq ▸ hother)
            simp [hne]
        have hih := ih hneeded (outputs ++ [output])
        rw [hfilter, List.append_assoc, List.singleton_append] at hih
        rwa [List.map_append] at hih

/-! ### Asking again -/

variable {v w missing : Json τ} {name : String}

theorem select_of_selects {output : τ} (h : selects v output = .ok true) :
    select v output = .ok v := by
  unfold select
  rw [h, ok_bind, if_pos rfl]

/-- What is selected is there afterwards, with all that was there. -/
theorem selects_of_select {output : τ} (h : select v output = .ok w) :
    selects w output = .ok true ∧
      ∀ other, selects v other = .ok true → selects w other = .ok true := by
  obtain ⟨named, hnamed, h⟩ := bind_eq_ok_iff.1 h
  cases named with
  | true =>
      obtain rfl := Except.ok.inj h
      exact ⟨hnamed, fun _ => id⟩
  | false =>
      cases v with
      | arr items =>
          obtain rfl := Except.ok.inj h
          have hany (other : τ) : selects (.arr (items ++ [.str output])) other =
              .ok ((items.any fun v => v.asText? = some other) || decide (output = other)) := by
            simp [selects, Json.asText?]
          refine ⟨by rw [hany, decide_eq_true rfl, Bool.or_true], fun other hother => ?_⟩
          rw [hany, Except.ok.inj hother, Bool.true_or]
      | _ => cases h

theorem foldlM_select_of_selects {outputs : List τ}
    (h : ∀ output ∈ outputs, selects v output = .ok true) : outputs.foldlM select v = .ok v := by
  induction outputs with
  | nil => rfl
  | cons output outputs ih =>
      rw [List.forall_mem_cons] at h
      rw [List.foldlM_cons, select_of_selects h.1, ok_bind, ih h.2]

theorem foldlM_select_again {outputs : List τ} (h : outputs.foldlM select v = .ok w) :
    outputs.foldlM select w = .ok w := by
  refine foldlM_select_of_selects (foldlM_keeps_behind
    (I := fun done w => ∀ output ∈ done, selects w output = .ok true) ?_ h (by simp))
  intro done output rest _ v w hdone hselect
  obtain ⟨houtput, hkept⟩ := selects_of_select hselect
  rintro other hother
  rcases List.mem_append.1 hother with hother | hother
  · exact hkept other (hdone other hother)
  · rwa [List.mem_singleton.1 hother]

theorem changeField_again {change : Json τ → Except Fault (Json τ)}
    (hchange : ∀ v w, change v = .ok w → change w = .ok w)
    (h : changeField v name missing change = .ok w) :
    changeField w name missing change = .ok w := by
  cases v with
  | obj fields =>
      obtain ⟨changed, hchanged, h⟩ := bind_eq_ok_iff.1 h
      obtain rfl := Except.ok.inj h
      rw [changeField, Table.get?_set_self, Option.getD_some, hchange _ _ hchanged, ok_bind,
        Table.set_set]
  | _ => cases h

/-- What was asked for once is there, so that asking for it again changes nothing. -/
theorem requestOutputs_again (h : requestOutputs v = .ok w) : requestOutputs w = .ok w :=
  changeField_again (fun _ _ => changeField_again fun _ _ => changeField_again fun _ _ =>
    changeField_again fun _ _ => foldlM_select_again) h

theorem requestAll_again (h : requestAll v = .ok w) : requestAll w = .ok w := by
  have hsame := h
  unfold requestAll at h
  split at h
  · rename_i items
    obtain ⟨changed, hchanged, h⟩ := bind_eq_ok_iff.1 h
    obtain rfl := Except.ok.inj h
    have hagain : changed.mapM requestOutputs = .ok changed :=
      mapM_eq_ok_iff.2 (List.forall₂_same.2 fun u hu => by
        obtain ⟨item, -, hitem⟩ := exists_left_of_forall₂ (mapM_eq_ok_iff.1 hchanged) hu
        exact requestOutputs_again hitem)
    rw [requestAll, hagain, ok_bind]
  · -- Of other collections only the empty ones are let through, and they are given back.
    split at h
    · obtain rfl := Except.ok.inj h
      exact hsame
    · cases h
  · obtain rfl := Except.ok.inj h
    exact hsame
  · cases h
  · cases h

/-! ### Routes -/

/-- The tables on the way from a compiler to the outputs that are selected for all contracts, and
these outputs. -/
structure Route (τ : Type := String) where
  settings : Fields τ
  selection : Fields τ
  files : Fields τ
  outputs : List τ

namespace Route

/-- Where the fields of a compiler lead. What is missing counts as empty. -/
structure IsOf (r : Route τ) (compiler : Fields τ) : Prop where
  settings : (Table.get? compiler "settings").getD (.obj []) = .obj r.settings
  selection : (Table.get? r.settings "outputSelection").getD (.obj []) = .obj r.selection
  files : (Table.get? r.selection "*").getD (.obj []) = .obj r.files
  outputs : (Table.get? r.files "*").getD (.arr []) = .arr (r.outputs.map .str)

/-- The route with the outputs that were missing. -/
def extended (r : Route τ) : Route τ :=
  let outputs := r.outputs ++ neededOutputs.filter fun output => output ∉ r.outputs
  let files := Table.set r.files "*" (.arr (outputs.map .str))
  let selection := Table.set r.selection "*" (.obj files)
  { settings := Table.set r.settings "outputSelection" (.obj selection)
    selection := selection
    files := files
    outputs := outputs }

end Route

/-- A compiler with its route beside the compiler and the route that were made of them: each table
has one field set, the one that leads on, and the outputs go on with those that were missing. -/
structure Extends (compiler changed : Fields τ) (r r' : Route τ) : Prop where
  compiler : Sets (IsText.ofString "settings") (Table.get? compiler "settings") (.obj r'.settings)
    compiler changed
  settings : Sets (IsText.ofString "outputSelection") (Table.get? r.settings "outputSelection")
    (.obj r'.selection) r.settings r'.settings
  selection : Sets (IsText.ofString "*") (Table.get? r.selection "*") (.obj r'.files) r.selection
    r'.selection
  files : Sets (IsText.ofString "*") (Table.get? r.files "*") (.arr (r'.outputs.map .str)) r.files
    r'.files
  outputs : r'.outputs = r.outputs ++
    (["devdoc", "userdoc"].map IsText.ofString).filter fun output => output ∉ r.outputs

variable {r : Route τ} {compiler : Fields τ}

theorem requestOutputs_of_isOf (h : r.IsOf compiler) :
    requestOutputs (.obj compiler) =
      .ok (.obj (Table.set compiler "settings" (.obj r.extended.settings))) := by
  simp only [requestOutputs, changeField, h.settings, h.selection, h.files, h.outputs,
    foldlM_select_texts nodup_neededOutputs, ok_bind]
  rfl

theorem isOf_extended (compiler : Fields τ) (r : Route τ) :
    r.extended.IsOf (Table.set compiler "settings" (.obj r.extended.settings)) where
  settings := by rw [Table.get?_set_self, Option.getD_some]
  selection := by rw [Route.extended, Table.get?_set_self, Option.getD_some]
  files := by rw [Route.extended, Table.get?_set_self, Option.getD_some]
  outputs := by rw [Route.extended, Table.get?_set_self, Option.getD_some]

theorem extends_extended (compiler : Fields τ) (r : Route τ) :
    Extends compiler (Table.set compiler "settings" (.obj r.extended.settings)) r
      r.extended where
  compiler := sets_set _ _ _
  settings := sets_set _ _ _
  selection := sets_set _ _ _
  files := sets_set _ _ _
  outputs := rfl

theorem requestAll_singleton {v w : Json τ} (h : requestOutputs v = .ok w) :
    requestAll (.arr [v]) = .ok (.arr [w]) := by
  rw [requestAll, List.mapM_cons, h, ok_bind, List.mapM_nil]
  rfl

/-- Asking for documentation extends each of several compilers by itself, as little as can be, and
only once. -/
theorem requestAll_extends {compilers : List (Fields τ)}
    (h : ∀ compiler ∈ compilers, ∃ r : Route τ, r.IsOf compiler) :
    ∃ extended : List (Fields τ),
      requestAll (.arr (compilers.map .obj)) = .ok (.arr (extended.map .obj)) ∧
      requestAll (.arr (extended.map .obj)) = .ok (.arr (extended.map .obj)) ∧
      List.Forall₂ (fun compiler changed =>
        requestAll (.arr [.obj compiler]) = .ok (.arr [.obj changed]) ∧
        ∃ r r' : Route τ, r.IsOf compiler ∧ r'.IsOf changed ∧ Extends compiler changed r r' ∧
          LeastWith (["devdoc", "userdoc"].map IsText.ofString) r.outputs r'.outputs)
      compilers extended := by
  have hone : ∀ compiler ∈ compilers, ∃ changed : Fields τ,
      requestOutputs (.obj compiler) = .ok (.obj changed) ∧
      ∃ r r' : Route τ, r.IsOf compiler ∧ r'.IsOf changed ∧ Extends compiler changed r r' ∧
        LeastWith (["devdoc", "userdoc"].map IsText.ofString) r.outputs r'.outputs := by
    intro compiler hcompiler
    obtain ⟨r, hr⟩ := h compiler hcompiler
    exact ⟨_, requestOutputs_of_isOf hr, r, r.extended, hr, isOf_extended compiler r,
      extends_extended compiler r, leastWith_append_filter nodup_neededOutputs r.outputs⟩
  obtain ⟨extended, hextended⟩ := exists_forall₂_iff.2 hone
  have hmap : (compilers.map Json.obj).mapM requestOutputs = .ok (extended.map .obj) := by
    rw [mapM_eq_ok_iff, List.forall₂_map_left_iff, List.forall₂_map_right_iff]
    exact hextended.imp fun _ _ hchanged => hchanged.1
  have hall : requestAll (.arr (compilers.map .obj)) = .ok (.arr (extended.map .obj)) := by
    rw [requestAll, hmap, ok_bind]
  exact ⟨extended, hall, requestAll_again hall, hextended.imp fun _ _ hchanged =>
    ⟨requestAll_singleton hchanged.1, hchanged.2⟩⟩

/-- A compiler without settings. -/
def bareCompiler : Fields := [("version", .str "0.8.24")]

/-- A compiler that selects one of the needed outputs twice, and others for parts of the sources. -/
def tunedCompiler : Fields :=
  [("settings", .obj
      [("outputSelection", .obj
          [("A.sol", .obj [("A", .arr [.str "abi"])]),
            ("*", .obj [("*", .arr [.str "userdoc", .str "abi", .str "userdoc"]),
              ("", .arr [.str "ast"])])]),
        ("optimizer", .obj [("runs", .int 200)])]),
    ("version", .str "0.8.19")]

/-- Both compilers with the needed outputs. -/
def extendedCompilers : List Fields :=
  [[("version", .str "0.8.24"),
      ("settings", .obj [("outputSelection", .obj
        [("*", .obj [("*", .arr [.str "devdoc", .str "userdoc"])])])])],
    [("settings", .obj
        [("outputSelection", .obj
            [("A.sol", .obj [("A", .arr [.str "abi"])]),
              ("*", .obj
                [("*", .arr [.str "userdoc", .str "abi", .str "userdoc", .str "devdoc"]),
                  ("", .arr [.str "ast"])])]),
          ("optimizer", .obj [("runs", .int 200)])]),
      ("version", .str "0.8.19")]]

theorem requestAll_extends_sample :
    (∀ compiler ∈ [bareCompiler, tunedCompiler], ∃ r : Route, r.IsOf compiler) ∧
    requestAll (.arr ([bareCompiler, tunedCompiler].map .obj)) =
      .ok (.arr (extendedCompilers.map .obj)) ∧
    requestAll (.arr (extendedCompilers.map .obj)) = .ok (.arr (extendedCompilers.map .obj)) ∧
    List.Forall₂ (fun compiler changed =>
      requestAll (.arr [.obj compiler]) = .ok (.arr [.obj changed]) ∧
      ∃ r r' : Route, r.IsOf compiler ∧ r'.IsOf changed ∧ Extends compiler changed r r' ∧
        LeastWith ["devdoc", "userdoc"] r.outputs r'.outputs)
      [bareCompiler, tunedCompiler] extendedCompilers := by
  have hbare : Route.IsOf ⟨[], [], [], []⟩ bareCompiler := ⟨rfl, rfl, rfl, rfl⟩
  have htuned : Route.IsOf ⟨_, _, _, ["userdoc", "abi", "userdoc"]⟩ tunedCompiler :=
    ⟨rfl, rfl, rfl, rfl⟩
  have hroutes : ∀ compiler ∈ [bareCompiler, tunedCompiler], ∃ r : Route, r.IsOf compiler := by
    simpa using ⟨⟨_, hbare⟩, ⟨_, htuned⟩⟩
  have hrequest : requestAll (.arr ([bareCompiler, tunedCompiler].map .obj)) =
      .ok (.arr (extendedCompilers.map .obj)) := rfl
  obtain ⟨extended, hall, hagain, heach⟩ := requestAll_extends hroutes
  have hvalues := Json.arr.inj (Except.ok.inj (hall.symm.trans hrequest))
  obtain rfl := List.map_injective_iff.2 (fun _ _ => Json.obj.inj) hvalues
  exact ⟨hroutes, hall, hagain, heach⟩

end CompilerInput

end NatSpec
