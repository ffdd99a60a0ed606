import NatSpec.CommandLine.Run
import NatSpec.Proofs.Run
import NatSpec.Proofs.Table.Lookup

/-!
Options in layers: a table is laid over the defaults, and overrides over the table. The main
statement says which tables are accepted, what the first unusable entry of any other one is reported
as, and which of the three layers each option has its value from. The command line is such a set of
overrides.
-/

namespace NatSpec

/-! ### Names and kinds -/

namespace OptionName

def name : OptionName → String
  | path => "path"
  | clear => "clear"
  | runOnCompile => "run_on_compile"
  | artifacts => "artifacts"
  | compileCommand => "compile_command"

/-- A key denotes an option if it is the name of the option once its dashes are underscores. -/
def Denotes (option : OptionName) (key : String) : Prop :=
  key.map (fun c => if c = '-' then '_' else c) = option.name

instance (option : OptionName) (key : String) : Decidable (option.Denotes key) :=
  inferInstanceAs (Decidable (_ = _))

variable {option : OptionName} {text : String}

theorem ofName?_eq_some_iff : ofName? text = some option ↔ text = option.name := by
  constructor
  · intro h
    unfold ofName? at h
    split_ifs at h
    all_goals
      obtain rfl := Option.some.inj h
      assumption
  · rintro rfl
    cases option <;> rfl

theorem name_inj {other : OptionName} (h : option.name = other.name) : option = other :=
  Option.some.inj ((ofName?_eq_some_iff.2 rfl).symm.trans (ofName?_eq_some_iff.2 h))

theorem ofKey?_eq_some_iff : ofKey? text = some option ↔ option.Denotes text :=
  ofName?_eq_some_iff

theorem ofKey?_eq_none_iff : ofKey? text = none ↔ ∀ option : OptionName, ¬option.Denotes text := by
  simp only [Option.eq_none_iff_forall_ne_some, ne_eq, ofKey?_eq_some_iff]

/-- No key denotes two options. -/
theorem Denotes.unique {other : OptionName} (h : option.Denotes text) (hother : other.Denotes text) :
    option = other :=
  Option.some.inj ((ofKey?_eq_some_iff.2 h).symm.trans (ofKey?_eq_some_iff.2 hother))

end OptionName

namespace Setting

/-- The kind of a value in a table. Numbers, dates, arrays and tables are of no kind. -/
def kind? : Setting → Option OptionKind
  | text _ => some .text
  | flag _ => some .flag
  | other _ => none

variable {value : Setting} {kind : OptionKind}

theorem exists_as?_iff : (∃ v, value.as? kind = some v) ↔ value.kind? = some kind := by
  cases value <;> cases kind <;> simp [as?, kind?]

theorem as?_eq_none_iff : value.as? kind = none ↔ value.kind? ≠ some kind := by
  rw [ne_eq, ← exists_as?_iff, Option.eq_none_iff_forall_ne_some, not_exists]

/-- A JSON value is of a kind if the two have one word. -/
theorem kind?_ofJson_iff {v : Json} : (ofJson v).kind? = some kind ↔ v.kindName = kind.word := by
  cases v <;> cases kind <;> simp [ofJson, kind?, Json.kindName, OptionKind.word]

end Setting

theorem Json.Key.asText?_eq_some_iff {key : Json.Key} {text : String} :
    key.asText? = some text ↔ key = .text text := by
  cases key <;> simp [asText?]

namespace Options

variable {o o' : Options} {option : OptionName}

theorem get_set (o : Options) (a b : OptionName) (v : Json) :
    (o.set a v).get b = if a = b then v else o.get b := by
  cases a <;> cases b <;> rfl

theorem ext_get (h : ∀ option, o.get option = o'.get option) : o = o' := by
  cases o
  cases o'
  rw [mk.injEq]
  exact ⟨h .path, h .clear, h .runOnCompile, h .artifacts, h .compileCommand⟩

/-- A layer of items each of which sets the options that it denotes and keeps the others: in the end
an option has the value of the last item that denotes it, and the value before if none does. -/
theorem get_of_foldlM {ε α : Type} {step : Options → α → Except ε Options} {denotes : α → Prop}
    [DecidablePred denotes] {value : α → Option Json}
    (hset : ∀ o a o', step o a = .ok o' → denotes a → value a = some (o'.get option))
    (hkeep : ∀ o a o', step o a = .ok o' → ¬denotes a → o'.get option = o.get option)
    {items : List α} (h : items.foldlM step o = .ok o') :
    o'.get option = ((items.filter denotes).getLast?.bind value).getD (o.get option) := by
  -- The invariant says the same of the items that the fold has gone through.
  refine foldlM_keeps_behind (I := fun done current => current.get option =
    ((done.filter denotes).getLast?.bind value).getD (o.get option)) ?_ h rfl
  rintro done a rest - current next hcurrent hnext
  by_cases ha : denotes a
  · simp [ha, hset current a next hnext ha]
  · simp [ha, hkeep current a next hnext ha, hcurrent]

/-! ### Tables -/

/-- An entry of a table is accepted if its key denotes an option and its value is of just the kind
of that option. -/
def Accepts (e : String × Setting) : Prop :=
  ∃ option : OptionName, option.Denotes e.1 ∧ e.2.kind? = some option.kind

/-- What an entry of a table that is not accepted is reported as. -/
inductive Refuses : String × Setting → Problem → Prop
  | unknown {key : String} {value : Setting} (hkey : ∀ option : OptionName, ¬option.Denotes key) :
      Refuses (key, value) (.unknownOption key)
  | kind {key : String} {value : Setting} {option : OptionName} (hkey : option.Denotes key)
      (hvalue : value.kind? ≠ some option.kind) :
      Refuses (key, value) (.optionKind key option.kind.word value.kindName)

/-- The value of the last key of a table that denotes an option. -/
def lastValue? (table : List (String × Setting)) (option : OptionName) : Option Json :=
  (table.filter fun e => option.Denotes e.1).getLast?.bind fun e => e.2.as? option.kind

def withEntry (o : Options) (e : String × Setting) : Except Problem Options :=
  (entry e.1 e.2).map fun found => o.set found.1 found.2

variable {e : String × Setting} {table : List (String × Setting)} {p : Problem} {v : Json}

theorem withTable_eq_foldlM (o : Options) (table : List (String × Setting)) :
    o.withTable table = table.foldlM withEntry o := by
  induction table generalizing o with
  | nil => rfl
  | cons e table ih =>
      rw [withTable, List.foldlM_cons, withEntry]
      cases entry e.1 e.2 with
      | error p => rfl
      | ok found => exact ih _

theorem entry_eq_ok_iff :
    entry e.1 e.2 = .ok (option, v) ↔ option.Denotes e.1 ∧ e.2.as? option.kind = some v := by
  constructor
  · intro h
    unfold entry at h
    split at h
    · cases h
    · rename_i found hkey
      split at h
      · cases h
      · rename_i w hvalue
        obtain ⟨rfl, rfl⟩ := Prod.mk.inj (Except.ok.inj h)
        exact ⟨OptionName.ofKey?_eq_some_iff.1 hkey, hvalue⟩
  · rintro ⟨hkey, hvalue⟩
    simp only [entry, OptionName.ofKey?_eq_some_iff.2 hkey, hvalue]

theorem entry_eq_error_iff : entry e.1 e.2 = .error p ↔ Refuses e p := by
  constructor
  · intro h
    unfold entry at h
    split at h
    · rename_i hkey
      obtain rfl := Except.error.inj h
      exact .unknown (OptionName.ofKey?_eq_none_iff.1 hkey)
    · rename_i found hkey
      split at h
      · rename_i hvalue
        obtain rfl := Except.error.inj h
        exact .kind (OptionName.ofKey?_eq_some_iff.1 hkey) (Setting.as?_eq_none_iff.1 hvalue)
      · cases h
  · rintro (hkey | ⟨hkey, hvalue⟩)
    · simp only [entry, OptionName.ofKey?_eq_none_iff.2 hkey]
    · simp only [entry, OptionName.ofKey?_eq_some_iff.2 hkey,
        Setting.as?_eq_none_iff.2 hvalue]

/-- What an entry does to the options: it sets the one that its key denotes. -/
theorem withEntry_eq_ok_iff : o.withEntry e = .ok o' ↔
    ∃ option v, option.Denotes e.1 ∧ e.2.as? option.kind = some v ∧ o' = o.set option v := by
  constructor
  · intro h
    rw [withEntry] at h
    cases hentry : entry e.1 e.2 with
    | error p =>
        rw [hentry] at h
        cases h
    | ok found =>
        rw [hentry] at h
        obtain ⟨hkey, hvalue⟩ := entry_eq_ok_iff.1 hentry
        exact ⟨found.1, found.2, hkey, hvalue, (Except.ok.inj h).symm⟩
  · rintro ⟨option, v, hkey, hvalue, rfl⟩
    rw [withEntry, entry_eq_ok_iff.2 ⟨hkey, hvalue⟩]
    rfl

theorem exists_withEntry_iff (o : Options) (e : String × Setting) :
    (∃ o', o.withEntry e = .ok o') ↔ Accepts e := by
  simp only [withEntry_eq_ok_iff, Accepts, ← Setting.exists_as?_iff]
  constructor
  · rintro ⟨o', option, v, hkey, hvalue, rfl⟩
    exact ⟨option, hkey, v, hvalue⟩
  · rintro ⟨option, hkey, v, hvalue⟩
    exact ⟨_, option, v, hkey, hvalue, rfl⟩

theorem withEntry_eq_error_iff (o : Options) (e : String × Setting) (p : Problem) :
    o.withEntry e = .error p ↔ Refuses e p := by
  rw [← entry_eq_error_iff, withEntry]
  cases entry e.1 e.2 <;> simp [Except.map]

theorem exists_ofTable_iff : (∃ o, ofTable table = .ok o) ↔ ∀ e ∈ table, Accepts e := by
  have hfold : (∃ o, withTable {} table = .ok o) ↔ ∀ e ∈ table, Accepts e := by
    simp only [withTable_eq_foldlM]
    exact exists_foldlM_eq_ok_iff exists_withEntry_iff
  rw [← hfold, ofTable]
  cases withTable {} table <;> simp

theorem ofTable_eq_error_iff {failure : Failure} : ofTable table = .error failure ↔
    ∃ before e after p, table = before ++ e :: after ∧ (∀ earlier ∈ before, Accepts earlier) ∧
      Refuses e p ∧ failure = .problem p := by
  have hfold (p : Problem) : withTable {} table = .error p ↔ ∃ before e after,
      table = before ++ e :: after ∧ (∀ earlier ∈ before, Accepts earlier) ∧ Refuses e p := by
    rw [withTable_eq_foldlM]
    exact foldlM_eq_error_iff exists_withEntry_iff withEntry_eq_error_iff
  have htable : ofTable table = .error failure ↔
      ∃ p, withTable {} table = .error p ∧ failure = .problem p := by
    rw [ofTable]
    cases withTable {} table <;> simp [eq_comm]
  rw [htable]
  simp only [hfold]
  constructor
  · rintro ⟨p, ⟨before, e, after, htable, hbefore, he⟩, hfailure⟩
    exact ⟨before, e, after, p, htable, hbefore, he, hfailure⟩
  · rintro ⟨before, e, after, p, htable, hbefore, he, hfailure⟩
    exact ⟨p, ⟨before, e, after, htable, hbefore, he⟩, hfailure⟩

theorem get_of_ofTable (h : ofTable table = .ok o) (option : OptionName) :
    o.get option = (lastValue? table option).getD (({} : Options).get option) := by
  have hfold : table.foldlM withEntry {} = .ok o := by
    rw [← withTable_eq_foldlM]
    unfold ofTable at h
    split at h
    · rename_i found hfound
      rw [hfound, Except.ok.inj h]
    · cases h
  refine get_of_foldlM (fun o e o' hstep hkey => ?_) (fun o e o' hstep hkey => ?_) hfold
  · obtain ⟨found, v, hfound, hvalue, rfl⟩ := withEntry_eq_ok_iff.1 hstep
    obtain rfl := hfound.unique hkey
    rw [hvalue, get_set, if_pos rfl]
  · obtain ⟨found, v, hfound, hvalue, rfl⟩ := withEntry_eq_ok_iff.1 hstep
    rw [get_set, if_neg]
    rintro rfl
    exact hkey hfound

/-! ### Overrides -/

/-- The override of an option; null overrides nothing. Of several it is the last. -/
def override? (overrides : Fields) (option : OptionName) : Option Json :=
  (overrides.filter fun e => e.1.asText? = some option.name ∧ e.2.isNull = false).getLast?.map
    Prod.snd

def withOverride (o : Options) (e : Json.Key × Json) : Except Fault Options :=
  if e.2.isNull then .ok o
  else
    match e.1.asText? >>= OptionName.ofName? with
    | some option => .ok (o.set option e.2)
    | none => .error .wrongKind

variable {overrides : Fields}

theorem withOverrides_eq_foldlM (o : Options) (overrides : Fields) :
    o.withOverrides overrides = overrides.foldlM withOverride o := rfl

/-- What an override does to the options: null does nothing, all else sets the option of the name. -/
theorem withOverride_eq_ok_iff {e : Json.Key × Json} : o.withOverride e = .ok o' ↔
    (e.2.isNull = true ∧ o' = o) ∨ (e.2.isNull = false ∧
      ∃ option : OptionName, e.1.asText? = some option.name ∧ o' = o.set option e.2) := by
  constructor
  · intro h
    unfold withOverride at h
    split at h
    · rename_i hnull
      exact .inl ⟨hnull, (Except.ok.inj h).symm⟩
    · rename_i hnull
      split at h
      · rename_i option hoption
        obtain ⟨text, htext, hname⟩ := Option.bind_eq_some_iff.1 hoption
        refine .inr ⟨by simpa using hnull, option, ?_, (Except.ok.inj h).symm⟩
        rw [htext, OptionName.ofName?_eq_some_iff.1 hname]
      · cases h
  · rintro (⟨hnull, rfl⟩ | ⟨hnull, option, hname, rfl⟩)
    · rw [withOverride, if_pos hnull]
    · have hoption : (e.1.asText? >>= OptionName.ofName?) = some option :=
        Option.bind_eq_some_iff.2 ⟨option.name, hname, OptionName.ofName?_eq_some_iff.2 rfl⟩
      simp only [withOverride, hnull, Bool.false_eq_true, if_false, hoption]

theorem exists_withOverrides_iff : (∃ o', o.withOverrides overrides = .ok o') ↔
    ∀ e ∈ overrides, e.2.isNull = false →
      ∃ option : OptionName, e.1.asText? = some option.name := by
  simp only [withOverrides_eq_foldlM]
  refine exists_foldlM_eq_ok_iff fun o e => ?_
  simp only [withOverride_eq_ok_iff]
  cases e.2.isNull <;> simp

theorem get_of_withOverrides (h : o.withOverrides overrides = .ok o') (option : OptionName) :
    o'.get option = (override? overrides option).getD (o.get option) := by
  rw [withOverrides_eq_foldlM] at h
  rw [override?, Option.map_eq_bind]
  refine get_of_foldlM (fun o e o' hstep he => ?_) (fun o e o' hstep he => ?_) h
  · rcases withOverride_eq_ok_iff.1 hstep with ⟨hnull, -⟩ | ⟨-, found, hname, rfl⟩
    · rw [he.2] at hnull
      cases hnull
    · obtain rfl : found = option := OptionName.name_inj (Option.some.inj (hname.symm.trans he.1))
      rw [get_set, if_pos rfl, Function.comp_apply]
  · rcases withOverride_eq_ok_iff.1 hstep with ⟨-, rfl⟩ | ⟨hnull, found, hname, rfl⟩
    · rfl
    · rw [get_set, if_neg]
      rintro rfl
      exact he ⟨hname, hnull⟩

/-- Where each name stands once, what is not null overrides. -/
theorem override?_of_mem (hkeys : (Table.keys overrides).Nodup)
    (hmem : (.text option.name, v) ∈ overrides) (hnull : v.isNull = false) :
    override? overrides option = some v := by
  rw [override?]
  cases hlast : (overrides.filter fun e =>
      e.1.asText? = some option.name ∧ e.2.isNull = false).getLast? with
  | none =>
      -- The entry itself is an override of the option.
      have hnone := List.filter_eq_nil_iff.1 (List.getLast?_eq_none_iff.1 hlast) _ hmem
      exact absurd (decide_eq_true ⟨rfl, hnull⟩) hnone
  | some e =>
      obtain ⟨he, hname⟩ := List.mem_filter.1 (List.mem_of_getLast? hlast)
      have hkey : e.1 = .text option.name :=
        Json.Key.asText?_eq_some_iff.1 (of_decide_eq_true hname).1
      rw [List.inj_on_of_nodup_map hkeys he hmem hkey, Option.map_some]

/-- The same overrides change nothing the second time. -/
theorem withOverrides_again (h : o.withOverrides overrides = .ok o') :
    o'.withOverrides overrides = .ok o' := by
  obtain ⟨last, hlast⟩ : ∃ last, o'.withOverrides overrides = .ok last :=
    exists_withOverrides_iff.2 (exists_withOverrides_iff.1 ⟨o', h⟩)
  have heq : last = o' := ext_get fun option => by
    rw [get_of_withOverrides hlast, get_of_withOverrides h]
    cases override? overrides option <;> rfl
  rw [hlast, heq]

/-! ### The layers -/

/-- Options in layers. A table is accepted if all its entries are, and otherwise the first one that
is not is reported. Overrides that are not null, false and empty texts among them, come before the
last keys of the table, and these before the defaults; applied twice they do what they do once. -/
theorem layers_of_table (table : List (String × Setting)) (overrides : Fields)
    (hnames : ∀ e ∈ overrides, ∃ option : OptionName, e.1 = .text option.name) :
    ((∃ o, ofTable table = .ok o) ↔ ∀ e ∈ table, Accepts e) ∧
    (∀ failure, ofTable table = .error failure ↔
      ∃ before e after p, table = before ++ e :: after ∧ (∀ earlier ∈ before, Accepts earlier) ∧
        Refuses e p ∧ failure = .problem p) ∧
    (∀ o, ofTable table = .ok o → ∃ o', o.withOverrides overrides = .ok o' ∧
      (∀ option, o'.get option =
        ((override? overrides option).or (lastValue? table option)).getD
          (({} : Options).get option)) ∧
      (∀ (option : OptionName) v, (Table.keys overrides).Nodup →
        (.text option.name, v) ∈ overrides → v.isNull = false → o'.get option = v) ∧
      o'.withOverrides overrides = .ok o') ∧
    ∀ v kind, (Setting.ofJson v).kind? = some kind ↔ v.kindName = OptionKind.word kind := by
  refine ⟨exists_ofTable_iff, fun _ => ofTable_eq_error_iff, fun o ho => ?_,
    fun _ _ => Setting.kind?_ofJson_iff⟩
  obtain ⟨o', ho'⟩ : ∃ o', o.withOverrides overrides = .ok o' := by
    refine exists_withOverrides_iff.2 fun e he _ => ?_
    obtain ⟨option, hname⟩ := hnames e he
    exact ⟨option, Json.Key.asText?_eq_some_iff.2 hname⟩
  have hget (option : OptionName) : o'.get option =
      ((override? overrides option).or (lastValue? table option)).getD
        (({} : Options).get option) := by
    rw [get_of_withOverrides ho', get_of_ofTable ho]
    cases override? overrides option <;> rfl
  refine ⟨o', ho', hget, fun option v hkeys hmem hnull => ?_, withOverrides_again ho'⟩
  rw [hget, override?_of_mem hkeys hmem hnull]
  rfl

/-- A table that spells an option in two ways. -/
def spelledTable : List (String × Setting) :=
  [("run_on_compile", .flag false), ("clear", .flag true), ("artifacts", .text "out"),
    ("run-on_compile", .flag true)]

/-- An override that is false, one that is empty, and one that is null. -/
def blankOverrides : Fields :=
  [("clear", .bool false), ("path", .str ""), ("artifacts", .null)]

theorem layers_of_table_sample :
    (∀ e ∈ blankOverrides, ∃ option : OptionName, e.1 = .text option.name) ∧
    (∀ e ∈ spelledTable, Accepts e) ∧
    ∃ o, ofTable spelledTable = .ok o ∧ o.withOverrides blankOverrides =
      .ok ⟨.str "", .bool false, .bool true, .str "out", .str "npx hardhat compile"⟩ := by
  have hnames : ∀ e ∈ blankOverrides, ∃ option : OptionName, e.1 = .text option.name := by
    simpa [blankOverrides] using ⟨⟨.clear, rfl⟩, ⟨.path, rfl⟩, ⟨.artifacts, rfl⟩⟩
  obtain ⟨haccepts, -, hlayers, -⟩ := layers_of_table spelledTable blankOverrides hnames
  have htable : ofTable spelledTable =
      .ok ⟨.str "./docgen", .bool true, .bool true, .str "out", .str "npx hardhat compile"⟩ := by
    decide +kernel
  obtain ⟨o', ho', hget, -⟩ := hlayers _ htable
  refine ⟨hnames, haccepts.1 ⟨_, htable⟩, _, htable, ?_⟩
  rw [ho', Except.ok.injEq]
  have hrun : lastValue? spelledTable .runOnCompile = some (.bool true) := by decide +kernel
  have hartifacts : lastValue? spelledTable .artifacts = some (.str "out") := by
    decide +kernel
  have hcommand : lastValue? spelledTable .compileCommand = none := by decide +kernel
  refine ext_get fun option => (hget option).trans ?_
  cases option with
  | path => rfl
  | clear => rfl
  | runOnCompile =>
      rw [hrun]
      rfl
  | artifacts =>
      rw [hartifacts]
      rfl
  | compileCommand =>
      rw [hcommand]
      rfl

end Options

namespace CommandLine

/-- The overrides that a command line makes of its arguments; null stands for one not given. -/
def overridesOf (output : Option String) (clear : Bool) (artifacts : Option String) : Fields :=
  [("path", (output.map .str).getD .null), ("clear", if clear then .bool true else .null),
    ("artifacts", (artifacts.map .str).getD .null)]

theorem withOverrides_overridesOf (o : Options) (output artifacts : Option String) (clear : Bool) :
    o.withOverrides (overridesOf output clear artifacts) =
      .ok (let given := overrideWith (overrideWith o .path output) .artifacts artifacts
        if clear then given.set .clear (.bool true) else given) := by
  cases output <;> cases artifacts <;> cases clear <;> rfl

/-- Documentation is generated with the options of the project's file and the arguments of the
command line as overrides of them. -/
theorem perform_docgen (root : String) (l : Loudness) (output artifacts : Option String)
    (clear strict : Bool) :
    perform (.docgen root l output clear artifacts strict) = (do
      let place ← (resolvedRoot root : Run Path)
      let loaded ← (ProjectFile.load (← getThe Console).tree place : Except Failure Options)
      let options ←
        (loaded.withOverrides (overridesOf output clear artifacts) : Except Fault Options)
      log l "Generating documentation..."
      logDetail l ("Artifacts: " ++ (place / options.artifacts.display).toString)
      logReport l (← (runDocgen place options none {} strict : Run Report))) := by
  simp only [withOverrides_overridesOf]
  rfl

end CommandLine

end NatSpec
