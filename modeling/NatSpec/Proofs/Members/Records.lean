import NatSpec.Members.Merge
import NatSpec.Proofs.Table.Lookup

/-!
Merging on members whose records are all objects. On such members a step with an object as its
note meets no fault, and it is a change of the table of fields alone. The changes of a whole
section are read off by key: what a key holds afterwards is what it held before, with the notes of
that key laid over it in their order.
-/

namespace NatSpec.Members

/-- The fields of records that are all objects. -/
abbrev Records := Table String Fields

def ofRecords (records : Records) : Members :=
  Table.mapValues Json.obj records

@[simp] theorem keys_ofRecords (records : Records) :
    Table.keys (ofRecords records) = records.keys :=
  Table.keys_mapValues ..

@[simp] theorem get?_ofRecords (records : Records) (key : String) :
    Table.get? (ofRecords records) key = (records.get? key).map Json.obj :=
  Table.get?_mapValues ..

@[simp] theorem set_ofRecords (records : Records) (key : String) (fields : Fields) :
    Table.set (ofRecords records) key (.obj fields) = ofRecords (records.set key fields) :=
  Table.set_mapValues ..

/-- The key of the function that reads a public state variable. -/
def getter (name : String) : String := name ++ "()"

theorem getter_injective : Function.Injective getter := by
  intro a b h
  exact String.append_left_inj "()" |>.1 h

namespace Records

/-- Lays a note over the fields under a key, if there are any. -/
def lay (key : String) (note : Fields) (records : Records) : Records :=
  match records.get? key with
  | none => records
  | some fields => records.set key (Table.overlay fields note)

/-- Lays a note and the kind of a state variable over the fields under its getter. -/
def layVariable (name : String) (note : Fields) (records : Records) : Records :=
  let fields := (records.get? (getter name)).getD []
  records.set (getter name)
    (Table.set (Table.overlay fields note) (.text "type") (.str stateVariableKind))

def layAll (notes : List (String × Fields)) (records : Records) : Records :=
  notes.foldl (fun records note => lay note.1 note.2 records) records

/-- Lays the notes of state variables one after another. -/
def layVariables (notes : List (String × Fields)) (records : Records) : Records :=
  notes.foldl (fun records note => layVariable note.1 note.2 records) records

end Records

/-- A step that succeeds on records and changes them in the given way. -/
def Lays (step : Step) (change : Records → Records) : Prop :=
  ∀ records, step (ofRecords records) = (ofRecords (change records), none)

theorem lays_annotate (key : String) (note : Fields) :
    Lays (annotate key (.obj note)) (Records.lay key note) := by
  intro records
  cases h : records.get? key with
  | none => simp [annotate, Records.lay, h, Json.overlay]
  | some fields => simp [annotate, Records.lay, h, Json.overlay]

theorem lays_annotateVariable (name : String) (note : Fields) :
    Lays (annotateVariable name (.obj note)) (Records.layVariable name note) := by
  intro records
  have hkey : name ++ "()" = getter name := rfl
  cases h : records.get? (getter name) with
  | none => simp [annotateVariable, Records.layVariable, hkey, h, Json.overlay]
  | some fields => simp [annotateVariable, Records.layVariable, hkey, h, Json.overlay]

theorem lays_inTurn {α : Type} (items : List α) (step : α → Step)
    (change : α → Records → Records) (h : ∀ a ∈ items, Lays (step a) (change a)) :
    Lays (inTurn (items.map step))
      fun records => items.foldl (fun records a => change a records) records := by
  induction items with
  | nil =>
      intro records
      rfl
  | cons a items ih =>
      intro records
      rw [List.map_cons, inTurn, h a (List.mem_cons_self ..) records]
      exact ih (fun b hb => h b (List.mem_cons_of_mem _ hb)) (change a records)

namespace Records

@[simp] theorem keys_lay (key : String) (note : Fields) (records : Records) :
    (lay key note records).keys = records.keys := by
  unfold lay
  split
  · rfl
  · rename_i fields h
    have hmem : key ∈ records.keys := Table.mem_keys_of_mem (Table.mem_of_get? h)
    exact Table.keys_set_of_mem _ hmem

theorem get?_lay (key : String) (note : Fields) (records : Records) (other : String) :
    (lay key note records).get? other =
      (records.get? other).map fun fields =>
        if key = other then Table.overlay fields note else fields := by
  unfold lay
  split
  · rename_i h
    by_cases hk : key = other
    · subst hk
      simp [h]
    · simp [hk]
  · rename_i fields h
    rw [Table.get?_set]
    by_cases hk : key = other
    · subst hk
      simp [h]
    · simp [hk]

@[simp] theorem keys_layAll (notes : List (String × Fields)) (records : Records) :
    (layAll notes records).keys = records.keys := by
  induction notes generalizing records with
  | nil => rfl
  | cons note notes ih => exact (ih _).trans (keys_lay ..)

/-- The notes of one key, in their order. -/
def notesOf (notes : List (String × Fields)) (key : String) : List Fields :=
  (notes.filter fun note => note.1 = key).map Prod.snd

theorem notesOf_cons (note : String × Fields) (notes : List (String × Fields)) (key : String) :
    notesOf (note :: notes) key =
      if note.1 = key then note.2 :: notesOf notes key else notesOf notes key := by
  by_cases h : note.1 = key <;> simp [notesOf, h]

/-- Laying notes reaches the keys that are there, each with its own notes only. -/
theorem get?_layAll (notes : List (String × Fields)) (records : Records) (key : String) :
    (layAll notes records).get? key =
      (records.get? key).map fun fields => (notesOf notes key).foldl Table.overlay fields := by
  induction notes generalizing records with
  | nil => simp [layAll, notesOf]
  | cons note notes ih =>
      rw [show layAll (note :: notes) records = layAll notes (lay note.1 note.2 records) from rfl,
        ih, get?_lay, Option.map_map, notesOf_cons]
      by_cases h : note.1 = key <;> simp [h, Function.comp_def]

theorem keys_layVariable (name : String) (note : Fields) (records : Records) :
    (layVariable name note records).keys =
      if getter name ∈ records.keys then records.keys else records.keys ++ [getter name] := by
  unfold layVariable
  split
  · rename_i h
    exact Table.keys_set_of_mem _ h
  · rename_i h
    exact Table.keys_set_of_not_mem _ h

/-- The getters that have no record yet get one, in the order of the variables. -/
theorem keys_layVariables (notes : List (String × Fields)) (records : Records)
    (h : (Table.keys notes).Nodup) :
    (layVariables notes records).keys =
      records.keys ++
        ((Table.keys notes).map getter).filter fun key => key ∉ records.keys := by
  induction notes generalizing records with
  | nil => simp [layVariables]
  | cons note notes ih =>
      rw [Table.keys_cons, List.nodup_cons] at h
      rw [show layVariables (note :: notes) records =
        layVariables notes (layVariable note.1 note.2 records) from rfl, ih _ h.2]
      rw [keys_layVariable, Table.keys_cons, List.map_cons]
      split
      · rename_i hmem
        simp [hmem]
      · rename_i hmem
        have hrest : ∀ key ∈ (Table.keys notes).map getter, key ≠ getter note.1 := by
          rintro key hkey rfl
          obtain ⟨name, hname, heq⟩ := List.mem_map.1 hkey
          exact h.1 (getter_injective heq ▸ hname)
        have hfilter : ((Table.keys notes).map getter).filter
              (fun key => key ∉ records.keys ++ [getter note.1]) =
            ((Table.keys notes).map getter).filter fun key => key ∉ records.keys := by
          apply List.filter_congr
          intro key hkey
          simp [hrest key hkey]
        rw [hfilter, List.filter_cons_of_pos (by simpa using hmem), List.append_assoc,
          List.singleton_append]

def variableLayers (note : Fields) : List Fields :=
  [note, [(.text "type", .str stateVariableKind)]]

theorem get?_layVariable (name : String) (note : Fields) (records : Records) (other : String) :
    (layVariable name note records).get? other =
      if getter name = other then
        some ((variableLayers note).foldl Table.overlay ((records.get? other).getD []))
      else records.get? other := by
  unfold layVariable
  rw [Table.get?_set]
  by_cases h : getter name = other
  · subst h
    simp [variableLayers, Table.overlay]
  · simp [h]

/-- What the notes of the variables with one getter lay over its record. -/
def variableLayersOf (notes : List (String × Fields)) (key : String) : List Fields :=
  (notes.filter fun note => getter note.1 = key).flatMap fun note => variableLayers note.2

/-- A getter of a variable has its layers over its record or over no fields; no other key
changes. -/
theorem get?_layVariables (notes : List (String × Fields)) (records : Records) (key : String) :
    (layVariables notes records).get? key =
      if key ∈ (Table.keys notes).map getter then
        some ((variableLayersOf notes key).foldl Table.overlay ((records.get? key).getD []))
      else records.get? key := by
  induction notes generalizing records with
  | nil => simp [layVariables]
  | cons note notes ih =>
      rw [show layVariables (note :: notes) records =
        layVariables notes (layVariable note.1 note.2 records) from rfl, ih, get?_layVariable,
        Table.keys_cons, List.map_cons]
      by_cases hk : getter note.1 = key
      · subst hk
        simp only [if_true, List.mem_cons_self, Option.getD_some, variableLayersOf,
          List.filter_cons_of_pos, decide_true, List.flatMap_cons, List.foldl_append]
        split
        · rfl
        · rename_i hrest
          have hnone : notes.filter (fun other => getter other.1 = getter note.1) = [] := by
            rw [List.filter_eq_nil_iff]
            intro other hother
            have hne : getter other.1 ≠ getter note.1 := by
              intro heq
              exact hrest (heq ▸ List.mem_map_of_mem (List.mem_map_of_mem hother))
            simpa using hne
          rw [hnone]
          rfl
      · simp [hk, Ne.symm hk, variableLayersOf]

end Records

end NatSpec.Members
