import NatSpec.Proofs.Json.Writing

/-!
Values of strings among all values. In a text that is read half a pair of UTF-16 units may stand on
its own, which no string holds. A value of strings is one of such texts as well: it is written in the
same characters, and is read from them as itself.
-/

namespace NatSpec

theorem Utf16.ofString_inj {s t : String} : ofString s = ofString t ↔ s = t := by
  refine ⟨fun h => ?_, congrArg ofString⟩
  have hsome := toString?_eq_some_iff.2 h
  rw [toString?_eq_some_iff.2 rfl] at hsome
  exact Option.some.inj hsome

namespace Json

def Key.wide : Key → Key Utf16
  | text s => text (.ofString s)
  | null => null
  | bool b => bool b
  | int i => int i
  | float x => float x

mutual

/-- A value of strings as one whose texts may hold halves of pairs. -/
def wide : Json → Json Utf16
  | .arr vs => .arr (wideItems vs)
  | .obj fields => .obj (wideFields fields)
  | .str s => .str (.ofString s)
  | .null => .null
  | .bool b => .bool b
  | .int i => .int i
  | .float x => .float x

def wideItems : List Json → List (Json Utf16)
  | [] => []
  | v :: rest => wide v :: wideItems rest

def wideFields : List (Key × Json) → List (Key Utf16 × Json Utf16)
  | [] => []
  | (k, v) :: rest => (k.wide, wide v) :: wideFields rest

end

/-! ### Writing -/

theorem key_wide (k : Key) : Writer.key k.wide = Writer.key k := by
  cases k with
  | bool b => cases b <;> rfl
  | text _ | null | int _ | float _ => rfl

mutual

theorem value_wide (l : Layout) (level : Nat) (v : Json) :
    Writer.value l level v.wide = Writer.value l level v := by
  match v with
  | .arr [] | .obj [] => rfl
  | .arr (v :: rest) =>
      rw [wide, wideItems, Writer.value, Writer.value, value_wide l (level + 1) v,
        items_wide l (level + 1) rest]
  | .obj ((k, v) :: rest) =>
      rw [wide, wideFields, Writer.value, Writer.value, key_wide, value_wide l (level + 1) v,
        entries_wide l (level + 1) rest]
  | .bool b => cases b <;> rfl
  | .null | .int _ | .float _ | .str _ => rfl

theorem items_wide (l : Layout) (level : Nat) (vs : List Json) :
    Writer.items l level (wideItems vs) = Writer.items l level vs := by
  match vs with
  | [] => rfl
  | v :: rest =>
      rw [wideItems, Writer.items, Writer.items, value_wide l level v, items_wide l level rest]

theorem entries_wide (l : Layout) (level : Nat) (fields : List (Key × Json)) :
    Writer.entries l level (wideFields fields) = Writer.entries l level fields := by
  match fields with
  | [] => rfl
  | (k, v) :: rest =>
      rw [wideFields, Writer.entries, Writer.entries, key_wide, value_wide l level v,
        entries_wide l level rest]

end

theorem write_wide (l : Layout) (v : Json) : v.wide.write l = v.write l :=
  congrArg String.ofList (value_wide l 0 v)

/-! ### Reading -/

theorem wideItems_eq (vs : List Json) : wideItems vs = vs.map wide := by
  induction vs with
  | nil => rfl
  | cons v vs ih => rw [wideItems, ih, List.map_cons]

theorem wideFields_eq (fields : Fields) :
    wideFields fields = fields.map fun e => (e.1.wide, e.2.wide) := by
  induction fields with
  | nil => rfl
  | cons e fields ih => rw [wideFields, ih, List.map_cons]

theorem standard_wide {v : Json} (h : v.Standard) : v.wide.Standard := by
  induction h with
  | null => exact .null
  | bool b => exact .bool b
  | int hi => exact .int hi
  | float hx => exact .float hx
  | str s => exact .str _
  | arr _ ih =>
      rw [wide, wideItems_eq]
      exact .arr (List.forall_mem_map.2 ih)
  | @obj fields hkeys _ ih =>
      obtain ⟨names, hnames, hkeys⟩ := hkeys
      rw [wide, wideFields_eq]
      refine .obj ⟨names.map .ofString, hnames.map fun _ _ => Utf16.ofString_inj.1, ?_⟩
        (List.forall_mem_map.2 ih)
      have hwide : Table.keys (fields.map fun e => (e.1.wide, e.2.wide)) =
          (Table.keys fields).map Key.wide := by simp [Table.keys]
      rw [hwide, hkeys, List.map_map, List.map_map]
      rfl

mutual

theorem depth_wide (v : Json) : v.wide.depth = v.depth := by
  match v with
  | .arr vs => rw [wide, depth, depth, depthItems_wide vs]
  | .obj fields => rw [wide, depth, depth, depthFields_wide fields]
  | .null | .bool _ | .int _ | .float _ | .str _ => rfl

theorem depthItems_wide (vs : List Json) : depthItems (wideItems vs) = depthItems vs := by
  match vs with
  | [] => rfl
  | v :: rest => rw [wideItems, depthItems, depthItems, depth_wide v, depthItems_wide rest]

theorem depthFields_wide (fields : List (Key × Json)) :
    depthFields (wideFields fields) = depthFields fields := by
  match fields with
  | [] => rfl
  | (_, v) :: rest =>
      rw [wideFields, depthFields, depthFields, depth_wide v, depthFields_wide rest]

end

/-- What was written of a value of strings is read as that value, whatever else texts may hold. -/
theorem read_write_wide {l : Layout} (hl : l.IsPlain) {v : Json} (h : v.Standard)
    (hdepth : v.depth ≤ Reader.maxNesting) : read (v.write l) = .ok v.wide := by
  have hwide := standard_wide h
  have hread := read_write hl (hwide.mono fun _ => TextNames.distinctTexts)
    (by simp [Blanks] : Blanks "".toList)
  rwa [String.append_empty, write_wide, depth_wide, if_pos hdepth, named_of_standard hwide] at hread

end Json

end NatSpec
