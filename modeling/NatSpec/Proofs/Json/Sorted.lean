import NatSpec.Json.Sorted
import NatSpec.Proofs.Json.Writing

/-!
Sorting the fields of all objects. It succeeds only where all names of an object are of one kind,
and names of one kind that are not the same are written as different texts. So what can be sorted
can be read back once it is written, and sorting changes nothing but the order of fields.
-/

namespace NatSpec.Json

open Writer (keyText)

/-! ### Names of one kind -/

/-- Names no two of which are the same, with numbers in range. -/
structure ProperNames (keys : List Key) : Prop where
  distinct : Table.Distinct keys
  inRange : ∀ k ∈ keys, k.toJson.Standard

/-- A value with proper names in all objects. -/
abbrev Proper : Json → Prop :=
  Valid ProperNames

theorem TextNames.proper {keys : List Key} (h : TextNames keys) : ProperNames keys := by
  refine ⟨h.distinct, ?_⟩
  obtain ⟨names, -, rfl⟩ := h
  exact List.forall_mem_map.2 fun s _ => .str s

theorem named_toJson (k : Key) : k.toJson.named = k.toJson := by
  cases k <;> rfl

theorem write_toJson {k : Key} (h : k.kind = .number) : k.toJson.write .compact = keyText k := by
  cases k with
  | text s => cases h
  | null => cases h
  | bool b => cases b <;> rfl
  | int i => exact String.ofList_toList
  | float x => rfl

/-- The text of a number that is a name is read as that number. -/
theorem read_keyText {k : Key} (h : k.kind = .number) (hk : k.toJson.Standard) :
    read (keyText k) = .ok k.toJson := by
  have hread := read_write isPlain_compact (hk.mono fun _ => TextNames.distinctTexts)
    (by simp [Blanks] : Blanks "".toList)
  have hdepth : k.toJson.depth = 0 := by
    cases k <;> rfl
  rw [hdepth, if_pos (Nat.zero_le _), named_toJson, String.append_empty, write_toJson h] at hread
  exact hread

theorem toJson_injective {a b : Key} (h : a.toJson = b.toJson) : a = b := by
  cases a <;> cases b <;> simp_all [Key.toJson]

/-- Names of one kind are written as different texts. -/
theorem eq_of_keyText_eq {a b : Key} (hkind : a.kind = b.kind) (ha : a.toJson.Standard)
    (hb : b.toJson.Standard) (h : keyText a = keyText b) : a = b := by
  cases hnumber : a.kind with
  | number =>
      have hread := read_keyText hnumber ha
      rw [h, read_keyText (hkind ▸ hnumber) hb] at hread
      exact toJson_injective (Except.ok.inj hread).symm
  | text | null => cases a <;> cases b <;> simp_all [Key.kind, keyText]

/-! ### Sorted fields -/

theorem sortFields_eq_some {fields ordered : Fields} (h : sortFields fields = some ordered) :
    ordered.Perm fields ∧
      ∀ a ∈ Table.keys fields, ∀ b ∈ Table.keys fields, a.kind = b.kind := by
  unfold sortFields at h
  dsimp only at h
  split at h
  · rename_i hkinds
    obtain rfl := Option.some.inj h
    refine ⟨List.mergeSort_perm _ _, fun a ha b hb => ?_⟩
    simp only [List.all_eq_true, decide_eq_true_eq] at hkinds
    have hfirst := hkinds a.kind (List.mem_map_of_mem ha)
    rw [hkinds b.kind (List.mem_map_of_mem hb)] at hfirst
    exact (Option.some.inj hfirst).symm
  · cases h

/-- Proper names among which there is an order are written as different texts. -/
theorem ProperNames.distinctTexts {keys : List Key} (h : ProperNames keys)
    (hkinds : ∀ a ∈ keys, ∀ b ∈ keys, a.kind = b.kind) : DistinctTexts keys := by
  refine List.pairwise_map.2 (h.distinct.imp_of_mem fun {a b} ha hb hne htext => ?_)
  obtain rfl := eq_of_keyText_eq (hkinds a ha b hb) (h.inRange a ha) (h.inRange b hb) htext
  simp at hne

theorem sortedItems?_eq_some_iff {vs ws : List Json} :
    sortedItems? vs = some ws ↔ List.Forall₂ (fun v w => sorted? v = some w) vs ws := by
  induction vs generalizing ws with
  | nil => simp [sortedItems?, eq_comm]
  | cons v vs ih =>
      rw [List.forall₂_cons_left_iff, sortedItems?]
      simp only [Option.bind_eq_bind, Option.bind_eq_some_iff, ih, Option.some.injEq]
      constructor
      · rintro ⟨w, hw, ws, hws, rfl⟩
        exact ⟨w, ws, hw, hws, rfl⟩
      · rintro ⟨w, ws, hw, hws, rfl⟩
        exact ⟨w, hw, ws, hws, rfl⟩

/-- The same names, with other values in the same places. -/
structure Revalued (R : Json → Json → Prop) (fields changed : Fields) : Prop where
  keys : Table.keys changed = Table.keys fields
  values : List.Forall₂ R (Table.values fields) (Table.values changed)

theorem revalued_of_sortedFields? {fields changed : Fields}
    (h : sortedFields? fields = some changed) :
    Revalued (fun v w => sorted? v = some w) fields changed := by
  induction fields generalizing changed with
  | nil =>
      obtain rfl := Option.some.inj h
      exact ⟨rfl, .nil⟩
  | cons entry fields ih =>
      rw [sortedFields?] at h
      simp only [Option.bind_eq_bind, Option.bind_eq_some_iff, Option.some.injEq] at h
      obtain ⟨w, hw, rest, hrest, rfl⟩ := h
      obtain ⟨hkeys, hvalues⟩ := ih hrest
      exact ⟨congrArg (entry.1 :: ·) hkeys, .cons hw hvalues⟩

/-! ### What can be sorted -/

/-- A value that holds an object whose names are of different kinds. -/
inductive Mixes : Json → Prop
  | names {fields : Fields} {a b : Key} (ha : a ∈ Table.keys fields) (hb : b ∈ Table.keys fields)
      (hkind : a.kind ≠ b.kind) : Mixes (.obj fields)
  | entry {fields : Fields} {entry : Key × Json} (hmem : entry ∈ fields) (h : Mixes entry.2) :
      Mixes (.obj fields)
  | item {vs : List Json} {v : Json} (hmem : v ∈ vs) (h : Mixes v) : Mixes (.arr vs)

theorem exists_kind_ne {fields : Fields} (h : sortFields fields = none) :
    ∃ a ∈ Table.keys fields, ∃ b ∈ Table.keys fields, a.kind ≠ b.kind := by
  by_contra hall
  push Not at hall
  unfold sortFields at h
  dsimp only at h
  split at h
  · cases h
  · rename_i hkinds
    refine hkinds (List.all_eq_true.2 fun kind hkind => decide_eq_true ?_)
    obtain ⟨a, ha, rfl⟩ := List.mem_map.1 hkind
    cases hkeys : Table.keys fields with
    | nil =>
        rw [hkeys] at ha
        cases ha
    | cons first rest =>
        rw [List.map_cons, List.head?_cons, hall a ha first (hkeys ▸ List.mem_cons_self)]

mutual

theorem mixes_of_sorted? : ∀ {v : Json}, sorted? v = none → Mixes v
  | .arr vs, h => by
      obtain ⟨v, hv, hmixes⟩ := mixes_of_sortedItems? (Option.map_eq_none_iff.1 h)
      exact .item hv hmixes
  | .obj fields, h => by
      rw [sorted?] at h
      cases hchanged : sortedFields? fields with
      | none =>
          obtain ⟨entry, hentry, hmixes⟩ := mixes_of_sortedFields? hchanged
          exact .entry hentry hmixes
      | some changed =>
          rw [hchanged, Option.bind_some, Option.map_eq_none_iff] at h
          obtain ⟨a, ha, b, hb, hkind⟩ := exists_kind_ne h
          rw [(revalued_of_sortedFields? hchanged).keys] at ha hb
          exact .names ha hb hkind
  | .null, h | .bool _, h | .int _, h | .float _, h | .str _, h => by cases h

theorem mixes_of_sortedItems? : ∀ {vs : List Json}, sortedItems? vs = none → ∃ v ∈ vs, Mixes v
  | [], h => by cases h
  | v :: rest, h => by
      cases hv : sorted? v with
      | none => exact ⟨v, List.mem_cons_self, mixes_of_sorted? hv⟩
      | some w =>
          cases hrest : sortedItems? rest with
          | none =>
              obtain ⟨u, hu, hmixes⟩ := mixes_of_sortedItems? hrest
              exact ⟨u, List.mem_cons_of_mem v hu, hmixes⟩
          | some ws =>
              rw [sortedItems?, hv, hrest] at h
              cases h

theorem mixes_of_sortedFields? : ∀ {fields : List (Key × Json)}, sortedFields? fields = none →
    ∃ entry ∈ fields, Mixes entry.2
  | [], h => by cases h
  | (k, v) :: rest, h => by
      cases hv : sorted? v with
      | none => exact ⟨(k, v), List.mem_cons_self, mixes_of_sorted? hv⟩
      | some w =>
          cases hrest : sortedFields? rest with
          | none =>
              obtain ⟨entry, hentry, hmixes⟩ := mixes_of_sortedFields? hrest
              exact ⟨entry, List.mem_cons_of_mem _ hentry, hmixes⟩
          | some changed =>
              rw [sortedFields?, hv, hrest] at h
              cases h

end

theorem Mixes.not_sorted? {v w : Json} (h : Mixes v) : sorted? v ≠ some w := by
  induction h generalizing w with
  | names ha hb hkind =>
      intro hsorted
      obtain ⟨changed, hchanged, hsorted⟩ := Option.bind_eq_some_iff.1 hsorted
      obtain ⟨ordered, hordered, -⟩ := Option.map_eq_some_iff.1 hsorted
      have hkinds := (sortFields_eq_some hordered).2
      rw [(revalued_of_sortedFields? hchanged).keys] at hkinds
      exact hkind (hkinds _ ha _ hb)
  | @entry fields entry hmem _ ih =>
      intro hsorted
      obtain ⟨changed, hchanged, -⟩ := Option.bind_eq_some_iff.1 hsorted
      obtain ⟨w, -, hw⟩ := exists_right_of_forall₂ (revalued_of_sortedFields? hchanged).values
        (List.mem_map_of_mem hmem)
      exact ih hw
  | item hmem _ ih =>
      intro hsorted
      obtain ⟨ws, hws, -⟩ := Option.map_eq_some_iff.1 hsorted
      obtain ⟨w, -, hw⟩ := exists_right_of_forall₂ (sortedItems?_eq_some_iff.1 hws) hmem
      exact ih hw

/-- A value can be sorted unless it holds an object that mixes names of different kinds. -/
theorem sorted?_eq_none_iff {v : Json} : sorted? v = none ↔ Mixes v :=
  ⟨mixes_of_sorted?, fun h => Option.eq_none_iff_forall_ne_some.2 fun _ => h.not_sorted?⟩

theorem TextNames.kind_eq {keys : List Key} (h : TextNames keys) {k : Key} (hk : k ∈ keys) :
    k.kind = .text := by
  obtain ⟨names, -, rfl⟩ := h
  obtain ⟨s, -, rfl⟩ := List.mem_map.1 hk
  rfl

theorem Mixes.not_standard {v : Json} (h : Mixes v) : ¬v.Standard := by
  induction h with
  | names ha hb hkind =>
      exact fun hv => hkind ((hv.names.kind_eq ha).trans (hv.names.kind_eq hb).symm)
  | entry hmem _ ih => exact fun hv => ih (hv.entries _ hmem)
  | item hmem _ ih => exact fun hv => ih (hv.items _ hmem)

/-- Values as JSON has them can be sorted. -/
theorem exists_sorted? {v : Json} (h : v.Standard) : ∃ w, sorted? v = some w :=
  Option.ne_none_iff_exists'.1 fun hnone => (sorted?_eq_none_iff.1 hnone).not_standard h

/-! ### Values up to the order of fields -/

/-- The same value but for the order of fields. -/
inductive Reordered : Json → Json → Prop
  | same (v : Json) : Reordered v v
  | arr {vs ws : List Json} : List.Forall₂ Reordered vs ws → Reordered (.arr vs) (.arr ws)
  | obj {fields changed ordered : Fields} : Table.keys changed = Table.keys fields →
      List.Forall₂ Reordered (Table.values fields) (Table.values changed) →
      changed.Perm ordered → Reordered (.obj fields) (.obj ordered)

theorem forall₂_of_mem {α β : Type} {R S : α → β → Prop} {as : List α} {bs : List β}
    (h : List.Forall₂ R as bs) (himp : ∀ a ∈ as, ∀ b, R a b → S a b) : List.Forall₂ S as bs := by
  induction h with
  | nil => exact .nil
  | cons hab _ ih =>
      obtain ⟨hfirst, hrest⟩ := List.forall_mem_cons.1 himp
      exact .cons (hfirst _ hab) (ih hrest)

theorem forall_mem_of_forall₂ {α β : Type} {R : α → β → Prop} {as : List α} {bs : List β}
    (h : List.Forall₂ R as bs) {P : β → Prop} (himp : ∀ a b, R a b → P b) : ∀ b ∈ bs, P b := by
  induction h with
  | nil => simp
  | cons hab _ ih => exact List.forall_mem_cons.2 ⟨himp _ _ hab, ih⟩

theorem keys_namedFields_congr {fields changed : Fields}
    (h : Table.keys changed = Table.keys fields) :
    Table.keys (namedFields changed) = Table.keys (namedFields fields) := by
  rw [keys_namedFields, keys_namedFields, h]

theorem values_namedFields (fields : Fields) :
    Table.values (namedFields fields) = (Table.values fields).map named := by
  simp [namedFields_eq, Table.values]

/-- What is known of a value and what it is sorted to. -/
structure SortedAs (v w : Json) : Prop where
  texts : Valid DistinctTexts v
  sortedTexts : Valid DistinctTexts w
  depth : w.depth ≤ v.depth
  reordered : Reordered v.named w.named

theorem SortedAs.refl {v : Json} (h : Valid DistinctTexts v) : SortedAs v v :=
  ⟨h, h, le_rfl, .same _⟩

theorem SortedAs.arr {vs ws : List Json} (h : List.Forall₂ SortedAs vs ws) :
    SortedAs (.arr vs) (.arr ws) where
  texts := .arr (forall_mem_of_forall₂ h.flip fun _ _ hvw => hvw.texts)
  sortedTexts := .arr (forall_mem_of_forall₂ h fun _ _ hvw => hvw.sortedTexts)
  depth := by
    induction h with
    | nil => exact le_rfl
    | cons hvw _ ih =>
        simp only [Json.depth, depthItems, Nat.add_le_add_iff_right] at ih ⊢
        exact max_le_max hvw.depth ih
  reordered := by
    rw [named, named, namedItems_eq, namedItems_eq]
    refine .arr (List.forall₂_map_left_iff.2 (List.forall₂_map_right_iff.2 ?_))
    exact h.imp fun _ _ hvw => hvw.reordered

theorem depthFields_eq (fields : Fields) :
    depthFields fields = depthItems (Table.values fields) := by
  induction fields with
  | nil => rfl
  | cons entry fields ih =>
      rw [depthFields, ih]
      rfl

theorem SortedAs.obj {fields changed ordered : Fields} (h : Revalued SortedAs fields changed)
    (hperm : ordered.Perm changed) (hnames : DistinctTexts (Table.keys fields)) :
    SortedAs (.obj fields) (.obj ordered) where
  texts := .obj hnames (List.forall_mem_map.1
    (forall_mem_of_forall₂ h.values.flip fun _ _ hvw => hvw.texts))
  sortedTexts := by
    refine .obj ?_ fun entry hentry => ?_
    · rw [← h.keys] at hnames
      exact ((hperm.map Prod.fst).map keyText).nodup_iff.2 hnames
    · have hvalues := forall_mem_of_forall₂ h.values fun _ _ hvw => hvw.sortedTexts
      exact List.forall_mem_map.1 hvalues entry (hperm.mem_iff.1 hentry)
  depth := by
    have hvalues := (SortedAs.arr h.values).depth
    simp only [Json.depth, Nat.add_le_add_iff_right, depthFields_eq] at hvalues ⊢
    refine (depthItems_le_iff.2 fun w hw => ?_).trans hvalues
    exact depthItems_le_iff.1 le_rfl w ((hperm.map Prod.snd).mem_iff.1 hw)
  reordered := by
    rw [named, named]
    refine .obj (keys_namedFields_congr h.keys) ?_ ?_
    · rw [values_namedFields, values_namedFields]
      refine List.forall₂_map_left_iff.2 (List.forall₂_map_right_iff.2 ?_)
      exact h.values.imp fun _ _ hvw => hvw.reordered
    · rw [namedFields_eq, namedFields_eq]
      exact (hperm.map _).symm

/-- Sorting changes the order of fields alone, and what can be sorted has names with different
texts. -/
theorem sortedAs_of_sorted? {v w : Json} (h : Proper v) (hsorted : sorted? v = some w) :
    SortedAs v w := by
  induction h generalizing w with
  | null => obtain rfl := Option.some.inj hsorted; exact .refl .null
  | bool b => obtain rfl := Option.some.inj hsorted; exact .refl (.bool b)
  | int hi => obtain rfl := Option.some.inj hsorted; exact .refl (.int hi)
  | float hx => obtain rfl := Option.some.inj hsorted; exact .refl (.float hx)
  | str s => obtain rfl := Option.some.inj hsorted; exact .refl (.str s)
  | @arr vs _ ih =>
      obtain ⟨ws, hws, rfl⟩ := Option.map_eq_some_iff.1 hsorted
      exact .arr (forall₂_of_mem (sortedItems?_eq_some_iff.1 hws) fun v hv w => ih v hv)
  | @obj fields hnames _ ih =>
      obtain ⟨changed, hchanged, hsorted⟩ := Option.bind_eq_some_iff.1 hsorted
      obtain ⟨ordered, hordered, rfl⟩ := Option.map_eq_some_iff.1 hsorted
      obtain ⟨hkeys, hvalues⟩ := revalued_of_sortedFields? hchanged
      obtain ⟨hperm, hkinds⟩ := sortFields_eq_some hordered
      rw [hkeys] at hkinds
      refine .obj ⟨hkeys, forall₂_of_mem hvalues fun v hv w => ?_⟩ hperm
        (hnames.distinctTexts hkinds)
      obtain ⟨entry, hentry, rfl⟩ := List.mem_map.1 hv
      exact ih entry hentry

end NatSpec.Json
