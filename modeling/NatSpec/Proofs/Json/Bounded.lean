import NatSpec.Json.Overlay
import NatSpec.Proofs.Json.Sorted

/-!
Proper values nested no deeper than a bound. Their parts are bounded as well, and so is an object
whose fields are set to bounded values or over which a bounded value is laid. What a bounded value is
written as can be read.
-/

namespace NatSpec.Json

/-- A proper value that is nested no deeper than a bound. -/
structure Bounded (n : Nat) (v : Json) : Prop where
  proper : Proper v
  depth : v.depth ≤ n

variable {n m : Nat} {v w : Json} {vs : List Json} {fields : Fields} {k : Key}

theorem Bounded.mono (h : Bounded n v) (hnm : n ≤ m) : Bounded m v :=
  ⟨h.proper, h.depth.trans hnm⟩

/-! ### Parts -/

theorem bounded_toJson (h : k.toJson.Standard) : Bounded n k.toJson := by
  refine ⟨h.mono fun _ => TextNames.proper, ?_⟩
  cases k <;> exact Nat.zero_le n

theorem bounded_null : Bounded n .null :=
  ⟨.null, Nat.zero_le n⟩

theorem bounded_str (s : String) : Bounded n (.str s) :=
  ⟨.str s, Nat.zero_le n⟩

theorem bounded_arr_iff : Bounded (n + 1) (.arr vs) ↔ ∀ v ∈ vs, Bounded n v := by
  constructor
  · intro h v hv
    exact ⟨h.proper.items v hv, depth_arr_le_iff.1 h.depth v hv⟩
  · intro h
    exact ⟨.arr fun v hv => (h v hv).proper, depth_arr_le_iff.2 fun v hv => (h v hv).depth⟩

theorem bounded_obj_iff : Bounded (n + 1) (.obj fields) ↔
    ProperNames (Table.keys fields) ∧ ∀ entry ∈ fields, Bounded n entry.2 := by
  constructor
  · intro h
    exact ⟨h.proper.names, fun entry he => ⟨h.proper.entries entry he,
      depth_obj_le_iff.1 h.depth entry he⟩⟩
  · rintro ⟨hnames, hentries⟩
    exact ⟨.obj hnames fun entry he => (hentries entry he).proper,
      depth_obj_le_iff.2 fun entry he => (hentries entry he).depth⟩

theorem bounded_empty : Bounded (n + 1) (.obj []) :=
  bounded_obj_iff.2 ⟨⟨.nil, by simp⟩, by simp⟩

theorem Bounded.field (h : Bounded (n + 1) (.obj fields)) (key : Key) :
    Bounded n (Json.field fields key) := by
  rw [Json.field]
  cases hkey : Table.get? fields key with
  | none => exact bounded_null
  | some v =>
      obtain ⟨k, hmem⟩ := Table.exists_mem_of_get?_eq_some hkey
      exact (bounded_obj_iff.1 h).2 _ hmem

theorem Bounded.orElse (h : Bounded n v) (hw : Bounded n w) : Bounded n (v.orElse w) := by
  rw [Json.orElse]
  split
  · exact h
  · exact hw

/-- What a value is made of is nested less deep, unless it is not nested at all. -/
theorem Proper.elements (h : Proper v) (helements : v.elements? = some vs) :
    ∀ w ∈ vs, Proper w ∧ (w.depth < v.depth ∨ w.depth = 0) := by
  cases v with
  | arr items =>
      obtain rfl := Option.some.inj helements
      exact fun w hw => ⟨h.items w hw,
        .inl (Nat.lt_succ_of_le (depthItems_le_iff.1 le_rfl w hw))⟩
  | str s =>
      obtain rfl := Option.some.inj helements
      exact List.forall_mem_map.2 fun c _ => ⟨.str _, .inr rfl⟩
  | obj fields =>
      obtain rfl := Option.some.inj helements
      refine List.forall_mem_map.2 fun entry he => ?_
      have hname := bounded_toJson (n := 0) (h.names.inRange entry.1 (List.mem_map_of_mem he))
      exact ⟨hname.proper, .inr (Nat.le_zero.1 hname.depth)⟩
  | _ => cases helements

theorem Bounded.elements (h : Bounded (n + 1) v) (helements : v.elements? = some vs) :
    ∀ w ∈ vs, Bounded n w := by
  intro w hw
  obtain ⟨hproper, hdepth⟩ := h.proper.elements helements w hw
  have := h.depth
  exact ⟨hproper, by omega⟩

/-! ### Laying over -/

theorem Bounded.set (h : Bounded (n + 1) (.obj fields)) (hk : k.toJson.Standard)
    (hv : Bounded n v) : Bounded (n + 1) (.obj (Table.set fields k v)) := by
  obtain ⟨hnames, hentries⟩ := bounded_obj_iff.1 h
  have hset := Table.forall_mem_set (P := fun k : Key => k.toJson.Standard)
    (fun e he => ⟨hnames.inRange e.1 (List.mem_map_of_mem he), hentries e he⟩) hk hv
  exact bounded_obj_iff.2 ⟨⟨Table.distinct_keys_set k v hnames.distinct,
    List.forall_mem_map.2 fun e he => (hset e he).1⟩, fun e he => (hset e he).2⟩

theorem toJson_of_asKey? (h : v.asKey? = some k) : k.toJson = v := by
  cases v <;> first | cases h; rfl | cases h

theorem standard_of_proper (h : Proper k.toJson) : k.toJson.Standard := by
  cases k with
  | text s => exact .str s
  | null => exact .null
  | bool b => exact .bool b
  | int i => cases h with | int hi => exact .int hi
  | float x => cases h with | float hx => exact .float hx

theorem Bounded.asPair (h : Bounded n v) {value : Json} (hpair : v.asPair = .ok (k, value)) :
    k.toJson.Standard ∧ Bounded n value := by
  unfold Json.asPair at hpair
  split at hpair
  · cases hpair
  · rename_i name found helements
    split at hpair
    · rename_i key hkey
      obtain ⟨rfl, rfl⟩ := Prod.mk.inj (Except.ok.inj hpair)
      have hparts := h.proper.elements helements
      obtain ⟨hname, -⟩ := hparts name (by simp)
      obtain ⟨hfound, hdepth⟩ := hparts found (by simp)
      rw [← toJson_of_asKey? hkey] at hname
      have := h.depth
      exact ⟨standard_of_proper hname, hfound, by omega⟩
    · cases hpair
  · cases hpair

theorem Bounded.overlayPairs (h : Bounded (n + 1) (.obj fields)) (hvs : ∀ v ∈ vs, Bounded n v) :
    Bounded (n + 1) (.obj (Json.overlayPairs fields vs).1) := by
  induction vs generalizing fields with
  | nil => exact h
  | cons v vs ih =>
      obtain ⟨hv, hvs⟩ := List.forall_mem_cons.1 hvs
      rw [Json.overlayPairs]
      split
      · rename_i name value hpair
        obtain ⟨hname, hvalue⟩ := hv.asPair hpair
        exact ih (h.set hname hvalue) hvs
      · exact h

theorem Bounded.overlayFields (h : Bounded (n + 1) (.obj fields)) {changes : Fields}
    (hchanges : ∀ e ∈ changes, e.1.toJson.Standard ∧ Bounded n e.2) :
    Bounded (n + 1) (.obj (Table.overlay fields changes)) := by
  induction changes generalizing fields with
  | nil => exact h
  | cons e changes ih =>
      obtain ⟨⟨hname, hvalue⟩, hchanges⟩ := List.forall_mem_cons.1 hchanges
      exact ih (h.set hname hvalue) hchanges

/-- Laying a bounded value over the fields of a bounded object keeps the bound. -/
theorem Bounded.overlay (h : Bounded (n + 1) (.obj fields)) (hv : Bounded (n + 1) v) :
    Bounded (n + 1) (.obj (Json.overlay fields v).1) := by
  unfold Json.overlay
  split
  · obtain ⟨hnames, hentries⟩ := bounded_obj_iff.1 hv
    exact h.overlayFields fun e he =>
      ⟨hnames.inRange e.1 (List.mem_map_of_mem he), hentries e he⟩
  · split
    · rename_i items helements
      exact h.overlayPairs (hv.elements helements)
    · exact h

/-! ### Reading what was written -/

section

variable {room : Nat}

theorem exists_acceptItems (h : ∀ v ∈ vs, ∃ w, accept room v.named = .ok w) :
    ∃ ws, acceptItems room (namedItems vs) = .ok ws := by
  induction vs with
  | nil => exact ⟨[], rfl⟩
  | cons v vs ih =>
      obtain ⟨⟨w, hw⟩, h⟩ := List.forall_mem_cons.1 h
      obtain ⟨ws, hws⟩ := ih h
      refine ⟨w :: ws, ?_⟩
      rw [namedItems, acceptItems, hw, ok_bind, hws, ok_bind]

theorem exists_acceptEntries
    (h : ∀ e ∈ fields, ∃ w, accept room e.2.named = .ok w ∧ w.isObj = e.2.isObj) :
    ∃ accepted, acceptEntries room (namedFields fields) = .ok accepted ∧
      ((∀ e ∈ fields, e.2.isObj = true) → ∀ e ∈ accepted, e.2.isObj = true) := by
  induction fields with
  | nil => exact ⟨[], rfl, fun _ => by simp⟩
  | cons e fields ih =>
      obtain ⟨⟨w, hw, hkind⟩, h⟩ := List.forall_mem_cons.1 h
      obtain ⟨accepted, haccepted, hobjects⟩ := ih h
      refine ⟨(.text (Writer.keyText e.1), w) :: accepted, ?_, fun hfields => ?_⟩
      · rw [namedFields, acceptEntries, hw, ok_bind, haccepted, ok_bind]
      · obtain ⟨he, hfields⟩ := List.forall_mem_cons.1 hfields
        exact List.forall_mem_cons.2 ⟨hkind.trans he, hobjects hfields⟩

/-- A valid value with its names as texts is accepted where there is room for its depth, even if some
of the texts are the same. -/
theorem exists_accept {P : List Key → Prop} (h : Valid P v) (hdepth : v.depth ≤ room) :
    ∃ w, accept room v.named = .ok w ∧ w.isObj = v.isObj := by
  induction h generalizing room with
  | null => exact ⟨.null, by cases room <;> rfl, rfl⟩
  | bool b => exact ⟨.bool b, by cases room <;> rfl, rfl⟩
  | float hx => exact ⟨.float _, by cases room <;> rfl, rfl⟩
  | str s => exact ⟨.str s, by cases room <;> rfl, rfl⟩
  | @int i hi =>
      refine ⟨.int i, ?_, rfl⟩
      rw [named, accept, acceptInt, if_neg (Nat.not_lt.2 hi)]
  | @arr vs _ ih =>
      cases room with
      | zero => cases hdepth
      | succ room =>
          obtain ⟨ws, hws⟩ := exists_acceptItems fun v hv => by
            obtain ⟨w, hw, -⟩ := ih v hv (depth_arr_le_iff.1 hdepth v hv)
            exact ⟨w, hw⟩
          exact ⟨.arr ws, by rw [named, accept, hws, ok_bind], rfl⟩
  | @obj fields _ _ ih =>
      cases room with
      | zero => cases hdepth
      | succ room =>
          obtain ⟨accepted, haccepted, -⟩ := exists_acceptEntries fun e he =>
            ih e he (depth_obj_le_iff.1 hdepth e he)
          exact ⟨.obj (Table.ofList accepted), by rw [named, accept, haccepted, ok_bind], rfl⟩

end

/-- A table of objects that was written is read as a table of objects. -/
theorem exists_read_write {l : Layout} (hl : l.IsPlain)
    (h : Bounded Reader.maxNesting (.obj fields)) (hfields : ∀ e ∈ fields, e.2.isObj = true)
    {behind : String} (hbehind : Blanks behind.toList) :
    ∃ found : Fields, read ((Json.obj fields).write l ++ behind) = .ok (.obj found) ∧
      ∀ e ∈ found, e.2.isObj = true := by
  obtain ⟨room, hroom⟩ : ∃ room, Reader.maxNesting = room + 1 := ⟨989, rfl⟩
  have hdepth := h.depth
  rw [hroom] at hdepth
  obtain ⟨accepted, haccepted, hobjects⟩ := exists_acceptEntries fun e he =>
    exists_accept (h.proper.entries e he) (depth_obj_le_iff.1 hdepth e he)
  refine ⟨Table.ofList accepted, ?_, fun e he => ?_⟩
  · rw [read_append_of_value hl h.proper hbehind, Json.accepted, hroom, named, accept, haccepted,
      ok_bind]
  · exact (Table.forall_mem_ofList (P := fun _ => True) (Q := fun v : Json => v.isObj = true)
      (fun e he => ⟨trivial, hobjects hfields e he⟩) e he).2

end NatSpec.Json
