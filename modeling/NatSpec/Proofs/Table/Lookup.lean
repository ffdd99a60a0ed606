import Mathlib.Data.List.Induction
import Mathlib.Data.List.Nodup
import Mathlib.Data.List.Perm.Subperm
import NatSpec.Table

/-!
Reading a table after it was written. The keys of a table and what `get?` finds under them
determine all that later modules ask of a table, so the laws of `set`, `overlay` and `ofList` are
stated by these two views only.
-/

namespace NatSpec.Table

universe u v w

variable {κ : Type u} {α : Type v} {β : Type w}

/-! ### Values where they first occur -/

section

variable [BEq α] [LawfulBEq α]

/-- A value that is new stays, and one that is not leaves no trace. -/
theorem eraseDups_concat (values : List α) (a : α) :
    (values ++ [a]).eraseDups =
      if values.elem a then values.eraseDups else values.eraseDups ++ [a] := by
  rw [List.eraseDups_append, List.removeAll, List.filter_singleton]
  cases values.elem a <;> simp [List.eraseDups_cons]

theorem nodup_eraseDups (values : List α) : values.eraseDups.Nodup := by
  induction values using List.reverseRecOn with
  | nil => exact List.nodup_nil
  | append_singleton values a ih =>
      rw [eraseDups_concat]
      split
      · exact ih
      · rename_i hnew
        refine List.nodup_append.2 ⟨ih, List.nodup_singleton a, ?_⟩
        rintro b hb _ ha rfl
        rw [List.mem_singleton.1 ha, List.mem_eraseDups] at hb
        exact hnew (List.elem_iff.2 hb)

theorem eraseDups_of_nodup {values : List α} (h : values.Nodup) : values.eraseDups = values := by
  induction values using List.reverseRecOn with
  | nil => rfl
  | append_singleton values a ih =>
      obtain ⟨hvalues, -, hnew⟩ := List.nodup_append.1 h
      have hnot : ¬(values.elem a = true) := fun hmem =>
        hnew a (List.elem_iff.1 hmem) a (List.mem_singleton_self a) rfl
      rw [eraseDups_concat, if_neg hnot, ih hvalues]

/-- Values that are dropped in front are no loss. -/
theorem eraseDups_eraseDups_append (values others : List α) :
    (values.eraseDups ++ others).eraseDups = (values ++ others).eraseDups := by
  induction others using List.reverseRecOn with
  | nil => rw [List.append_nil, List.append_nil, eraseDups_of_nodup (nodup_eraseDups values)]
  | append_singleton others a ih =>
      rw [← List.append_assoc, ← List.append_assoc, eraseDups_concat, eraseDups_concat, ih]
      simp only [List.elem_iff, List.mem_append, List.mem_eraseDups]

end

/-! ### Keys -/

@[simp] theorem keys_nil : keys ([] : Table κ α) = [] := rfl

@[simp] theorem keys_cons (e : κ × α) (t : Table κ α) : keys (e :: t) = e.1 :: keys t := rfl

theorem mem_keys_of_mem {t : Table κ α} {key : κ} {value : α} (h : (key, value) ∈ t) :
    key ∈ keys t :=
  List.mem_map.2 ⟨_, h, rfl⟩

theorem exists_mem_of_mem_keys {t : Table κ α} {key : κ} (h : key ∈ keys t) :
    ∃ value, (key, value) ∈ t := by
  obtain ⟨⟨_, value⟩, hmem, rfl⟩ := List.mem_map.1 h
  exact ⟨value, hmem⟩

def mapValues (f : α → β) (t : Table κ α) : Table κ β :=
  t.map fun e => (e.1, f e.2)

@[simp] theorem keys_mapValues (f : α → β) (t : Table κ α) : keys (mapValues f t) = keys t := by
  simp [keys, mapValues, Function.comp_def]

section

variable [BEq κ]

/-- Reading a table whose keys and values were replaced, keys that differ by keys that differ. -/
theorem get?_map {κ' : Type u} [BEq κ'] (f : κ → κ') (g : α → β)
    (hf : ∀ a b, (f a == f b) = (a == b)) (t : Table κ α) (key : κ) :
    get? (t.map fun e => (f e.1, g e.2)) (f key) = (get? t key).map g := by
  induction t with
  | nil => rfl
  | cons e t ih =>
      rw [List.map_cons, get?, get?, hf, ih]
      split
      · rfl
      · rfl

theorem get?_mapValues (f : α → β) (t : Table κ α) (key : κ) :
    get? (mapValues f t) key = (get? t key).map f :=
  get?_map id f (fun _ _ => rfl) t key

theorem set_mapValues (f : α → β) (t : Table κ α) (key : κ) (value : α) :
    set (mapValues f t) key (f value) = mapValues f (set t key value) := by
  induction t with
  | nil => rfl
  | cons e t ih =>
      simp only [mapValues, List.map_cons, set] at ih ⊢
      split
      · rfl
      · rw [ih, List.map_cons]

theorem exists_mem_beq_of_get? {t : Table κ α} {key : κ} {value : α}
    (h : get? t key = some value) : ∃ k, (k == key) = true ∧ (k, value) ∈ t := by
  induction t with
  | nil => cases h
  | cons e t ih =>
      rw [get?] at h
      split at h
      · rename_i hkey
        obtain rfl := Option.some.inj h
        exact ⟨e.1, hkey, List.mem_cons_self⟩
      · obtain ⟨k, hkey, hk⟩ := ih h
        exact ⟨k, hkey, List.mem_cons_of_mem e hk⟩

theorem exists_mem_of_get?_eq_some {t : Table κ α} {key : κ} {value : α}
    (h : get? t key = some value) : ∃ k, (k, value) ∈ t := by
  obtain ⟨k, -, hk⟩ := exists_mem_beq_of_get? h
  exact ⟨k, hk⟩

section

variable {P : κ → Prop} {Q : α → Prop}

/-- What holds of all entries and of a written one holds of all entries then. -/
theorem forall_mem_set {t : Table κ α} (ht : ∀ e ∈ t, P e.1 ∧ Q e.2) {key : κ} {value : α}
    (hkey : P key) (hvalue : Q value) : ∀ e ∈ set t key value, P e.1 ∧ Q e.2 := by
  induction t with
  | nil => simp [set, hkey, hvalue]
  | cons e t ih =>
      obtain ⟨he, ht⟩ := List.forall_mem_cons.1 ht
      rw [set]
      split
      · exact List.forall_mem_cons.2 ⟨⟨he.1, hvalue⟩, ht⟩
      · exact List.forall_mem_cons.2 ⟨he, ih ht⟩

theorem forall_mem_overlay {t : Table κ α} (ht : ∀ e ∈ t, P e.1 ∧ Q e.2) {entries : List (κ × α)}
    (hentries : ∀ e ∈ entries, P e.1 ∧ Q e.2) : ∀ e ∈ overlay t entries, P e.1 ∧ Q e.2 := by
  induction entries generalizing t with
  | nil => exact ht
  | cons e entries ih =>
      obtain ⟨he, hentries⟩ := List.forall_mem_cons.1 hentries
      exact ih (forall_mem_set ht he.1 he.2) hentries

theorem forall_mem_ofList {entries : List (κ × α)} (h : ∀ e ∈ entries, P e.1 ∧ Q e.2) :
    ∀ e ∈ ofList entries, P e.1 ∧ Q e.2 :=
  forall_mem_overlay (by simp) h

end

/-- Keys no two of which are the same. -/
def Distinct (keys : List κ) : Prop :=
  keys.Pairwise fun a b => (a == b) = false

theorem contains_eq_false_iff {t : Table κ α} {key : κ} :
    contains t key = false ↔ ∀ k ∈ keys t, (k == key) = false := by
  induction t with
  | nil => simp [contains, get?]
  | cons e t ih =>
      rw [contains] at ih ⊢
      rw [get?, keys_cons, List.forall_mem_cons, ← ih]
      cases e.1 == key with
      | true => simp
      | false => simp

theorem set_of_new {t : Table κ α} {key : κ} (value : α) (h : contains t key = false) :
    set t key value = t ++ [(key, value)] := by
  rw [contains_eq_false_iff] at h
  induction t with
  | nil => rfl
  | cons e t ih =>
      rw [keys_cons, List.forall_mem_cons] at h
      rw [set, if_neg (by simp [h.1]), ih h.2, List.cons_append]

theorem distinct_keys_set {t : Table κ α} (key : κ) (value : α) (h : Distinct (keys t)) :
    Distinct (keys (set t key value)) := by
  rw [keys_set]
  cases hkey : contains t key with
  | true => exact h
  | false =>
      refine List.pairwise_append.2 ⟨h, List.pairwise_singleton _ _, fun a ha b hb => ?_⟩
      rw [List.mem_singleton.1 hb]
      exact contains_eq_false_iff.1 hkey a ha

theorem distinct_keys_overlay {t : Table κ α} (entries : List (κ × α)) (h : Distinct (keys t)) :
    Distinct (keys (overlay t entries)) := by
  induction entries generalizing t with
  | nil => exact h
  | cons e entries ih => exact ih (distinct_keys_set e.1 e.2 h)

theorem distinct_keys_ofList (entries : List (κ × α)) : Distinct (keys (ofList entries)) :=
  distinct_keys_overlay entries List.Pairwise.nil

/-- Writing entries with new keys, all different, adds them in their order. -/
theorem overlay_of_distinct {t : Table κ α} {entries : List (κ × α)}
    (h : Distinct (keys t ++ keys entries)) : overlay t entries = t ++ entries := by
  induction entries generalizing t with
  | nil => simp [overlay]
  | cons e entries ih =>
      have hnew : contains t e.1 = false :=
        contains_eq_false_iff.2 fun k hk =>
          (List.pairwise_append.1 h).2.2 k hk e.1 List.mem_cons_self
      have hkeys : keys (t ++ [e]) ++ keys entries = keys t ++ keys (e :: entries) := by
        simp [keys]
      change overlay (set t e.1 e.2) entries = _
      rw [set_of_new e.2 hnew, ih (by rw [hkeys]; exact h), List.append_assoc]
      rfl

/-- A list of entries with different keys is a table already. -/
theorem ofList_of_distinct {entries : List (κ × α)} (h : Distinct (keys entries)) :
    ofList entries = entries := by
  rw [ofList, overlay_of_distinct (by simpa using h), List.nil_append]

end

section

variable [BEq κ] [EquivBEq κ]

/-- Keys that count as one are read alike. -/
theorem get?_congr (t : Table κ α) {key other : κ} (h : (key == other) = true) :
    get? t key = get? t other := by
  induction t with
  | nil => rfl
  | cons e t ih => rw [get?, get?, BEq.congr_right h, ih]

theorem get?_set (t : Table κ α) (key : κ) (value : α) (other : κ) :
    get? (set t key value) other = if key == other then some value else get? t other := by
  split
  · rename_i h
    rw [← get?_congr _ h]
    exact get?_set_self t key value
  · rename_i h
    exact get?_set_ne t value (by simpa using h)

/-- Of different keys no two entries can count as one. -/
theorem eq_of_distinct {t : Table κ α} (ht : Distinct (keys t)) {e e' : κ × α} (he : e ∈ t)
    (he' : e' ∈ t) (hkey : (e.1 == e'.1) = true) : e = e' := by
  induction t with
  | nil => cases he
  | cons first t ih =>
      obtain ⟨hfirst, hrest⟩ := List.pairwise_cons.1 ht
      have hother {a : κ × α} (ha : a ∈ t) : (first.1 == a.1) = false :=
        hfirst a.1 (mem_keys_of_mem ha)
      rcases List.mem_cons.1 he with rfl | hrest₁ <;>
        rcases List.mem_cons.1 he' with rfl | hrest₂
      · rfl
      · rw [hother hrest₂] at hkey
        cases hkey
      · rw [BEq.comm, hother hrest₁] at hkey
        cases hkey
      · exact ih hrest hrest₁ hrest₂

/-- In a table with different keys each entry is found under its key. -/
theorem get?_of_distinct {t : Table κ α} {key : κ} {value : α} (ht : Distinct (keys t))
    (h : (key, value) ∈ t) : get? t key = some value := by
  induction t with
  | nil => cases h
  | cons e t ih =>
      obtain ⟨hfirst, hrest⟩ := List.pairwise_cons.1 ht
      rcases List.mem_cons.1 h with rfl | h
      · rw [get?, if_pos BEq.rfl]
      · rw [get?, if_neg (by simp [hfirst key (mem_keys_of_mem h)])]
        exact ih hrest h

/-- Of the entries that are written to a table the last one under a key is found there. -/
theorem get?_overlay (t : Table κ α) (entries : List (κ × α)) (key : κ) :
    get? (overlay t entries) key = ((ofList entries).get? key).or (get? t key) := by
  induction entries using List.reverseRecOn with
  | nil => rfl
  | append_singleton entries e ih =>
      have hlast (t : Table κ α) : overlay t (entries ++ [e]) = (overlay t entries).set e.1 e.2 := by
        simp [overlay]
      rw [ofList, hlast, hlast, get?_set, get?_set]
      split
      · rfl
      · exact ih

theorem get?_ofList_append (entries others : List (κ × α)) (key : κ) :
    (ofList (entries ++ others)).get? key =
      ((ofList others).get? key).or ((ofList entries).get? key) := by
  rw [ofList, overlay, List.foldl_append]
  exact get?_overlay (ofList entries) others key

end

section

variable [BEq κ] [LawfulBEq κ]

theorem get?_eq_none_iff {t : Table κ α} {key : κ} : get? t key = none ↔ key ∉ keys t := by
  induction t with
  | nil => simp [get?]
  | cons e t ih =>
      by_cases h : e.1 = key
      · simp [get?, h]
      · simp [get?, h, ih, Ne.symm h]

theorem contains_iff {t : Table κ α} {key : κ} : contains t key = true ↔ key ∈ keys t := by
  rw [contains, Option.isSome_iff_ne_none, ne_eq, get?_eq_none_iff, not_not]

theorem exists_get?_of_mem_keys {t : Table κ α} {key : κ} (h : key ∈ keys t) :
    ∃ value, get? t key = some value := by
  cases hv : get? t key with
  | none => exact absurd h (get?_eq_none_iff.1 hv)
  | some value => exact ⟨value, rfl⟩

theorem get?_of_mem {t : Table κ α} {key : κ} {value : α} (ht : (keys t).Nodup)
    (h : (key, value) ∈ t) : get? t key = some value := by
  induction t with
  | nil => cases h
  | cons e t ih =>
      rw [keys_cons, List.nodup_cons] at ht
      rcases List.mem_cons.1 h with rfl | h
      · simp [get?]
      · have hne : e.1 ≠ key := by
          rintro rfl
          exact ht.1 (mem_keys_of_mem h)
        rw [get?, if_neg (by simpa using hne)]
        exact ih ht.2 h

theorem mem_of_get? {t : Table κ α} {key : κ} {value : α} (h : get? t key = some value) :
    (key, value) ∈ t := by
  induction t with
  | nil => cases h
  | cons e t ih =>
      rw [get?] at h
      split at h
      · rename_i hk
        obtain rfl := eq_of_beq hk
        obtain rfl := Option.some.inj h
        exact List.mem_cons_self
      · exact List.mem_cons_of_mem _ (ih h)

/-- Different keys that are read as entries of one kind are no more than there are such entries. -/
theorem length_le_countP {t : Table κ α} {found : List κ} (hdistinct : found.Nodup)
    (kind : κ × α → Bool)
    (h : ∀ key ∈ found, ∃ value, get? t key = some value ∧ kind (key, value) = true) :
    found.length ≤ t.countP kind := by
  have hsub : found ⊆ keys (t.filter kind) := by
    intro key hkey
    obtain ⟨value, hvalue, hkind⟩ := h key hkey
    exact mem_keys_of_mem (List.mem_filter.2 ⟨mem_of_get? hvalue, hkind⟩)
  calc
    found.length ≤ (keys (t.filter kind)).length :=
      (List.subperm_of_subset hdistinct hsub).length_le
    _ = t.countP kind := (List.length_map _).trans List.countP_eq_length_filter.symm

/-- Reading a table from which some keys were taken out. -/
theorem get?_filter (keep : κ → Bool) (t : Table κ α) (key : κ) :
    get? (t.filter fun e => keep e.1) key = if keep key then get? t key else none := by
  induction t with
  | nil => simp [get?]
  | cons e t ih =>
      by_cases h : e.1 = key
      · cases hk : keep key with
        | true => simp [get?, h, hk]
        | false => simp [h, hk, ih]
      · cases hk : keep e.1 with
        | true => simp [get?, h, hk, ih]
        | false => simp [get?, h, hk, ih]

theorem keys_set_of_mem {t : Table κ α} {key : κ} (value : α) (h : key ∈ keys t) :
    keys (set t key value) = keys t := by
  rw [keys_set, if_pos (contains_iff.2 h)]

theorem set_of_not_mem {t : Table κ α} {key : κ} (value : α) (h : key ∉ keys t) :
    set t key value = t ++ [(key, value)] := by
  refine set_of_new value (contains_eq_false_iff.2 fun k hk => ?_)
  rw [beq_eq_false_iff_ne]
  rintro rfl
  exact h hk

theorem keys_set_of_not_mem {t : Table κ α} {key : κ} (value : α) (h : key ∉ keys t) :
    keys (set t key value) = keys t ++ [key] := by
  rw [set_of_not_mem value h, keys, List.map_append]
  rfl

theorem nodup_keys_set {t : Table κ α} (key : κ) (value : α) (ht : (keys t).Nodup) :
    (keys (set t key value)).Nodup := by
  by_cases h : key ∈ keys t
  · rwa [keys_set_of_mem value h]
  · rw [keys_set_of_not_mem value h, List.nodup_append]
    refine ⟨ht, List.nodup_singleton key, ?_⟩
    rintro a ha b hb rfl
    exact h (List.mem_singleton.1 hb ▸ ha)

theorem mem_of_get?_ofList {entries : List (κ × α)} {key : κ} {value : α}
    (h : (ofList entries).get? key = some value) : (key, value) ∈ entries := by
  induction entries using List.reverseRecOn with
  | nil => cases h
  | append_singleton entries e ih =>
      rw [get?_ofList_append, ofList, overlay, List.foldl_cons, List.foldl_nil, set, get?, get?]
        at h
      split at h
      · rename_i hkey
        obtain rfl := eq_of_beq hkey
        obtain rfl := Option.some.inj h
        exact List.mem_append_right _ List.mem_cons_self
      · exact List.mem_append_left _ (ih h)

theorem exists_get?_ofList {entries : List (κ × α)} {e : κ × α} (h : e ∈ entries) :
    ∃ value, (ofList entries).get? e.1 = some value := by
  induction entries using List.reverseRecOn with
  | nil => cases h
  | append_singleton entries last ih =>
      rw [get?_ofList_append, ofList, overlay, List.foldl_cons, List.foldl_nil, set, get?, get?]
      split
      · exact ⟨last.2, rfl⟩
      · rename_i hkey
        rcases List.mem_append.1 h with hmem | hmem
        · exact ih hmem
        · obtain rfl := List.mem_singleton.1 hmem
          exact absurd (beq_self_eq_true e.1) hkey

/-- Tables in which each key stands once hold the same entries if they give the same for each key. -/
theorem perm_iff {t t' : Table κ α} (ht : (keys t).Nodup) (ht' : (keys t').Nodup) :
    t.Perm t' ↔ ∀ key, get? t key = get? t' key := by
  rw [List.perm_ext_iff_of_nodup ht.of_map ht'.of_map]
  constructor
  · intro h key
    refine Option.ext fun value => ?_
    exact ⟨fun hv => get?_of_mem ht' ((h _).1 (mem_of_get? hv)),
      fun hv => get?_of_mem ht ((h _).2 (mem_of_get? hv))⟩
  · rintro h ⟨key, value⟩
    exact ⟨fun hmem => mem_of_get? (h key ▸ get?_of_mem ht hmem),
      fun hmem => mem_of_get? ((h key).symm ▸ get?_of_mem ht' hmem)⟩

theorem distinct_iff_nodup {keys : List κ} : Distinct keys ↔ keys.Nodup :=
  List.Pairwise.iff fun _ _ => beq_eq_false_iff_ne

theorem ofList_of_nodup {entries : List (κ × α)} (h : (keys entries).Nodup) :
    ofList entries = entries :=
  ofList_of_distinct (distinct_iff_nodup.2 h)

end

end NatSpec.Table
