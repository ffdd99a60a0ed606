import NatSpec.Members.Groups
import NatSpec.Proofs.Except
import NatSpec.Proofs.Table.Lookup

/-!
Grouping takes members apart without loss. The group of a kind holds the members of that kind in
their order, there is one exactly for each kind that a member has, and so each member is in one group
and in no other.
-/

namespace NatSpec.Members

def isKind (kind : Json.Key) (record : Json) : Bool :=
  match groupKey record with
  | .ok own => own == kind
  | .error _ => false

/-- The members of a kind, in their order. -/
def ofKind (members : Members) (kind : Json.Key) : Members :=
  members.filter fun entry => isKind kind entry.2

theorem isKind_of_groupKey {record : Json} {own : Json.Key} (h : groupKey record = .ok own)
    (kind : Json.Key) : isKind kind record = (own == kind) := by
  rw [isKind, h]

theorem isKind_obj (kind : Json.Key) (fields : Fields) :
    isKind kind (.obj fields) = ((Abi.kindOf fields).asKey?.any fun own => own == kind) := by
  rw [isKind, groupKey, Abi.fieldsOf, ok_bind]
  cases (Abi.kindOf fields).asKey? <;> rfl

theorem ofKind_congr (members : Members) {kind other : Json.Key} (h : (kind == other) = true) :
    members.ofKind kind = members.ofKind other := by
  refine List.filter_congr fun entry _ => ?_
  rw [isKind, isKind]
  cases groupKey entry.2 with
  | error fault => rfl
  | ok own => exact BEq.congr_right h

theorem mem_keys_ofKind {members : Members} {kind : Json.Key} {key : String}
    (h : key ∈ (members.ofKind kind).keys) : key ∈ members.keys := by
  obtain ⟨record, hmem⟩ := Table.exists_mem_of_mem_keys h
  exact Table.mem_keys_of_mem (List.mem_of_mem_filter hmem)

theorem nodup_keys_ofKind {members : Members} (h : members.keys.Nodup) (kind : Json.Key) :
    (members.ofKind kind).keys.Nodup :=
  h.sublist (List.filter_sublist.map Prod.fst)

theorem get?_ofKind {members : Members} (hdistinct : members.keys.Nodup) {kind : Json.Key}
    {key : String} {record : Json} : (members.ofKind kind).get? key = some record ↔
      members.get? key = some record ∧ isKind kind record = true := by
  constructor
  · intro h
    obtain ⟨hmem, hkind⟩ := List.mem_filter.1 (Table.mem_of_get? h)
    exact ⟨Table.get?_of_mem hdistinct hmem, hkind⟩
  · rintro ⟨h, hkind⟩
    exact Table.get?_of_mem (nodup_keys_ofKind hdistinct kind)
      (List.mem_filter.2 ⟨Table.mem_of_get? h, hkind⟩)

/-- A member is among those of a kind just when its record has the kind. -/
theorem mem_keys_ofKind_iff {members : Members} (hdistinct : members.keys.Nodup) {key : String}
    {record : Json} (hget : members.get? key = some record) {kind : Json.Key} :
    key ∈ (members.ofKind kind).keys ↔ isKind kind record = true := by
  constructor
  · intro hkey
    obtain ⟨held, hheld⟩ := Table.exists_get?_of_mem_keys hkey
    obtain ⟨hsame, hkind⟩ := (get?_ofKind hdistinct).1 hheld
    obtain rfl := Option.some.inj (hget.symm.trans hsame)
    exact hkind
  · intro hkind
    exact Table.mem_keys_of_mem (Table.mem_of_get? ((get?_ofKind hdistinct).2 ⟨hget, hkind⟩))

/-- The group of each kind are the members of that kind, if there are any. -/
structure Grouped (members : Members) (groups : Groups) : Prop where
  distinct : Table.Distinct groups.keys
  get? : ∀ kind, Table.get? groups kind =
    if members.ofKind kind = [] then none else some (members.ofKind kind)

theorem Grouped.getD {members : Members} {groups : Groups} (h : Grouped members groups)
    (kind : Json.Key) : (Table.get? groups kind).getD [] = members.ofKind kind := by
  rw [h.get?]
  split
  · rename_i hnone
    rw [hnone]
    rfl
  · rfl

/-- Inserting one more member keeps the groups those of the members so far. -/
theorem Grouped.insert {members : Members} {groups : Groups} (h : Grouped members groups)
    {key : String} {record : Json} {own : Json.Key} (hnew : key ∉ members.keys)
    (hown : groupKey record = .ok own) :
    Grouped (members ++ [(key, record)]) (groups.insert own key record) := by
  have hmore (kind : Json.Key) : ofKind (members ++ [(key, record)]) kind =
      members.ofKind kind ++ if own == kind then [(key, record)] else [] := by
    rw [ofKind, List.filter_append, List.filter_singleton, isKind_of_groupKey hown]
    cases own == kind <;> rfl
  -- A new key goes to the end of its group, as it does among the members.
  have hgroup : Table.set (members.ofKind own) key record =
      members.ofKind own ++ [(key, record)] :=
    Table.set_of_not_mem _ fun hmem => hnew (mem_keys_ofKind hmem)
  refine ⟨Table.distinct_keys_set _ _ h.distinct, fun kind => ?_⟩
  rw [Groups.insert, Table.get?_set, h.getD, hgroup, hmore]
  cases hkind : own == kind with
  | true => simp [ofKind_congr members hkind]
  | false => simpa using h.get? kind

theorem grouped_of_groups {members : Members} {groups : Groups} (hdistinct : members.keys.Nodup)
    (h : members.groups = .ok groups) : Grouped members groups := by
  refine foldlM_keeps_behind (I := Grouped) ?_ h ⟨List.Pairwise.nil, fun kind => rfl⟩
  rintro done ⟨key, record⟩ rest hmembers groups next hgroups hnext
  obtain ⟨own, hown, hnext⟩ := bind_eq_ok_iff.1 hnext
  obtain rfl := Except.ok.inj hnext
  have hnew : key ∉ Table.keys done := by
    rw [hmembers, Table.keys, List.map_append, List.map_cons, List.nodup_append] at hdistinct
    exact fun hmem => hdistinct.2.2 key hmem key List.mem_cons_self rfl
  exact hgroups.insert hnew hown

/-- Each group are the members of its kind, of which there are some. -/
theorem Grouped.of_mem {members : Members} {groups : Groups} (h : Grouped members groups)
    {kind : Json.Key} {group : Members} (hmem : (kind, group) ∈ groups) :
    group = members.ofKind kind ∧ group ≠ [] := by
  have hget := (h.get? kind).symm.trans (Table.get?_of_distinct h.distinct hmem)
  split at hget
  · cases hget
  · rename_i hsome
    obtain rfl := Option.some.inj hget
    exact ⟨rfl, hsome⟩

/-- A member is in the group of its kind and in no other. -/
theorem Grouped.exists_group {members : Members} {groups : Groups} (h : Grouped members groups)
    (hdistinct : members.keys.Nodup) {key : String} {record : Json} {own : Json.Key}
    (hmem : (key, record) ∈ members) (hown : groupKey record = .ok own) :
    ∃ group ∈ groups, (own == group.1) = true ∧ (key, record) ∈ group.2 ∧
      ∀ other ∈ groups, key ∈ other.2.keys → other = group := by
  have hkind (kind : Json.Key) : key ∈ (members.ofKind kind).keys ↔ (own == kind) = true := by
    rw [mem_keys_ofKind_iff hdistinct (Table.get?_of_mem hdistinct hmem), isKind_of_groupKey hown]
  have hheld : (key, record) ∈ members.ofKind own :=
    List.mem_filter.2 ⟨hmem, by rw [isKind_of_groupKey hown, BEq.rfl]⟩
  have hget := h.get? own
  rw [if_neg (List.ne_nil_of_mem hheld)] at hget
  obtain ⟨kind, hsame, hgroup⟩ := Table.exists_mem_beq_of_get? hget
  refine ⟨(kind, members.ofKind own), hgroup, BEq.symm hsame, hheld, ?_⟩
  rintro ⟨other, held⟩ hother hkey
  obtain ⟨rfl, -⟩ := h.of_mem hother
  exact Table.eq_of_distinct h.distinct hother hgroup
    (BEq.trans (BEq.symm ((hkind other).1 hkey)) (BEq.symm hsame))

end NatSpec.Members
