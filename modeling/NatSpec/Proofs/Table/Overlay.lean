import NatSpec.Proofs.Table.Lookup

/-!
Laying entries over a table that may hold them already. Each entry of the table takes the last value
laid over its key. So a table stays as it is, name for name and in its order, just when it holds
what the entries set, and laying the same entries twice is the same as laying them once.
-/

namespace NatSpec.Table

universe u v

variable {κ : Type u} {α : Type v} [BEq κ]

theorem overlay_append (t : Table κ α) (entries others : List (κ × α)) :
    overlay t (entries ++ others) = overlay (overlay t entries) others :=
  List.foldl_append

section

variable [EquivBEq κ]

theorem get?_ofList_cons (e : κ × α) (entries : List (κ × α)) (key : κ) :
    (ofList (e :: entries)).get? key =
      ((ofList entries).get? key).or (if e.1 == key then some e.2 else none) :=
  get?_ofList_append [e] entries key

theorem get?_ofList_eq_none_iff {entries : List (κ × α)} {key : κ} :
    (ofList entries).get? key = none ↔ ∀ e ∈ entries, (e.1 == key) = false := by
  induction entries with
  | nil => simp [ofList, overlay, get?]
  | cons e entries ih =>
      rw [get?_ofList_cons, Option.or_eq_none_iff, ih, List.forall_mem_cons, and_comm]
      cases e.1 == key <;> simp

theorem contains_overlay_of_mem (t : Table κ α) {entries : List (κ × α)} {e : κ × α}
    (h : e ∈ entries) : contains (overlay t entries) e.1 = true := by
  have hset : (ofList entries).get? e.1 ≠ none := fun hnone => by
    simpa using get?_ofList_eq_none_iff.1 hnone e h
  obtain ⟨value, hvalue⟩ := Option.ne_none_iff_exists'.1 hset
  rw [contains, get?_overlay, hvalue]
  rfl

/-- Taking out the entries of one key changes what is read under that key only. -/
theorem get?_ofList_filter_ne (a : κ) (entries : List (κ × α)) (key : κ) :
    (ofList (entries.filter fun e => !(a == e.1))).get? key =
      if a == key then none else (ofList entries).get? key := by
  induction entries with
  | nil => simp [ofList, overlay, get?]
  | cons e entries ih =>
      cases ha : a == e.1 with
      | true =>
          rw [List.filter_cons_of_neg (by simp [ha]), ih, get?_ofList_cons,
            show (e.1 == key) = (a == key) from (BEq.congr_left ha).symm]
          cases a == key <;> simp
      | false =>
          rw [List.filter_cons_of_pos (by simp [ha]), get?_ofList_cons, ih, get?_ofList_cons]
          cases hkey : a == key with
          | false => rfl
          | true =>
              have hother : (e.1 == key) = false := by
                rw [← BEq.congr_right hkey, BEq.comm, ha]
              simp [hother]

/-- The first entry of a table takes the last value laid over its key, and what is left of the
entries is laid over the rest. -/
theorem overlay_cons (key : κ) (value : α) (t : Table κ α) (entries : List (κ × α)) :
    overlay ((key, value) :: t) entries =
      (key, ((ofList entries).get? key).getD value) ::
        overlay t (entries.filter fun e => !(key == e.1)) := by
  induction entries generalizing value t with
  | nil => rfl
  | cons e entries ih =>
      change overlay (set ((key, value) :: t) e.1 e.2) entries = _
      rw [set, get?_ofList_cons, BEq.comm (a := e.1)]
      cases hkey : key == e.1 with
      | true =>
          rw [if_pos rfl, ih, List.filter_cons_of_neg (by simp [hkey])]
          cases (ofList entries).get? key <;> rfl
      | false =>
          rw [if_neg (by simp), ih, List.filter_cons_of_pos (by simp [hkey]), if_neg (by simp),
            Option.or_none]
          rfl

/-- A table that holds what the entries set is not changed by them, and no other table is left
alone. -/
theorem overlay_eq_self_iff {t : Table κ α} {entries : List (κ × α)} :
    overlay t entries = t ↔
      ∀ key value, (ofList entries).get? key = some value → get? t key = some value := by
  constructor
  · intro h key value hlast
    rw [← h, get?_overlay, hlast, Option.some_or]
  · intro h
    induction t generalizing entries with
    | nil =>
        cases entries with
        | nil => rfl
        | cons e entries =>
            -- The first entry is read back, but an empty table holds nothing.
            cases hlast : (ofList (e :: entries)).get? e.1 with
            | none => simp [get?_ofList_cons] at hlast
            | some value => cases h e.1 value hlast
    | cons e t ih =>
        obtain ⟨key, value⟩ := e
        have hfirst : ((ofList entries).get? key).getD value = value := by
          cases hlast : (ofList entries).get? key with
          | none => rfl
          | some last =>
              have hread := h key last hlast
              rw [get?, if_pos BEq.rfl] at hread
              exact (Option.some.inj hread).symm
        rw [overlay_cons, hfirst, ih]
        intro other last hlast
        rw [get?_ofList_filter_ne] at hlast
        split at hlast
        · cases hlast
        · rename_i hne
          have hread := h other last hlast
          rwa [get?, if_neg hne] at hread

theorem overlay_overlay (t : Table κ α) (entries : List (κ × α)) :
    overlay (overlay t entries) entries = overlay t entries := by
  refine overlay_eq_self_iff.2 fun key value hlast => ?_
  rw [get?_overlay, hlast, Option.some_or]

theorem set_set (t : Table κ α) (key : κ) (value : α) :
    set (set t key value) key value = set t key value :=
  overlay_overlay t [(key, value)]

/-- Entries that are laid below others leave no trace just when the others set all their keys. -/
theorem overlay_below_iff {entries others : List (κ × α)} :
    overlay (ofList others) (entries ++ others) = ofList others ↔
      ∀ e ∈ entries, (ofList others).contains e.1 = true := by
  rw [overlay_eq_self_iff]
  constructor
  · intro h e he
    rw [contains, Option.isSome_iff_ne_none]
    intro hnone
    have hset : (ofList entries).get? e.1 ≠ none :=
      fun hnot => by simpa using get?_ofList_eq_none_iff.1 hnot e he
    obtain ⟨value, hvalue⟩ := Option.ne_none_iff_exists'.1 hset
    have hread := h e.1 value (by rw [get?_ofList_append, hnone, Option.none_or, hvalue])
    rw [hnone] at hread
    cases hread
  · intro h key value hlast
    rw [get?_ofList_append] at hlast
    cases hother : (ofList others).get? key with
    | some last => rwa [hother, Option.some_or] at hlast
    | none =>
        -- The key would be one of the lower entries, which the others set.
        rw [hother, Option.none_or] at hlast
        have hset : (ofList entries).get? key = none := by
          refine get?_ofList_eq_none_iff.2 fun e he => ?_
          have hcontains := h e he
          cases hkey : e.1 == key with
          | false => rfl
          | true => rw [contains, get?_congr _ hkey, hother] at hcontains; cases hcontains
        rw [hset] at hlast
        cases hlast

end

section

variable [LawfulBEq κ]

/-- Tables with the same keys, each once, are equal if they give the same for each key. -/
theorem eq_of_get? {t t' : Table κ α} (hkeys : keys t = keys t') (ht : (keys t).Nodup)
    (h : ∀ key ∈ keys t, get? t key = get? t' key) : t = t' := by
  have hvalue (t : Table κ α) (ht : (keys t).Nodup) :
      t.map (fun e => some e) = (keys t).map fun key => (get? t key).map (key, ·) := by
    rw [keys, List.map_map]
    refine List.map_congr_left fun e he => ?_
    rw [Function.comp_apply, get?_of_mem ht he]
    rfl
  have hmap : t.map (fun e => some e) = t'.map fun e => some e := by
    rw [hvalue t ht, hvalue t' (hkeys ▸ ht), ← hkeys]
    exact List.map_congr_left fun key hkey => by rw [h key hkey]
  exact List.map_injective_iff.2 (fun _ _ => Option.some.inj) hmap

/-- The entries under one key of a table in which each key stands once. -/
theorem filter_eq_of_nodup {t : Table κ α} (ht : (keys t).Nodup) (key : κ) :
    t.filter (fun e => e.1 == key) = ((get? t key).map (key, ·)).toList := by
  induction t with
  | nil => rfl
  | cons e t ih =>
      obtain ⟨k, value⟩ := e
      rw [keys_cons, List.nodup_cons] at ht
      by_cases hk : k = key
      · subst hk
        rw [List.filter_cons_of_pos (by simp), ih ht.2, get?_eq_none_iff.2 ht.1]
        simp [get?]
      · rw [List.filter_cons_of_neg (by simpa using hk), ih ht.2]
        simp [get?, hk]

/-- Under each key a list of entries leaves the last of them. -/
theorem get?_ofList_eq_getLast? (entries : List (κ × α)) (key : κ) :
    (ofList entries).get? key =
      ((entries.filter fun e => e.1 == key).map Prod.snd).getLast? := by
  induction entries using List.reverseRecOn with
  | nil => rfl
  | append_singleton entries e ih =>
      rw [get?_ofList_append, List.filter_append, List.map_append, ih]
      by_cases hk : e.1 = key
      · simp [ofList, overlay, set, get?, hk]
      · simp [ofList, overlay, set, get?, hk]

end

end NatSpec.Table
