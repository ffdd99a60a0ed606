import Mathlib.Order.Nat
import NatSpec.Proofs.FileTree.Entries

/-!
Where components lead. `Leads` says what it means to follow components from a location, link after
link, without saying how: `follow` remembers the links that it has met, and gives up at one that it
is still following. Both agree: where components lead somewhere, `follow` gets there.
-/

namespace NatSpec.FileTree

/-- From `place` the components lead to `dest`, with links followed at most `depth` deep inside one
another. What is missing is kept as it is written. -/
inductive Leads (t : FileTree) : Nat → Location → List String → Location → Prop
  | done {depth : Nat} {place : Location} : Leads t depth place [] place
  | up {depth : Nat} {place dest : Location} {rest : List String} :
      Leads t depth place.dropLast rest dest → Leads t depth place (".." :: rest) dest
  | step {depth : Nat} {place dest : Location} {name : String} {rest : List String} :
      name ≠ ".." → (∀ target, t.at? (place ++ [name]) ≠ some (.link target)) →
      Leads t depth (place ++ [name]) rest dest → Leads t depth place (name :: rest) dest
  | link {depth : Nat} {place found dest : Location} {name target : String}
      {rest : List String} :
      name ≠ ".." → t.at? (place ++ [name]) = some (.link target) →
      Leads t depth (targetStart place target) (Path.components target.toList) found →
      Leads t (depth + 1) found rest dest → Leads t (depth + 1) place (name :: rest) dest

variable {t : FileTree} {depth : Nat} {place dest : Location} {parts : List String}

namespace Leads

theorem mono (h : t.Leads depth place parts dest) {depth' : Nat} (hle : depth ≤ depth') :
    t.Leads depth' place parts dest := by
  induction h generalizing depth' with
  | done => exact .done
  | up _ ih => exact .up (ih hle)
  | step hname hplain _ ih => exact .step hname hplain (ih hle)
  | link hname hlink _ _ ihTarget ihRest =>
      cases depth' with
      | zero => omega
      | succ depth' =>
          exact .link hname hlink (ihTarget (Nat.le_of_succ_le_succ hle)) (ihRest hle)

theorem unique (h : t.Leads depth place parts dest) {depth' : Nat} {dest' : Location}
    (h' : t.Leads depth' place parts dest') : dest = dest' := by
  induction h generalizing depth' dest' with
  | done =>
      cases h' with
      | done => rfl
  | up _ ih =>
      cases h' with
      | up h' => exact ih h'
      | step hname => exact absurd rfl hname
      | link hname => exact absurd rfl hname
  | step hname hplain _ ih =>
      cases h' with
      | up => exact absurd rfl hname
      | step _ _ h' => exact ih h'
      | link _ hlink => exact absurd hlink (hplain _)
  | link hname hlink _ _ ihTarget ihRest =>
      cases h' with
      | up => exact absurd rfl hname
      | step _ hplain => exact absurd hlink (hplain _)
      | link _ hlink' hTarget hRest =>
          obtain rfl := Entry.link.inj (Option.some.inj (hlink.symm.trans hlink'))
          obtain rfl := ihTarget hTarget
          exact ihRest hRest

/-- Components that are followed to their end lead to a place without links on the way. -/
theorem plain (h : t.Leads depth place parts dest) (hplace : t.Plain place) : t.Plain dest := by
  induction h with
  | done => exact hplace
  | up _ ih => exact ih hplace.dropLast
  | step _ hname _ ih => exact ih (hplace.concat hname)
  | link _ _ _ _ ihTarget ihRest =>
      refine ihRest (ihTarget ?_)
      unfold targetStart
      split
      · exact hplace
      · exact plain_nil

theorem append {rest : List String} {found : Location} (h : t.Leads depth place parts found)
    (hrest : t.Leads depth found rest dest) : t.Leads depth place (parts ++ rest) dest := by
  induction h with
  | done => exact hrest
  | up _ ih => exact .up (ih hrest)
  | step hname hplain _ ih => exact .step hname hplain (ih hrest)
  | link hname hlink hTarget _ _ ihRest => exact .link hname hlink hTarget (ihRest hrest)

/-- Where components lead depends on the links only. -/
theorem congr {s : FileTree} (h : t.Leads depth place parts dest)
    (hlinks : ∀ place target,
      t.at? place = some (.link target) ↔ s.at? place = some (.link target)) :
    s.Leads depth place parts dest := by
  induction h with
  | done => exact .done
  | up _ ih => exact .up ih
  | step hname hplain _ ih =>
      exact .step hname (fun target hlink => hplain target ((hlinks _ _).2 hlink)) ih
  | link hname hlink _ _ ihTarget ihRest =>
      exact .link hname ((hlinks _ _).1 hlink) ihTarget ihRest

/-- As many double dots as there are components lead back. -/
theorem ups (place parts : Location) :
    t.Leads 0 (place ++ parts) (List.replicate parts.length "..") place := by
  induction parts using List.reverseRecOn with
  | nil =>
      rw [List.append_nil]
      exact .done
  | append_singleton parts name ih =>
      rw [List.length_append, List.length_singleton, List.replicate_succ, ← List.append_assoc]
      refine .up ?_
      rwa [List.dropLast_concat]

end Leads

/-! ### Following with a memory -/

/-- A link in a place leads somewhere, with further links followed at most `depth` deep. -/
structure LinkLeads (t : FileTree) (depth : Nat) (place dest : Location) : Prop where
  leads : ∃ upper name target, place = upper ++ [name] ∧ t.at? place = some (.link target) ∧
    t.Leads depth (targetStart upper target) (Path.components target.toList) dest

theorem LinkLeads.leads_target {name target : String}
    (h : t.LinkLeads depth (place ++ [name]) dest)
    (hlink : t.at? (place ++ [name]) = some (.link target)) :
    t.Leads depth (targetStart place target) (Path.components target.toList) dest := by
  obtain ⟨upper, name', target', hplace, hlink', hleads⟩ := h.leads
  obtain ⟨rfl, -⟩ := List.append_inj' hplace rfl
  obtain rfl := Entry.link.inj (Option.some.inj (hlink.symm.trans hlink'))
  exact hleads

theorem LinkLeads.unique {depth' : Nat} {dest' : Location} (h : t.LinkLeads depth place dest)
    (h' : t.LinkLeads depth' place dest') : dest = dest' := by
  obtain ⟨upper, name, target, rfl, hlink, hleads⟩ := h.leads
  exact hleads.unique (h'.leads_target hlink)

/-- There is a least depth at which a link leads where it leads. -/
theorem LinkLeads.exists_least (h : t.LinkLeads depth place dest) :
    ∃ least ≤ depth, t.LinkLeads least place dest ∧
      ∀ less < least, ∀ other, ¬t.LinkLeads less place other := by
  classical
  have hsome : ∃ least, ∃ found, t.LinkLeads least place found := ⟨depth, dest, h⟩
  obtain ⟨found, hfound⟩ := Nat.find_spec hsome
  obtain rfl := h.unique hfound
  refine ⟨Nat.find hsome, Nat.find_min' hsome ⟨dest, h⟩, hfound, ?_⟩
  intro less hless other hother
  exact Nat.find_min hsome hless ⟨other, hother⟩

/-- The links that are being followed are no more than there are. -/
theorem length_le_linkCount {links : List Location} (hdistinct : links.Nodup)
    (hlinks : ∀ place ∈ links, ∃ target, t.at? place = some (.link target)) :
    links.length ≤ t.linkCount := by
  refine Table.length_le_countP hdistinct _ fun place hplace => ?_
  obtain ⟨target, htarget⟩ := hlinks place hplace
  have hne : place ≠ [] := by
    rintro rfl
    cases htarget
  rw [at?_of_ne hne] at htarget
  exact ⟨_, htarget, rfl⟩

theorem not_link_of_linkCount (h : t.linkCount = 0) (place : Location) (target : String) :
    t.at? place ≠ some (.link target) := by
  intro hlink
  have hle := length_le_linkCount (List.nodup_singleton place) (by
    simp only [List.mem_singleton, forall_eq]
    exact ⟨target, hlink⟩)
  rw [h] at hle
  exact absurd hle (by simp)

theorem not_link_below {root : Location}
    (h : t.entries.countP (fun (place, entry) => root.isPrefixOf place && entry matches .link _) = 0)
    (place : Location) (hplace : root <+: place) (target : String) :
    t.at? place ≠ some (.link target) := by
  intro hlink
  have hne : place ≠ [] := by
    rintro rfl
    cases hlink
  have hbelow : root.isPrefixOf place = true := List.isPrefixOf_iff_prefix.2 hplace
  exact List.countP_eq_zero.1 h _ (mem_entries_of_at? hlink hne) (by simp [hbelow])

/-- Links that have been followed lead where they are noted to lead. -/
def Records (t : FileTree) (met : Table Location (Option Location)) : Prop :=
  ∀ link found, met.get? link = some (some found) → ∃ depth, t.LinkLeads depth link found

namespace Records

variable {met : Table Location (Option Location)}

theorem nil : t.Records [] := by simp [Records, Table.get?]

theorem start (h : t.Records met) (place : Location) : t.Records (met.set place none) := by
  intro link found hfound
  rw [Table.get?_set] at hfound
  split at hfound
  · cases hfound
  · exact h link found hfound

theorem finish (h : t.Records met) (hleads : t.LinkLeads depth place dest) :
    t.Records (met.set place (some dest)) := by
  intro link found hfound
  rw [Table.get?_set] at hfound
  split at hfound
  · rename_i heq
    obtain rfl := eq_of_beq heq
    obtain rfl := Option.some.inj (Option.some.inj hfound)
    exact ⟨depth, hleads⟩
  · exact h link found hfound

end Records

/-- What `follow` has noted is right: the links that are being followed are `pending`, the others
that have been met lead where it says, and there is depth left for all other links. -/
structure Noted (t : FileTree) (left : Nat) (met : Table Location (Option Location))
    (pending : List Location) : Prop where
  distinct : pending.Nodup
  links : ∀ place ∈ pending, ∃ target, t.at? place = some (.link target)
  opened : ∀ place, met.get? place = some none ↔ place ∈ pending
  closed : ∀ place dest, met.get? place = some (some dest) → ∃ depth, t.LinkLeads depth place dest
  enough : t.linkCount ≤ left + pending.length

namespace Noted

variable {left : Nat} {met : Table Location (Option Location)} {pending : List Location}

theorem nil : t.Noted t.linkCount [] [] where
  distinct := List.nodup_nil
  links := by simp
  opened := by simp [Table.get?]
  closed := Records.nil
  enough := Nat.le_refl _

/-- Some depth is left at a link that has not been met. -/
theorem left_ne_zero (h : t.Noted left met pending) {target : String}
    (hlink : t.at? place = some (.link target)) (hmet : met.get? place = none) : left ≠ 0 := by
  have hnot : place ∉ pending := by
    intro hmem
    rw [(h.opened place).2 hmem] at hmet
    cases hmet
  have hle : (place :: pending).length ≤ t.linkCount := by
    refine length_le_linkCount (List.nodup_cons.2 ⟨hnot, h.distinct⟩) ?_
    rintro other (_ | ⟨_, hother⟩)
    · exact ⟨target, hlink⟩
    · exact h.links other hother
  have henough := h.enough
  rw [List.length_cons] at hle
  omega

theorem start (h : t.Noted (left + 1) met pending) {target : String}
    (hlink : t.at? place = some (.link target)) (hmet : met.get? place = none) :
    t.Noted left (met.set place none) (place :: pending) where
  distinct := by
    refine List.nodup_cons.2 ⟨?_, h.distinct⟩
    intro hmem
    rw [(h.opened place).2 hmem] at hmet
    cases hmet
  links := by
    rintro other (_ | ⟨_, hother⟩)
    · exact ⟨target, hlink⟩
    · exact h.links other hother
  opened := by
    intro other
    rw [Table.get?_set, List.mem_cons, ← h.opened other]
    by_cases hother : place = other
    · simp [hother]
    · simp [hother, Ne.symm hother]
  closed := Records.start h.closed place
  enough := by
    have henough := h.enough
    rw [List.length_cons]
    omega

theorem finish (h : t.Noted left met (place :: pending)) {found : Location}
    (hleads : t.LinkLeads depth place found) :
    t.Noted (left + 1) (met.set place (some found)) pending where
  distinct := (List.nodup_cons.1 h.distinct).2
  links := fun other hother => h.links other (List.mem_cons_of_mem _ hother)
  opened := by
    intro other
    rw [Table.get?_set]
    split
    · rename_i hother
      obtain rfl := eq_of_beq hother
      simp [(List.nodup_cons.1 h.distinct).1]
    · rename_i hother
      rw [h.opened other, List.mem_cons]
      constructor
      · rintro (rfl | hmem)
        · simp at hother
        · exact hmem
      · exact Or.inr
  closed := Records.finish h.closed hleads
  enough := by
    have henough := h.enough
    rw [List.length_cons] at henough
    omega

end Noted

section

variable {left : Nat} {met met' : Table Location (Option Location)} {name target : String}
  {rest : List String} {found : Location}

theorem follow_step (hname : name ≠ "..")
    (hplain : ∀ target, t.at? (place ++ [name]) ≠ some (.link target)) :
    t.follow left met place (name :: rest) = t.follow left met (place ++ [name]) rest := by
  rw [follow, if_neg hname]
  dsimp only
  split
  · rename_i target hlink
    exact absurd hlink (hplain target)
  · rfl

/-- A link that was followed before is not followed again. -/
theorem follow_again (hname : name ≠ "..") (hlink : t.at? (place ++ [name]) = some (.link target))
    (hmet : met.get? (place ++ [name]) = some (some found)) :
    t.follow left met place (name :: rest) = t.follow left met found rest := by
  rw [follow, if_neg hname]
  simp only [hlink, hmet]

theorem follow_link (hname : name ≠ "..") (hlink : t.at? (place ++ [name]) = some (.link target))
    (hmet : met.get? (place ++ [name]) = none)
    (hinner : t.follow left (met.set (place ++ [name]) none) (targetStart place target)
      (Path.components target.toList) = ⟨true, found, met'⟩) :
    t.follow (left + 1) met place (name :: rest) =
      t.follow (left + 1) (met'.set (place ++ [name]) (some found)) found rest := by
  rw [follow, if_neg hname]
  simp only [hlink, hmet, hinner, if_true]

end

/-- Where components lead, `follow` gets, if no link that is being followed is met again on the
way. -/
theorem follow_of_noted (h : t.Leads depth place parts dest) {left : Nat}
    {met : Table Location (Option Location)} {pending : List Location}
    (hnoted : t.Noted left met pending)
    (hdeeper : ∀ link ∈ pending, ∀ less < depth, ∀ found, ¬t.LinkLeads less link found) :
    ∃ met', t.follow left met place parts = ⟨true, dest, met'⟩ ∧ t.Noted left met' pending := by
  -- On the depth, since the target of a link is followed by a derivation of the least depth, which
  -- need not be a part of the given one.
  induction depth using Nat.strongRecOn generalizing place parts dest left met pending with
  | _ depth ihDepth =>
    induction h generalizing left met with
    | done => exact ⟨met, by rw [follow], hnoted⟩
    | up _ ih =>
        rw [follow, if_pos rfl]
        exact ih ihDepth hnoted hdeeper
    | step hname hplain _ ih =>
        rw [follow_step hname hplain]
        exact ih ihDepth hnoted hdeeper
    | @link depth place found dest name target rest hname hlink hTarget _ _ ihRest =>
        have hleads : t.LinkLeads depth (place ++ [name]) found :=
          ⟨place, name, target, rfl, hlink, hTarget⟩
        cases hmet : met.get? (place ++ [name]) with
        | some known =>
            cases known with
            | none =>
                have hpending := (hnoted.opened _).1 hmet
                exact absurd hleads (hdeeper _ hpending depth (Nat.lt_succ_self depth) found)
            | some found' =>
                obtain ⟨depth', hleads'⟩ := hnoted.closed _ _ hmet
                obtain rfl := hleads.unique hleads'
                rw [follow_again hname hlink hmet]
                exact ihRest ihDepth hnoted hdeeper
        | none =>
            obtain ⟨left, rfl⟩ := Nat.exists_eq_add_one_of_ne_zero (hnoted.left_ne_zero hlink hmet)
            obtain ⟨least, hle, hleast, hless⟩ := hleads.exists_least
            -- So no pending link is met on the way to the target: what is met there leads on at less
            -- than the least depth.
            have hdeeper' : ∀ link ∈ (place ++ [name]) :: pending, ∀ less < least, ∀ found,
                ¬t.LinkLeads less link found := by
              rintro link (_ | ⟨_, hmem⟩) less hlt
              · exact hless less hlt
              · exact hdeeper link hmem less (by omega)
            obtain ⟨met', hfollow, hnoted'⟩ :=
              ihDepth least (by omega) (hleast.leads_target hlink) (hnoted.start hlink hmet) hdeeper'
            rw [follow_link hname hlink hmet hfollow]
            exact ihRest ihDepth (hnoted'.finish hleads) hdeeper

/-- Where components lead, `follow` gets. -/
theorem follow_of_leads (h : t.Leads depth place parts dest) :
    ∃ met, t.follow t.linkCount [] place parts = ⟨true, dest, met⟩ := by
  obtain ⟨met, hfollow, -⟩ := follow_of_noted h Noted.nil (by simp)
  exact ⟨met, hfollow⟩

/-- Where `follow` gets to the end, components lead. -/
theorem leads_of_follow {left : Nat} {met : Table Location (Option Location)}
    (hmet : t.Records met) (h : (t.follow left met place parts).complete = true) :
    (∃ depth, t.Leads depth place parts (t.follow left met place parts).place) ∧
      t.Records (t.follow left met place parts).met := by
  fun_induction follow t left met place parts with
  | case1 => exact ⟨⟨0, .done⟩, hmet⟩
  | case2 left met place rest ih =>
      obtain ⟨⟨depth, hrest⟩, hmet'⟩ := ih hmet h
      exact ⟨⟨depth, hrest.up⟩, hmet'⟩
  | case3 met place name rest hname next target hlink found left hfound ih =>
      obtain ⟨⟨depth, hrest⟩, hmet'⟩ := ih hmet h
      obtain ⟨depth', hleads⟩ := hmet next found hfound
      have htarget := hleads.leads_target hlink
      exact ⟨⟨max depth depth' + 1, .link hname hlink (htarget.mono (by omega))
        (hrest.mono (by omega))⟩, hmet'⟩
  | case4 met place name rest hname next target hlink inside hnew inner hinner ih _ ihRest =>
      obtain ⟨⟨depth, htarget⟩, hmet'⟩ := ih (hmet.start next) hinner
      have hleads : t.LinkLeads depth next inner.place :=
        ⟨place, name, target, rfl, hlink, htarget⟩
      obtain ⟨⟨depth', hrest⟩, hmet''⟩ := ihRest (hmet'.finish hleads) h
      exact ⟨⟨max depth depth' + 1, .link hname hlink (htarget.mono (by omega))
        (hrest.mono (by omega))⟩, hmet''⟩
  | case5 => cases h
  | case6 => cases h
  | case7 left met place name rest hname next hplain ih =>
      obtain ⟨⟨depth, hrest⟩, hmet'⟩ := ih hmet h
      exact ⟨⟨depth, .step hname (fun target hlink => hplain target hlink) hrest⟩, hmet'⟩

/-! ### Trees without loops -/

/-- Every link leads somewhere, if perhaps to what is missing. -/
def LoopFree (t : FileTree) : Prop :=
  ∀ place name target, t.at? (place ++ [name]) = some (.link target) →
    ∃ depth dest, t.Leads depth (targetStart place target) (Path.components target.toList) dest

/-- If no link leads back to itself then all components lead somewhere. -/
theorem LoopFree.exists_leads (h : t.LoopFree) (place : Location) (parts : List String) :
    ∃ depth dest, t.Leads depth place parts dest := by
  induction parts generalizing place with
  | nil => exact ⟨0, place, .done⟩
  | cons name rest ih =>
      by_cases hdots : name = ".."
      · obtain ⟨depth, dest, hrest⟩ := ih place.dropLast
        exact ⟨depth, dest, hdots ▸ hrest.up⟩
      · by_cases hlink : ∃ target, t.at? (place ++ [name]) = some (.link target)
        · obtain ⟨target, hlink⟩ := hlink
          obtain ⟨depth, found, htarget⟩ := h place name target hlink
          obtain ⟨depth', dest, hrest⟩ := ih found
          exact ⟨max depth depth' + 1, dest, .link hdots hlink (htarget.mono (by omega))
            (hrest.mono (by omega))⟩
        · obtain ⟨depth, dest, hrest⟩ := ih (place ++ [name])
          exact ⟨depth, dest, .step hdots (not_exists.1 hlink) hrest⟩

/-- Whether what stands in a place leads somewhere, as far as it is a link. -/
def linkEnds (t : FileTree) (place : Location) : Bool :=
  match t.at? place with
  | some (.link target) =>
    (t.follow t.linkCount [] (targetStart place.dropLast target)
      (Path.components target.toList)).complete
  | _ => true

/-- Whether a tree is free of loops is seen by following each of its links. -/
theorem loopFree_iff : t.LoopFree ↔ (Table.keys t.entries).all t.linkEnds = true := by
  rw [List.all_eq_true]
  constructor
  · intro h place hmem
    unfold linkEnds
    split
    · rename_i target hlink
      have hne : place ≠ [] := by
        rintro rfl
        cases hlink
      rw [← List.dropLast_append_getLast hne] at hlink
      obtain ⟨depth, dest, hleads⟩ := h _ _ target hlink
      obtain ⟨met, hfollow⟩ := follow_of_leads hleads
      rw [hfollow]
    · rfl
  · intro h place name target hlink
    have hends := h _ (mem_keys_of_at? hlink (by simp))
    rw [linkEnds, hlink, List.dropLast_concat] at hends
    obtain ⟨⟨depth, hleads⟩, -⟩ := leads_of_follow .nil hends
    exact ⟨depth, _, hleads⟩

instance : Decidable t.LoopFree :=
  decidable_of_iff _ loopFree_iff.symm

end NatSpec.FileTree
