import NatSpec.Bundle.Index
import NatSpec.Proofs.Bundle.Markup
import NatSpec.Proofs.Except

/-!
What the index page is made of. It can be made exactly if each group of members is an object or left
out and each linked page has a path; then a fixed opening, the sections of the contracts in order
and the script with the data follow one another.
-/

namespace NatSpec.Index

/-! ### Groups -/

/-- The members of a group, of which there are none if it is left out. -/
def members (group : Json) : Fields :=
  match group with
  | .obj records => records
  | _ => []

/-- Whether the members of a group can be listed. -/
def IsGroup (group : Json) : Prop :=
  group.truthy = true → group.isObj = true

theorem groupItems_eq_ok_iff {kind : String} {group : Json} {ps : List Piece} :
    groupItems kind group = .ok ps ↔ IsGroup group ∧
      (members group).flatMap (fun entry => memberItem kind entry.1.display entry.2) = ps := by
  by_cases hshown : group.truthy = true
  · rw [groupItems, Json.orElse, if_pos hshown]
    cases group <;> simp [IsGroup, members, hshown, Json.isObj]
  · have hnone : members group = [] := by
      cases group <;> simp_all [members, Json.truthy]
    simp [groupItems, Json.orElse, IsGroup, hshown, hnone]

/-! ### Contracts -/

/-- Whether a contract can be shown, with a link to its page or without. -/
structure IsShown (pages : Bool) (doc : ContractDoc) : Prop where
  source : pages = true → ∃ s, doc.source = .str s
  methods : IsGroup doc.methods
  events : IsGroup doc.events
  stateVariables : IsGroup doc.stateVariables

def pageOf (pages : Bool) (doc : ContractDoc) : Option Path :=
  if pages then doc.pagePath.toOption else none

theorem linkedPage_eq_ok_iff {pages : Bool} {doc : ContractDoc} {page : Option Path} :
    linkedPage pages doc = .ok page ↔
      (pages = true → ∃ s, doc.source = .str s) ∧ pageOf pages doc = page := by
  cases pages with
  | false => simp [linkedPage, pageOf]
  | true =>
      rw [linkedPage, if_pos rfl, bind_eq_ok_iff]
      cases hsource : doc.source <;>
        simp [pageOf, ContractDoc.pagePath, hsource, Except.toOption]

theorem exists_contractSection_iff {name : String} {doc : ContractDoc} {page : Option Path} :
    (∃ ps, contractSection name doc page = .ok ps) ↔
      IsGroup doc.methods ∧ IsGroup doc.events ∧ IsGroup doc.stateVariables := by
  simp [contractSection, bind_eq_ok_iff, groupItems_eq_ok_iff, and_assoc]

/-! ### The page -/

/-- What stands between the last contract and the data. -/
def footer : String :=
  "  <footer class=\"source\">Generated by " ++ programName ++ " " ++ programVersion ++ "</footer>\n"
    ++ "  <script id=\"docgen-data\" type=\"application/json\">"

/-- What stands behind the data. -/
def closing : String := "</script>\n</body>\n</html>"

/-- What stands in place of the contracts if there are none. -/
def placeholder (docs : Docs) : List Piece :=
  if docs.isEmpty then [.markup "  <p>No contracts found.</p>\n"] else []

theorem entries_eq_ok_iff {docs : Docs} {pages : Bool}
    {entries : List (String × ContractDoc × Option Path)} :
    (docs.mapM fun (name, doc) => do
        Except.ok (ε := Fault) (name, doc, ← linkedPage pages doc)) = .ok entries ↔
      (∀ entry ∈ docs, pages = true → ∃ s, entry.2.source = .str s) ∧
      docs.map (fun entry => (entry.1, entry.2, pageOf pages entry.2)) = entries := by
  refine mapM_eq_ok_iff_map fun entry shown => ?_
  rw [bind_eq_ok_iff]
  simp only [linkedPage_eq_ok_iff, Except.ok.injEq]
  constructor
  · rintro ⟨page, ⟨hsource, rfl⟩, hshown⟩
    exact ⟨hsource, hshown⟩
  · rintro ⟨hsource, hshown⟩
    exact ⟨_, ⟨hsource, rfl⟩, hshown⟩

theorem pieces_eq_ok {docs : Docs} {pages : Bool} {ps : List Piece}
    (h : pieces docs pages = .ok ps) :
    ∃ sections, List.Forall₂ (fun entry shown =>
        contractSection entry.1 entry.2 (pageOf pages entry.2) = .ok shown) docs.sorted sections ∧
      ps = .markup opening :: (placeholder docs ++ sections.flatten
        ++ [.markup footer, .data docs.data.text, .markup closing]) := by
  rw [pieces, bind_eq_ok_iff] at h
  obtain ⟨entries, hentries, h⟩ := h
  obtain ⟨sections, hsections, h⟩ := bind_eq_ok_iff.1 h
  obtain rfl := Except.ok.inj h
  obtain ⟨-, rfl⟩ := entries_eq_ok_iff.1 hentries
  refine ⟨sections, ?_, ?_⟩
  · simpa using mapM_eq_ok_iff.1 hsections
  · rfl

/-- The parts of the index page, in their order: what stands in front of the data, the data, and
what stands behind them. -/
theorem render_eq_ok {docs : Docs} {pages : Bool} {page : String}
    (h : render docs pages = .ok page) :
    ∃ sections, List.Forall₂ (fun entry shown =>
        contractSection entry.1 entry.2 (pageOf pages entry.2) = .ok shown) docs.sorted sections ∧
      page = Markup.render (.markup opening ::
          (placeholder docs ++ sections.flatten ++ [.markup footer]))
        ++ Markup.guardScript docs.data.text ++ closing := by
  rw [render, bind_eq_ok_iff] at h
  obtain ⟨ps, hps, h⟩ := h
  obtain rfl := Except.ok.inj h
  obtain ⟨sections, hsections, rfl⟩ := pieces_eq_ok hps
  refine ⟨sections, hsections, ?_⟩
  simp only [Markup.render_append, Markup.render_cons, Markup.render_nil, Markup.pieceText,
    String.append_assoc, String.append_empty]

theorem exists_pieces_iff {docs : Docs} {pages : Bool} :
    (∃ ps, pieces docs pages = .ok ps) ↔ ∀ entry ∈ docs, IsShown pages entry.2 := by
  have hsorted : ∀ entry, entry ∈ docs.sorted ↔ entry ∈ docs := fun _ =>
    (List.mergeSort_perm docs _).mem_iff
  simp only [← hsorted]
  constructor
  · rintro ⟨ps, h⟩ entry hentry
    rw [pieces, bind_eq_ok_iff] at h
    obtain ⟨entries, hentries, h⟩ := h
    obtain ⟨sections, hsections, -⟩ := bind_eq_ok_iff.1 h
    obtain ⟨hsource, rfl⟩ := entries_eq_ok_iff.1 hentries
    obtain ⟨hmethods, hevents, hvariables⟩ := exists_contractSection_iff.1
      (exists_mapM_eq_ok_iff.1 ⟨_, hsections⟩ _ (List.mem_map_of_mem hentry))
    exact ⟨hsource entry hentry, hmethods, hevents, hvariables⟩
  · intro h
    have hentries := entries_eq_ok_iff.2 ⟨fun entry hentry => (h entry hentry).source, rfl⟩
    have hsections : ∀ e ∈ docs.sorted.map fun entry => (entry.1, entry.2, pageOf pages entry.2),
        ∃ shown, contractSection e.1 e.2.1 e.2.2 = .ok shown := by
      intro e he
      obtain ⟨entry, hentry, rfl⟩ := List.mem_map.1 he
      obtain ⟨-, hmethods, hevents, hvariables⟩ := h entry hentry
      exact exists_contractSection_iff.2 ⟨hmethods, hevents, hvariables⟩
    obtain ⟨sections, hsections⟩ := exists_mapM_eq_ok_iff.2 hsections
    exact ⟨_, bind_eq_ok_iff.2 ⟨_, hentries, bind_eq_ok_iff.2 ⟨sections, hsections, rfl⟩⟩⟩

theorem exists_render_iff {docs : Docs} {pages : Bool} :
    (∃ page, render docs pages = .ok page) ↔ ∀ entry ∈ docs, IsShown pages entry.2 := by
  rw [← exists_pieces_iff]
  simp [render, bind_eq_ok_iff]

end NatSpec.Index
