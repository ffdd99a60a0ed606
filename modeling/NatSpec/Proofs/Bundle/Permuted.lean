import NatSpec.Proofs.Bundle.Final

/-!
Bundles of contracts in another order. The data and the index are made from the contracts in
increasing order of their names, and the pages of the contracts are the same files in another order;
so whether a bundle is written does not depend on the order, and neither does what stands in a
place, unless several pages are written there.
-/

namespace NatSpec

open FileTree (Laid Unnested)

/-- The last entry of a key is the same in another order if the key has one value only. -/
theorem Table.get?_ofList_perm {κ α : Type} [BEq κ] [LawfulBEq κ] {entries others : List (κ × α)}
    (h : entries.Perm others) {key : κ}
    (hone : ∀ e ∈ entries, ∀ e' ∈ entries, e.1 = key → e'.1 = key → e = e') :
    (ofList entries).get? key = (ofList others).get? key := by
  cases hentries : (ofList entries).get? key with
  | none =>
      refine (get?_ofList_eq_none_iff.2 fun e he => ?_).symm
      exact get?_ofList_eq_none_iff.1 hentries e (h.mem_iff.2 he)
  | some value =>
      have hmem := mem_of_get?_ofList hentries
      obtain ⟨last, hlast⟩ := exists_get?_ofList (h.mem_iff.1 hmem)
      have hmem' := h.mem_iff.2 (mem_of_get?_ofList hlast)
      rw [hlast, (Prod.mk.inj (hone _ hmem _ hmem' rfl rfl)).2]

/-- The same entries that are laid down in another order leave the same in a place if the last one
of that place is the same. -/
theorem FileTree.Laid.at?_eq_of_perm {t t' t'' : FileTree} {items others : List (Location × Entry)}
    (h : Laid items t t') (h' : Laid others t t'') (hperm : items.Perm others) {place : Location}
    (hlast : (Table.ofList items).get? place = (Table.ofList others).get? place) :
    t'.at? place = t''.at? place := by
  cases hentry : (Table.ofList items).get? place with
  | some entry => rw [h.item place entry hentry, h'.item place entry (hlast ▸ hentry)]
  | none =>
      have hnone := Table.get?_ofList_eq_none_iff.1 hentry
      by_cases habove : ∃ i ∈ items, place <+: i.1
      · obtain ⟨i, hi, hup⟩ := habove
        have hne : place ≠ i.1 := by
          rintro rfl
          simpa using hnone i hi
        rw [h.above i hi place hup hne, h'.above i (hperm.mem_iff.1 hi) place hup hne]
      · rw [h.rest place fun i hi hup => habove ⟨i, hi, hup⟩,
          h'.rest place fun i hi hup => habove ⟨i, hperm.mem_iff.2 hi, hup⟩]

/-! ### Texts that do not depend on the order -/

variable {docs docs' : Docs}

theorem Docs.sorted_eq_of_perm (hperm : docs.Perm docs') (hdistinct : (Table.keys docs).Nodup) :
    docs.sorted = docs'.sorted := by
  have hdistinct' : (Table.keys docs').Nodup := ((hperm.map Prod.fst).nodup_iff).1 hdistinct
  exact mergeSort_eq_of_perm Prod.fst (hperm.trans docs'.sorted_perm.symm)
    (pairwise_mergeSort_lt Prod.fst hdistinct')

theorem Docs.data_eq_of_perm (hperm : docs.Perm docs') (hdistinct : (Table.keys docs).Nodup) :
    docs.data = docs'.data := by
  rw [data, data, sorted_eq_of_perm hperm hdistinct]

/-- The index page lists the contracts in increasing order of their names. -/
theorem Index.render_eq_of_perm (hperm : docs.Perm docs') (hdistinct : (Table.keys docs).Nodup)
    (pages : Bool) : render docs pages = render docs' pages := by
  rw [render, render, pieces, pieces, Docs.data_eq_of_perm hperm hdistinct,
    Docs.sorted_eq_of_perm hperm hdistinct, hperm.isEmpty_eq]

namespace Bundle

variable {t t' t₁ : FileTree} {directory : Path} {root : Location} {options : RenderOptions}
  {data : Location × Entry} {pages index : List (Location × Entry)}

theorem dataText_eq_of_perm (hperm : docs.Perm docs') (hdistinct : (Table.keys docs).Nodup)
    (indent : Json) : dataText docs indent = dataText docs' indent := by
  rw [dataText, dataText, Docs.data_eq_of_perm hperm hdistinct]

/-! ### Bundles that fit in another order -/

section

variable (hperm : docs.Perm docs') (hdistinct : (Table.keys docs).Nodup)
include hperm hdistinct

/-- The same contracts in another order have the same data and index, and the same pages in another
order. -/
theorem Items.exists_perm (h : Items docs options t directory root data pages index) :
    ∃ pages', pages.Perm pages' ∧ Items docs' options t directory root data pages' index := by
  obtain ⟨hdata, hpages, hindex⟩ := h
  rw [dataText_eq_of_perm hperm hdistinct] at hdata
  rw [Index.render_eq_of_perm hperm hdistinct] at hindex
  split at hpages
  · rename_i hwanted
    obtain ⟨pages', hpages', hsame⟩ := List.perm_comp_forall₂ hperm.symm hpages
    exact ⟨pages', hsame.symm, hdata, by rwa [if_pos hwanted], hindex⟩
  · rename_i hnone
    exact ⟨pages, .refl _, hdata, by rwa [if_neg hnone], hindex⟩

/-- The same contracts in another order fit, too. -/
theorem Fits.exists_perm (h : Fits docs options directory root data pages index t t₁) :
    ∃ pages', pages.Perm pages' ∧ Fits docs' options directory root data pages' index t t₁ := by
  obtain ⟨pages', hpages, hitems⟩ := h.items.exists_perm hperm hdistinct
  have hall : (data :: pages ++ index).Perm (data :: pages' ++ index) :=
    (hpages.cons data).append_right index
  refine ⟨pages', hpages, h.opened, h.made, h.ready, hitems,
    fun item hitem => h.room item (hall.mem_iff.2 hitem), ?_⟩
  exact (hall.pairwise_iff fun hunnested => hunnested.symm).1 h.apart

end

/-- The same contracts in another order are written, too. -/
theorem exists_render_of_perm (hsound : t.Sound) (hdot : "." ∉ directory.parts)
    (htame : Tame t directory) (hperm : docs.Perm docs') (hdistinct : (Table.keys docs).Nodup) :
    (∃ written t', render docs directory options t = (.ok written, t')) →
      ∃ written t', render docs' directory options t = (.ok written, t') := by
  rintro ⟨written, t', hrender⟩
  obtain ⟨root, data, pages, index, t₁, hfits, -, -⟩ :=
    exists_fits_of_render hsound.based hdot htame hrender
  obtain ⟨pages', -, hfits'⟩ := hfits.exists_perm hperm hdistinct
  obtain ⟨t'', hrender', -⟩ := hfits'.exists_render
  exact ⟨_, t'', hrender'⟩

/-! ### The same bundle -/

/-- No two pages of a bundle are written in a place. -/
def OwnPage (t : FileTree) (directory : Path) (docs : Docs) (options : RenderOptions)
    (place : Location) : Prop :=
  options.includeMarkdown = true → ∀ entry ∈ docs, ∀ other ∈ docs,
    LandsAt t directory entry.2 place → LandsAt t directory other.2 place → entry = other

theorem OwnPage.eq_of_mem {place : Location} (hown : OwnPage t directory docs options place)
    (h : Items docs options t directory root data pages index) :
    ∀ item ∈ pages, ∀ other ∈ pages, item.1 = place → other.1 = place → item = other := by
  have hpages := h.pages_land
  split at hpages
  · rename_i hwanted
    rintro item hitem other hother rfl heq
    obtain ⟨entry, hentry, hlands⟩ := exists_left_of_forall₂ hpages hitem
    obtain ⟨entry', hentry', hlands'⟩ := exists_left_of_forall₂ hpages hother
    obtain rfl := hown hwanted entry hentry entry' hentry' hlands.landsAt (heq ▸ hlands'.landsAt)
    obtain ⟨file, hfile, hland⟩ := hlands
    obtain ⟨file', hfile', hland'⟩ := hlands'
    obtain rfl := Except.ok.inj (hfile.symm.trans hfile')
    exact hland.unique hland'
  · rw [hpages]
    nofun

/-- A bundle of the same contracts in another order is written if the one is, and it is the same
bundle: the same files were written, the data first and the index last; the index is the same, and
so is what stands in every place in which no two pages were written. -/
theorem render_perm (hsound : t.Sound) (hdot : "." ∉ directory.parts) (htame : Tame t directory)
    (hdistinct : (Table.keys docs).Nodup) (hperm : docs.Perm docs') :
    ((∃ written t', render docs directory options t = (.ok written, t')) ↔
      ∃ written t', render docs' directory options t = (.ok written, t')) ∧
    ∀ written written' t' t'', render docs directory options t = (.ok written, t') →
      render docs' directory options t = (.ok written', t'') →
      written.Perm written' ∧ written.head? = written'.head? ∧
      (options.includeHtml = true → written.getLast? = written'.getLast? ∧
        ∀ place, t.resolve (directory.join (.ofString indexFile)) = .ok place →
          t'.at? place = t''.at? place) ∧
      ∀ place, OwnPage t directory docs options place → t'.at? place = t''.at? place := by
  have hdistinct' : (Table.keys docs').Nodup := ((hperm.map Prod.fst).nodup_iff).1 hdistinct
  refine ⟨⟨exists_render_of_perm hsound hdot htame hperm hdistinct,
    exists_render_of_perm hsound hdot htame hperm.symm hdistinct'⟩,
    fun written written' t' t'' hrender hrender' => ?_⟩
  obtain ⟨root, data, pages, index, t₁, hfits, rfl, hlaid⟩ :=
    exists_fits_of_render hsound.based hdot htame hrender
  obtain ⟨pages', hpages, hfits'⟩ := hfits.exists_perm hperm hdistinct
  obtain ⟨t₂, hsame, hlaid'⟩ := hfits'.exists_render
  obtain ⟨hwritten, rfl⟩ := Prod.mk.inj (hsame.symm.trans hrender')
  obtain rfl := Except.ok.inj hwritten
  have hall : (data :: pages ++ index).Perm (data :: pages' ++ index) :=
    (hpages.cons data).append_right index
  refine ⟨hall.map _, rfl, fun hwanted => ?_, fun place hown => ?_⟩
  · have hindex := hfits.items.index_lands
    rw [if_pos hwanted] at hindex
    obtain ⟨text, item, -, hlands, rfl⟩ := hindex
    refine ⟨by rw [List.map_append, List.map_append, List.map_singleton, List.getLast?_concat,
      List.getLast?_concat], fun place hplace => ?_⟩
    obtain rfl := Except.ok.inj (hlands.resolve.symm.trans hplace)
    rw [hlaid.at?_last (data :: pages) (by simp), hlaid'.at?_last (data :: pages') (by simp)]
  · -- Only the pages between the data and the index change their order.
    refine hlaid.at?_eq_of_perm hlaid' hall ?_
    have hmiddle := Table.get?_ofList_perm hpages (hown.eq_of_mem hfits.items)
    rw [Table.get?_ofList_append, Table.get?_ofList_append, Table.get?_ofList_cons,
      Table.get?_ofList_cons, hmiddle]

theorem not_landsAt_sharedDocs {place : Location}
    (hplace : place ∉ [["out", "contracts", "A.sol", "A.md"], ["out", "B.md"]]) :
    ∀ entry ∈ sharedDocs, ¬LandsAt begunBundle (.ofTop ["out"]) entry.2 place := by
  have hshared {doc : ContractDoc}
      (hpage : doc.pagePath = .ok ⟨.here, ["contracts", "A.sol", "A.md"]⟩) :
      LandsAt begunBundle (.ofTop ["out"]) doc ["out", "contracts", "A.sol", "A.md"] :=
    ⟨_, hpage, @FileTree.resolve_of_nameable _ ["out", "contracts", "A.sol", "A.md"] (by decide)
      (fun upper _ => not_link_begunBundle upper) (by decide)⟩
  have hclimbs : LandsAt begunBundle (.ofTop ["out"]) (emptyDoc ".." "B") ["out", "B.md"] :=
    ⟨⟨.here, ["contracts", "..", "B.md"]⟩, rfl, resolve_climbing⟩
  simp only [List.mem_cons, List.not_mem_nil, or_false, not_or] at hplace
  simp only [sharedDocs, List.forall_mem_cons, List.not_mem_nil, false_implies, implies_true,
    and_true]
  exact ⟨fun h => hplace.1 (h.unique (hshared rfl)), fun h => hplace.1 (h.unique (hshared rfl)),
    fun h => hplace.2 (h.unique hclimbs)⟩

/-- Contracts two of which share a page give the same data and the same index in another order. -/
theorem render_perm_sample : ∃ written t' written' t'',
    render sharedDocs (.ofTop ["out"]) {} begunBundle = (.ok written, t') ∧
    render sharedDocs.reverse (.ofTop ["out"]) {} begunBundle = (.ok written', t'') ∧
    written.Perm written' ∧ written.head? = written'.head? ∧ written.getLast? = written'.getLast? ∧
    t'.at? ["out", "docgen-data.json"] = t''.at? ["out", "docgen-data.json"] ∧
    t'.at? ["out", "index.html"] = t''.at? ["out", "index.html"] := by
  obtain ⟨t', hrender⟩ := render_sharedDocs
  obtain ⟨hexists, hsame⟩ := @render_perm sharedDocs sharedDocs.reverse begunBundle
    (.ofTop ["out"]) {} (by decide +kernel) (by decide)
    (fun _ _ => .inr fun place _ => not_link_begunBundle place) (by decide)
    (List.reverse_perm _).symm
  obtain ⟨written', t'', hrender'⟩ := hexists.1 ⟨_, _, hrender⟩
  obtain ⟨hwritten, hhead, hlast, hplaces⟩ := hsame _ _ _ _ hrender hrender'
  have hown (place : Location)
      (hplace : place ∉ [["out", "contracts", "A.sol", "A.md"], ["out", "B.md"]]) :
      OwnPage begunBundle (.ofTop ["out"]) sharedDocs {} place :=
    fun _ entry hentry _ _ hlands _ => absurd hlands (not_landsAt_sharedDocs hplace entry hentry)
  exact ⟨_, t', written', t'', hrender, hrender', hwritten, hhead, (hlast rfl).1,
    hplaces _ (hown _ (by decide)), hplaces _ (hown _ (by decide))⟩

/-- A directory for a bundle, and two links outside of it that lead to the file of its data. -/
def linkedPages : FileTree :=
  ⟨[], [(["out"], .directory), (["page"], .directory),
    (["page", "A.md"], .link "../out/docgen-data.json"),
    (["page", "B.md"], .link "../out/docgen-data.json")]⟩

theorem not_link_below_linkedPages (place : Location) (hplace : ["out"] <+: place)
    (target : String) : linkedPages.at? place ≠ some (.link target) :=
  FileTree.not_link_below (by decide) place hplace target

theorem room_linkedPages : linkedPages.Room ["out", "docgen-data.json"] :=
  ⟨by decide, FileTree.Founded.unblocked (by decide), .inl (by decide)⟩

theorem resolve_linkedPages : ∀ name ∈ ["A.md", "B.md"],
    linkedPages.resolve
        ((Path.ofTop ["out"]).join ⟨.here, ["contracts", "..", "..", "page", name]⟩) =
      .ok ["out", "docgen-data.json"] := by
  have hway (name : String) (hname : name ≠ "..")
      (hlink : linkedPages.at? ["page", name] = some (.link "../out/docgen-data.json")) :
      linkedPages.Leads 1 [] ["out", "contracts", "..", "..", "page", name]
        ["out", "docgen-data.json"] :=
    .step (by decide) nofun (.step (by decide) nofun (.up (.up (.step (by decide) nofun
      (.link hname hlink (.up (.step (by decide) nofun (.step (by decide) nofun .done)))
        .done)))))
  simp only [List.forall_mem_cons, List.not_mem_nil, false_implies, implies_true, and_true]
  exact ⟨(hway "A.md" (by decide) rfl).resolve_eq (by decide) room_linkedPages.plain (by decide),
    (hway "B.md" (by decide) rfl).resolve_eq (by decide) room_linkedPages.plain (by decide)⟩

/-- Through the links the last page takes the place of the data. -/
theorem exists_render_linkedPages (name name' : String) {page page' text text' : String}
    {doc doc' : ContractDoc} (hpage : page ∈ ["A.md", "B.md"]) (hpage' : page' ∈ ["A.md", "B.md"])
    (hpath : doc.pagePath = .ok ⟨.here, ["contracts", "..", "..", "page", page]⟩)
    (hpath' : doc'.pagePath = .ok ⟨.here, ["contracts", "..", "..", "page", page']⟩)
    (htext : Page.render doc = .ok text) (htext' : Page.render doc' = .ok text') :
    ∃ written t', render [(name, doc), (name', doc')] (.ofTop ["out"]) { includeHtml := false }
        linkedPages = (.ok written, t') ∧
      t'.at? ["out", "docgen-data.json"] = some (.file text'.toUTF8) := by
  obtain ⟨hopened, hmade⟩ := opened_of_directory (t := linkedPages) ["out"]
    (by decide +kernel) (by decide) (by decide) (by decide) (.inr not_link_below_linkedPages)
  obtain ⟨data, hdata⟩ : ∃ data, dataText [(name, doc), (name', doc')] (.int 2) = .ok data := by
    obtain ⟨layout, -, -, hdata⟩ := exists_dataText [(name, doc), (name', doc')] (.inr ⟨2, rfl⟩)
    exact ⟨_, hdata⟩
  have hroom := room_linkedPages
  have hdataPath : Path.ofString dataFile = ⟨.here, ["docgen-data.json"]⟩ := by decide
  have hlandsData : Lands linkedPages (.ofTop ["out"]) ["out"] (Path.ofString dataFile, data)
      (["out", "docgen-data.json"], .file data.toUTF8) := by
    rw [hdataPath]
    exact .of_plain (by decide) (by decide) hroom.plain data
  have hlands {page : String} (hpage : page ∈ ["A.md", "B.md"]) (text : String) :
      Lands linkedPages (.ofTop ["out"]) ["out"]
        (⟨.here, ["contracts", "..", "..", "page", page]⟩, text)
        (["out", "docgen-data.json"], .file text.toUTF8) := by
    refine .of_resolve ?_ (resolve_linkedPages page hpage) (by decide) text
    revert page
    decide
  have hitems : Items [(name, doc), (name', doc')] { includeHtml := false } linkedPages
      (.ofTop ["out"]) ["out"] (["out", "docgen-data.json"], .file data.toUTF8)
      [(["out", "docgen-data.json"], .file text.toUTF8),
        (["out", "docgen-data.json"], .file text'.toUTF8)] [] :=
    ⟨⟨data, hdata, hlandsData⟩, .cons ⟨_, pageFile_eq_ok_iff.2 ⟨hpath, htext⟩, hlands hpage text⟩
      (.cons ⟨_, pageFile_eq_ok_iff.2 ⟨hpath', htext'⟩, hlands hpage' text'⟩ .nil), rfl⟩
  have hfits := Fits.mk hopened hmade hopened hitems (by simp [hroom]) (by simp [Unnested])
  obtain ⟨t', hrender, hlaid⟩ := hfits.exists_render
  exact ⟨_, t', hrender, hlaid.at?_last [_, _] (by simp)⟩

/-- If two pages are written over the data then the order of the contracts decides what stands
there. -/
theorem render_perm_displaces_data :
    linkedPages.Sound ∧ (∀ place, ["out"] <+: place → ∀ target,
      linkedPages.at? place ≠ some (.link target)) ∧ ∃ written t' written' t'',
      render [("x:A", emptyDoc "../../page" "A"), ("x:B", emptyDoc "../../page" "B")] (.ofTop ["out"])
        { includeHtml := false } linkedPages = (.ok written, t') ∧
      render [("x:B", emptyDoc "../../page" "B"), ("x:A", emptyDoc "../../page" "A")] (.ofTop ["out"])
        { includeHtml := false } linkedPages = (.ok written', t'') ∧
      t'.at? ["out", "docgen-data.json"] ≠ t''.at? ["out", "docgen-data.json"] := by
  obtain ⟨text, text', htext, htext', hne⟩ : ∃ text text',
      Page.render (emptyDoc "../../page" "A") = .ok text ∧
      Page.render (emptyDoc "../../page" "B") = .ok text' ∧ text' ≠ text :=
    ⟨_, _, rfl, rfl, by decide +kernel⟩
  obtain ⟨written, t', hrender, hat⟩ := exists_render_linkedPages "x:A" "x:B"
    (by decide : "A.md" ∈ _) (by decide : "B.md" ∈ _) rfl rfl htext htext'
  obtain ⟨written', t'', hrender', hat'⟩ := exists_render_linkedPages "x:B" "x:A"
    (by decide : "B.md" ∈ _) (by decide : "A.md" ∈ _) rfl rfl htext' htext
  refine ⟨by decide +kernel, not_link_below_linkedPages, written, t', written', t'', hrender,
    hrender', ?_⟩
  rw [hat, hat']
  exact fun heq => hne (String.toByteArray_inj.1 (Entry.file.inj (Option.some.inj heq)))

end Bundle

end NatSpec
