import NatSpec.Proofs.FileTree.Opened

/-!
The last component of a path. A path resolves to a place with the name that stands last in the path,
unless that name is a link in the place to which the components in front of it lead.
-/

namespace NatSpec

/-- What is behind the last separator stays behind it, whatever is put in front. -/
theorem Text.exists_splitOn_append {separator : Char} {suffix : List Char}
    (hsuffix : separator ∉ suffix) (text : List Char) :
    ∃ parts last, splitOn separator (text ++ suffix) = parts ++ [last ++ suffix] := by
  induction text with
  | nil =>
      refine ⟨[], [], ?_⟩
      rw [List.nil_append, splitOn_eq]
      exact List.splitOn_eq_singleton hsuffix
  | cons c text ih =>
      obtain ⟨parts, last, hrest⟩ := ih
      rw [List.cons_append, splitOn, hrest]
      split
      · exact ⟨[] :: parts, last, rfl⟩
      · cases parts with
        | nil => exact ⟨[], c :: last, rfl⟩
        | cons part parts => exact ⟨(c :: part) :: parts, last, rfl⟩

namespace Path

/-- A path that is written with some suffix ends in a component with that suffix. -/
theorem exists_ofString_append (text : String) {suffix : String} (hslash : '/' ∉ suffix.toList)
    (hlong : 1 < suffix.toList.length) :
    ∃ parts stem, (ofString (text ++ suffix)).parts = parts ++ [stem ++ suffix] := by
  obtain ⟨parts, last, hsplit⟩ := Text.exists_splitOn_append hslash text.toList
  have hkept (short : String) (hshort : short.toList.length < 2) :
      String.ofList (last ++ suffix.toList) ≠ short := by
    rintro rfl
    simp at hshort
    omega
  have hlast : String.ofList last ++ suffix = String.ofList (last ++ suffix.toList) := by simp
  refine ⟨(parts.map String.ofList).filter fun part => part ≠ "" ∧ part ≠ ".",
    String.ofList last, ?_⟩
  rw [ofString, components, String.toList_append, hsplit, List.map_append, List.filter_append,
    List.map_singleton, List.filter_singleton, hlast,
    decide_eq_true ⟨hkept "" (by decide), hkept "." (by decide)⟩, cond_true]

/-- Components behind others are resolved against what those are resolved to. -/
theorem normalize_append (base parts rest : List String) :
    normalize base (parts ++ rest) = normalize (normalize base parts) rest := by
  induction parts generalizing base with
  | nil => rfl
  | cons part parts ih =>
      rw [List.cons_append, normalize, normalize]
      split
      · exact ih _
      · exact ih _

end Path

namespace FileTree

variable {t : FileTree} {p : Path} {place root : Location} {init : List String} {name : String}

/-- Components behind others are followed from where those lead, if they lead to their end. -/
theorem follow_append (t : FileTree) (left : Nat) (met : Table Location (Option Location))
    (place : Location) (parts rest : List String) :
    t.follow left met place (parts ++ rest) =
      if (t.follow left met place parts).complete then
        t.follow left (t.follow left met place parts).met (t.follow left met place parts).place rest
      else
        ⟨false, (t.follow left met place parts).place ++ rest,
          (t.follow left met place parts).met⟩ := by
  -- The cases are those of a component: "..", a link that was met, one that leads somewhere, one that
  -- leads nowhere, one that is being followed, and no link.
  fun_induction follow t left met place parts with
  | case1 => rfl
  | case2 left met place parts ih =>
      rw [List.cons_append, follow, if_pos rfl]
      exact ih
  | case3 met place name parts hname next target hlink found left hfound ih =>
      rw [List.cons_append, follow_again hname hlink hfound]
      exact ih
  | case4 met place name parts hname next target hlink inside hnew inner hinner _ _ ih =>
      have hleads : inner = ⟨true, inner.place, inner.met⟩ := by rw [← hinner]
      rw [List.cons_append, follow_link hname hlink hnew hleads]
      exact ih
  | case5 met place name parts hname next target hlink inside hnew inner hinner =>
      subst next
      subst inner
      rw [List.cons_append, follow, if_neg hname]
      simp only [hlink, hnew]
      rw [if_neg hinner, if_neg Bool.false_ne_true, List.append_assoc]
  | case6 left met place name parts hname next target hlink hagain hnew =>
      subst next
      rw [List.cons_append, follow, if_neg hname]
      simp only [hlink]
      rw [if_neg Bool.false_ne_true, ← List.append_assoc]
  | case7 left met place name parts hname next hplain ih =>
      rw [List.cons_append, follow_step hname hplain]
      exact ih

/-- A last component stays last, unless it is a link where the components in front of it lead. -/
theorem normalize_follow_concat (left : Nat) (met : Table Location (Option Location))
    (parts : List String) (hname : name ≠ "..") :
    Path.normalize [] (t.follow left met place (parts ++ [name])).place =
        Path.normalize [] (t.follow left met place parts).place ++ [name] ∨
      (t.follow left met place parts).complete = true ∧ ∃ target,
        t.at? ((t.follow left met place parts).place ++ [name]) = some (.link target) := by
  have hlast (base : Location) : Path.normalize [] (base ++ [name]) =
      Path.normalize [] base ++ [name] := by
    rw [Path.normalize_append, Path.normalize, if_neg hname, Path.normalize]
  rw [follow_append]
  split
  · rename_i hcomplete
    by_cases hlink : ∃ target,
        t.at? ((t.follow left met place parts).place ++ [name]) = some (.link target)
    · exact .inr ⟨hcomplete, hlink⟩
    · rw [follow_step hname (not_exists.1 hlink), follow]
      exact .inl (hlast _)
  · exact .inl (hlast _)

/-- A path ends in a link: its last component is one in the place to which the path in front of it
resolves. -/
def EndsInLink (t : FileTree) (p : Path) : Prop :=
  ∃ upper target, t.resolve p.parent = .ok upper ∧ t.at? (upper ++ [p.name]) = some (.link target)

namespace Based

variable (hbased : t.Based) (hdot : "." ∉ p.parts)
include hbased hdot

/-- Components that lead to their end lead to a place without dots and without links on the way. -/
theorem reached (h : (t.follow t.linkCount [] (t.startOf p) p.parts).complete = true) :
    Dotless (t.follow t.linkCount [] (t.startOf p) p.parts).place ∧
      t.Plain (t.follow t.linkCount [] (t.startOf p) p.parts).place := by
  obtain ⟨⟨depth, hleads⟩, -⟩ := leads_of_follow .nil h
  have hnoDot : "." ∉ (t.follow t.linkCount [] (t.startOf p) p.parts).place :=
    (noDot_follow (hbased.dotless_startOf p).noDot hdot (by simp [NoDotIn, Table.get?])).1
  exact ⟨⟨hnoDot, hleads.noDots (hbased.dotless_startOf p).noDots⟩,
    hleads.plain (hbased.plain_startOf p)⟩

/-- A path resolves to where its components lead, if they lead to their end. -/
theorem resolve_of_complete (hnull : holdsNull p = false)
    (h : (t.follow t.linkCount [] (t.startOf p) p.parts).complete = true) :
    t.resolve p = .ok (t.follow t.linkCount [] (t.startOf p) p.parts).place := by
  obtain ⟨⟨depth, hleads⟩, -⟩ := leads_of_follow .nil h
  exact (hbased.resolve_of_leads hdot hnull hleads).1

/-- A path with one more component resolves to the place of that name in the place to which the path
resolves, unless that is a link. -/
theorem resolve_child (hroot : t.resolve p = .ok root) (hname : name ≠ "..")
    (hlink : ∀ target, t.at? (root ++ [name]) ≠ some (.link target))
    (h : t.resolve (p.join ⟨.here, [name]⟩) = .ok place) : place = root ++ [name] := by
  have hjoin : p.join ⟨.here, [name]⟩ = ⟨p.start, p.parts ++ [name]⟩ := rfl
  rw [hjoin] at h
  rw [resolve_eq_ok h, resolve_eq_ok hroot]
  rcases normalize_follow_concat t.linkCount [] p.parts hname with hlast | ⟨hcomplete, target, hat⟩
  · exact hlast
  · have hdots := (hbased.reached hdot hcomplete).1.noDots
    rw [resolve_eq_ok hroot, Path.normalize_of_noDots [] hdots, List.nil_append] at hlink
    exact absurd hat (hlink target)

/-- A path resolves to a place of its last name, unless it ends in a link. -/
theorem exists_of_resolve (hne : p.parts ≠ []) (hname : p.name ≠ "..") (h : t.resolve p = .ok place)
    (hlink : ¬t.EndsInLink p) : ∃ upper, place = upper ++ [p.name] := by
  have hparts : p.parts = p.parent.parts ++ [p.name] := by
    rw [Path.parent, Path.name, List.getLast?_eq_getLast_of_ne_nil hne, Option.getD_some,
      List.dropLast_append_getLast]
  have hnull : holdsNull p = false := by
    unfold resolve at h
    split at h
    · cases h
    · rename_i hnull
      exact Bool.eq_false_iff.2 hnull
  have hplace := resolve_eq_ok h
  rw [hparts] at hplace
  rcases normalize_follow_concat t.linkCount [] p.parent.parts hname with
    hlast | ⟨hcomplete, target, hat⟩
  · exact ⟨_, hplace.trans hlast⟩
  · have hup : p.parent.parts ⊆ p.parts := p.parts.dropLast_prefix.subset
    have hparent : holdsNull p.parent = false := by
      rw [holdsNull, List.any_eq_false] at hnull ⊢
      exact fun part hpart => hnull part (hup hpart)
    exact absurd ⟨_, target, hbased.resolve_of_complete (fun hmem => hdot (hup hmem)) hparent
      hcomplete, hat⟩ hlink

end Based

end FileTree

end NatSpec
