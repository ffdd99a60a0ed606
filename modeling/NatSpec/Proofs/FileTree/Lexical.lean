import NatSpec.Proofs.FileTree.NullFree

/-!
Paths without links along them. Such a path resolves to the place that is written in it, where each
double dot cancels the component before it, whatever stands on the way there. A place that is
written out as a path is read as that place again.
-/

namespace NatSpec

namespace Path

/-- Names that can stand between the slashes of a path. -/
def Proper (parts : List String) : Prop :=
  ∀ part ∈ parts, '/' ∉ part.toList ∧ part ≠ "" ∧ part ≠ "."

theorem Proper.append {parts others : List String} (h : Proper parts) (hothers : Proper others) :
    Proper (parts ++ others) :=
  List.forall_mem_append.2 ⟨h, hothers⟩

theorem proper_components (text : List Char) : Proper (components text) := by
  intro part hpart
  obtain ⟨hmap, hkept⟩ := List.mem_filter.1 hpart
  obtain ⟨chars, hchars, rfl⟩ := List.mem_map.1 hmap
  refine ⟨fun hslash => ?_, of_decide_eq_true hkept⟩
  rw [String.toList_ofList] at hslash
  exact (Text.exists_mem_splitOn_iff.1 ⟨chars, hchars, hslash⟩).2 rfl

theorem Proper.div {base : Path} (hbase : Proper base.parts) (text : String) :
    Proper (base / text).parts := by
  rw [div_eq, join]
  split
  · exact hbase.append (proper_components text.toList)
  · exact proper_components text.toList

theorem components_cons_slash (text : List Char) : components ('/' :: text) = components text := by
  rw [components, Text.splitOn, if_pos rfl, List.map_cons, List.filter_cons_of_neg (by decide),
    components]

theorem startOf_cons_slash {text : List Char} (h : startOf text = .here) :
    startOf ('/' :: text) = .top := by
  unfold startOf at h ⊢
  split at h <;> simp_all

/-- A place that is written out is read as that place. -/
theorem ofString_toString_ofTop {place : List String} (h : Proper place) :
    ofString (ofTop place).toString = ofTop place := by
  have htext : (ofTop place).toString.toList = '/' :: ("/".intercalate place).toList := by
    simp [toString, ofTop, Start.text]
  by_cases hne : place = []
  · subst hne
    decide
  · have hread := ofString_intercalate hne h
    rw [ofString, Path.mk.injEq] at hread
    rw [ofString, htext, components_cons_slash, startOf_cons_slash hread.1, hread.2, ofTop]

end Path

namespace FileTree

variable {t : FileTree} {p : Path} {place : Location} {parts : List String}

/-- No link stands along a path as it is written. -/
def Unlinked (t : FileTree) (p : Path) : Prop :=
  ∀ upper, upper <+: p.parts → ∀ target,
    t.at? (t.plainLocation ⟨p.start, upper⟩) ≠ some (.link target)

theorem unlinked_iff : t.Unlinked p ↔ ∀ upper ∈ p.parts.inits,
    ¬(t.at? (t.plainLocation ⟨p.start, upper⟩) matches some (.link _)) := by
  refine forall_congr' fun upper => imp_congr (List.mem_inits _ _).symm ?_
  constructor
  · intro h hlink
    split at hlink
    · rename_i target hat
      exact h target hat
    · cases hlink
  · intro h target hat
    rw [hat] at h
    exact h rfl

instance : Decidable (t.Unlinked p) :=
  decidable_of_iff _ unlinked_iff.symm

/-- Components lead to the place that is written in them, if no link is met on the way. -/
theorem leads_normalize (h : ∀ upper, upper <+: parts → ∀ target,
      t.at? (Path.normalize place upper) ≠ some (.link target)) :
    t.Leads 0 place parts (Path.normalize place parts) := by
  -- From any place: what is met behind the first component is met with that component in front.
  induction parts generalizing place with
  | nil => exact .done
  | cons name rest ih =>
      rw [Path.normalize]
      split
      · rename_i hname
        subst hname
        refine .up (ih fun upper hupper target => ?_)
        have hat := h (".." :: upper) (List.cons_prefix_cons.2 ⟨rfl, hupper⟩) target
        rwa [Path.normalize, if_pos rfl] at hat
      · rename_i hname
        have hnext (upper : List String) (hupper : upper <+: rest) (target : String) :
            t.at? (Path.normalize (place ++ [name]) upper) ≠ some (.link target) := by
          have hat := h (name :: upper) (List.cons_prefix_cons.2 ⟨rfl, hupper⟩) target
          rwa [Path.normalize, if_neg hname] at hat
        exact .step hname (hnext [] List.nil_prefix) (ih hnext)

theorem Unlinked.leads (h : t.Unlinked p) : t.Leads 0 (t.startOf p) p.parts (t.plainLocation p) :=
  leads_normalize h

/-- A place whose path, when it is written out, is read as it is and leads there without links. -/
structure Written (t : FileTree) (place : Location) : Prop where
  plain : t.Plain place
  noDots : ".." ∉ place
  proper : Path.Proper place
  nullFree : NullFree place

theorem Unlinked.written (h : t.Unlinked p) (hsound : t.Sound) (hproper : Path.Proper p.parts)
    (hnull : NullFree p.parts) : t.Written (t.plainLocation p) where
  plain := h.leads.plain (hsound.based.plain_startOf p)
  noDots := Path.noDots_normalize (hsound.based.dotless_startOf p).noDots p.parts
  proper := by
    intro part hpart
    rcases Path.mem_normalize hpart with hstart | hpart
    · have hname := hsound.isName_of_mem (hsound.based.directory_startOf p) hstart
      exact ⟨hname.noSlash, hname.nonempty, hname.ne_dot⟩
    · exact hproper part hpart
  nullFree := by
    intro part hpart
    rcases Path.mem_normalize hpart with hstart | hpart
    · exact hsound.nullFree_startOf p part hstart
    · exact hnull part hpart

/-- A path resolves to the place that is written in it. -/
theorem Unlinked.resolve (h : t.Unlinked p) (hbased : t.Based) (hdot : "." ∉ p.parts)
    (hnull : NullFree p.parts) : t.resolve p = .ok (t.plainLocation p) :=
  (hbased.resolve_of_leads hdot (holdsNull_eq_false_iff.2 hnull) h.leads).1

/-- A place that is written out is found again, from wherever its path is taken. -/
theorem Written.resolve (h : t.Written place) (hbased : t.Based) (base : Path) :
    t.resolve (base / (Path.ofTop place).toString) = .ok place := by
  have hjoin : base / (Path.ofTop place).toString = .ofTop place := by
    rw [Path.div_eq, Path.ofString_toString_ofTop h.proper]
    rfl
  have hleads : t.Leads 0 [] place place := leads_of_plain h.plain h.noDots
  rw [hjoin]
  exact (hbased.resolve_of_leads (fun hdot => (h.proper _ hdot).2.2 rfl)
    (holdsNull_eq_false_iff.2 h.nullFree) hleads).1

/-- A path may be taken from the place that is written in another one instead of from that one. -/
theorem Unlinked.leads_div {text : String} (h : t.Unlinked (p / text))
    (hp : t.Written (t.plainLocation p)) :
    t.Leads 0 (t.startOf (Path.ofTop (t.plainLocation p) / text))
      (Path.ofTop (t.plainLocation p) / text).parts (t.plainLocation (p / text)) := by
  simp only [Path.div_eq] at h ⊢
  by_cases hstart : (Path.ofString text).start = .here
  · have hjoin (base : Path) : base.join (.ofString text) =
        ⟨base.start, base.parts ++ (Path.ofString text).parts⟩ := if_pos hstart
    have hplace : t.plainLocation (p.join (.ofString text)) =
        Path.normalize (t.plainLocation p) (Path.ofString text).parts := by
      rw [hjoin]
      exact Path.normalize_append ..
    have hfirst : t.Leads 0 [] (t.plainLocation p) (t.plainLocation p) :=
      leads_of_plain hp.plain hp.noDots
    rw [hplace, hjoin]
    refine hfirst.append (leads_normalize fun upper hupper target => ?_)
    rw [hjoin] at h
    have hat := h (p.parts ++ upper) ((List.prefix_append_right_inj _).2 hupper) target
    rwa [plainLocation, Path.normalize_append] at hat
  · have hjoin (base : Path) : base.join (.ofString text) = .ofString text := if_neg hstart
    rw [hjoin] at h ⊢
    rw [hjoin]
    exact h.leads

theorem resolve_of_null (h : ¬NullFree p.parts) : t.resolve p = .error .badValue := by
  have hholds : holdsNull p = true := by
    rw [← Bool.not_eq_false, holdsNull_eq_false_iff]
    exact h
  rw [resolve, if_pos hholds]

end FileTree

end NatSpec
