import NatSpec.Proofs.FileTree.Read
import NatSpec.Proofs.Json.Accepted
import NatSpec.Proofs.Json.Printed
import NatSpec.Proofs.Json.Writing

/-!
Values that can be read back: their names are texts and they are nested no deeper than a bound. What
is read is one of them, setting a field to one of them makes another one, and a file in which one is
written holds it.
-/

namespace NatSpec

namespace Json

variable {τ : Type} {n : Nat} {v w missing : Json τ} {vs : List (Json τ)} {fields : Fields τ}

/-- A value as it is read, with texts as names, that is nested no deeper than a bound. -/
structure Readable (n : Nat) (v : Json τ) : Prop where
  standard : v.Standard
  depth : v.depth ≤ n

theorem readable_arr_iff : Readable (n + 1) (.arr vs) ↔ ∀ v ∈ vs, Readable n v := by
  constructor
  · intro h v hv
    exact ⟨h.standard.items v hv, depth_arr_le_iff.1 h.depth v hv⟩
  · intro h
    exact ⟨.arr fun v hv => (h v hv).standard, depth_arr_le_iff.2 fun v hv => (h v hv).depth⟩

theorem readable_obj_iff : Readable (n + 1) (.obj fields) ↔
    TextNames (Table.keys fields) ∧ ∀ entry ∈ fields, Readable n entry.2 := by
  constructor
  · intro h
    exact ⟨h.standard.names, fun entry he => ⟨h.standard.entries entry he,
      depth_obj_le_iff.1 h.depth entry he⟩⟩
  · rintro ⟨hnames, hentries⟩
    exact ⟨.obj hnames fun entry he => (hentries entry he).standard,
      depth_obj_le_iff.2 fun entry he => (hentries entry he).depth⟩

theorem readable_empty : Readable (n + 1) (.obj [] : Json τ) :=
  readable_obj_iff.2 ⟨⟨[], List.nodup_nil, rfl⟩, by simp⟩

variable [DecidableEq τ]

theorem Readable.get? (h : Readable (n + 1) (.obj fields)) (hmissing : Readable n missing)
    (key : Key τ) : Readable n ((Table.get? fields key).getD missing) := by
  cases hkey : Table.get? fields key with
  | none => exact hmissing
  | some v =>
      obtain ⟨k, hmem⟩ := Table.exists_mem_of_get?_eq_some hkey
      exact (readable_obj_iff.1 h).2 _ hmem

theorem Readable.set (h : Readable (n + 1) (.obj fields)) (hv : Readable n v) (name : τ) :
    Readable (n + 1) (.obj (Table.set fields (.text name) v)) := by
  obtain ⟨hnames, hentries⟩ := readable_obj_iff.1 h
  have htexts : ∀ e ∈ fields, ∃ s, e.1 = .text s := by
    intro e he
    obtain ⟨names, -, hkeys⟩ := hnames
    have hmem : e.1 ∈ names.map Key.text := hkeys ▸ List.mem_map_of_mem he
    obtain ⟨s, -, hs⟩ := List.mem_map.1 hmem
    exact ⟨s, hs.symm⟩
  have hset := Table.forall_mem_set (P := fun k : Key τ => ∃ s, k = .text s)
    (fun e he => ⟨htexts e he, hentries e he⟩) ⟨name, rfl⟩ hv
  exact readable_obj_iff.2 ⟨textNames_of_distinct
    (List.forall_mem_map.2 fun e he => (hset e he).1)
    (Table.distinct_keys_set (.text name) v hnames.distinct), fun e he => (hset e he).2⟩

variable [IsText τ]

theorem readable_of_holds {content : ByteArray} (h : FileTree.Holds content v) :
    Readable Reader.maxNesting v := by
  obtain ⟨text, -, hread⟩ := h
  obtain ⟨hstandard, hdepth⟩ := standard_of_read hread
  exact ⟨hstandard, hdepth⟩

/-- What is written over several lines is read back. -/
theorem Readable.holds_write (h : Readable Reader.maxNesting v) (indent : Int) :
    FileTree.Holds (v.write (.spaces indent) ++ "\n").toUTF8 v := by
  have hvalid := h.standard.mono fun _ => TextNames.distinctTexts
  have hbehind : Blanks "\n".toList := by simp [Blanks, IsBlank]
  refine FileTree.holds_toUTF8 ?_
  rw [withLineFeeds_write (isPrinted_spaces indent) h.standard (by decide : AllPrinted "\n".toList),
    read_write (isPlain_spaces indent) hvalid hbehind, named_of_standard h.standard, if_pos h.depth]

end Json

end NatSpec
