import NatSpec.Proofs.Artifacts.Agreement
import NatSpec.Proofs.Artifacts.Reread

/-!
A directory beside the artifacts. Nothing that is documented comes from it: without it, the files from
which the contracts are documented are read as they are with it. In an artifact directory that holds
one build these files are its own, so every directory that is neither in it nor above it is beside it.
-/

namespace NatSpec.Artifacts

variable {t : FileTree} {directory output : Location} {b : Build}

/-- A directory without links, neither in the artifact directory nor above it, and without which all
that is documented can be read. -/
structure Beside (t : FileTree) (output directory : Location) : Prop where
  noLinks : ∀ place target, output <+: place → t.at? place ≠ some (.link target)
  below : ¬output <+: directory
  above : ¬directory <+: output
  sources : ∀ p text, Source t directory p → t.readText p = .ok text →
    (t.remove output).readText p = .ok text

theorem Beside.ne_nil (h : Beside t output directory) : output ≠ [] := by
  rintro rfl
  exact h.below List.nil_prefix

/-- Nothing in the artifact directory is in a directory beside it. -/
theorem not_prefix_append (hbelow : ¬output <+: directory) (habove : ¬directory <+: output)
    (relative : Location) : ¬output <+: directory ++ relative := by
  intro hprefix
  rcases List.prefix_or_prefix_of_prefix hprefix (List.prefix_append directory relative) with h | h
  · exact hbelow h
  · exact habove h

/-- No source is read from a path that starts at the working directory. -/
theorem Source.start_ne {p : Path} (h : Source t directory p) : p.start ≠ .here := by
  have hjoin {base other : Path} (hbase : base.start ≠ .here) : (base.join other).start ≠ .here := by
    unfold Path.join
    split
    · exact hbase
    · assumption
  cases h with
  | artifact => exact nofun
  | debug => exact hjoin (hjoin nofun)
  | document => exact nofun

theorem debugPath_eq {c : ContractName} (hc : c ∈ b.ids) :
    debugPath directory c = .ofTop (directory ++ debugPlace c) :=
  ofTop_div_debugPlace _ (Build.isSource_of_mem hc) (Build.isIdentifier_of_mem hc)

namespace Layout

variable (h : Layout t directory b)
include h

/-- What the artifacts name are the contracts of the build. -/
theorem mem_of_names {c : ContractName} (hc : Names t directory c) : c ∈ b.ids := by
  obtain ⟨relative, hmem, hcontract⟩ := hc
  rw [← h.candidates_eq] at hmem
  obtain ⟨c', hc', rfl⟩ := List.mem_map.1 (h.candidates_perm.subset hmem)
  obtain ⟨content, v, hat, hholds, hv⟩ := h.artifact c' hc'
  rw [contractAt?, h.readJson_eq hat hholds] at hcontract
  obtain rfl := Option.some.inj (hv.symm.trans hcontract)
  exact hc'

/-- The sources of the documentation are files of the directory. -/
theorem exists_of_source {p : Path} (hp : Source t directory p) :
    ∃ relative content, p = .ofTop (directory ++ relative) ∧
      t.at? (directory ++ relative) = some (.file content) := by
  have hsame {c id : ContractName} (hc : c ∈ b.ids)
      (hid : ContractName.parse c.qualified = .ok id) : c = id := by
    have hparse : ContractName.parse c.qualified = .ok c :=
      ContractName.parse_qualified (Build.isSource_of_mem hc).noColon
    exact Except.ok.inj (hparse.symm.trans hid)
  cases hp with
  | artifact hmem hcontract =>
      rw [mem_files h.sound, h.landing_eq] at hmem
      obtain ⟨⟨content, hat⟩, -, -⟩ := hmem
      exact ⟨_, content, rfl, hat⟩
  | debug hnames hid =>
      have hc := h.mem_of_names hnames
      obtain rfl := hsame hc hid
      obtain ⟨content, v, hat, -⟩ := h.debug _ hc
      exact ⟨_, content, debugPath_eq hc, hat⟩
  | document hrefers hplace =>
      obtain ⟨c, id, v, reference, path, hnames, hid, hread, hreference, hpath, rfl⟩ := hrefers
      have hc := h.mem_of_names hnames
      obtain rfl := hsame hc hid
      obtain ⟨content, w, hat, hholds, hw⟩ := h.debug c hc
      rw [debugPath_eq hc, h.readJson_eq hat hholds] at hread
      obtain rfl := Except.ok.inj hread
      obtain rfl := Option.some.inj (hw.symm.trans hreference)
      obtain rfl := Except.ok.inj ((referencePath_ofString _).symm.trans hpath)
      rw [debugPath_eq hc, parent_debugPlace, h.resolve_reference hc] at hplace
      obtain rfl := Except.ok.inj hplace
      obtain ⟨content, hdocument, -⟩ := h.document
      exact ⟨_, content, rfl, hdocument⟩

/-- Every directory without links that is neither in the artifact directory nor above it is beside
it. -/
theorem beside (hlinks : ∀ place target, output <+: place → t.at? place ≠ some (.link target))
    (hbelow : ¬output <+: directory) (habove : ¬directory <+: output) :
    Beside t output directory := by
  refine ⟨hlinks, hbelow, habove, fun p text hp hread => ?_⟩
  obtain ⟨relative, content, rfl, hat⟩ := h.exists_of_source hp
  have hne : output ≠ [] := by
    rintro rfl
    exact hbelow List.nil_prefix
  have hat' : (t.remove output).at? (directory ++ relative) = some (.file content) := by
    rw [FileTree.at?_remove hne, if_neg (not_prefix_append hbelow habove relative), hat]
  exact FileTree.readText_of_at? h.sound (h.sound.tidy.remove output) hat hat' hread

end Layout

end NatSpec.Artifacts
