import NatSpec.Store
import NatSpec.Proofs.Except
import NatSpec.Proofs.Table.Lookup

/-!
Documentation of the contracts of a store. One step adds or replaces the entry of one name, so a
run that succeeds has one entry for each name that it was given, however often, and each entry is
made of what the store gives for that name.
-/

namespace NatSpec.Store

variable {store : Store} {strict : Bool}

/-- An entry for each of the given names and for no other, all of them made of what the store
gives. -/
structure Documented (store : Store) (strict : Bool) (names : List String) (docs : Docs) :
    Prop where
  distinct : (Table.keys docs).Nodup
  mem_keys : ∀ name, name ∈ Table.keys docs ↔ name ∈ names
  made : ∀ name doc, Table.get? docs name = some doc →
    ∃ output, store.output name = .ok output ∧ resolveContract name output strict = .ok doc

theorem documented_nil : Documented store strict [] [] :=
  ⟨List.nodup_nil, fun _ => Iff.rfl, fun _ _ h => by cases h⟩

/-- What a step that succeeds adds. -/
theorem exists_document {docs next : Docs} {name : String}
    (h : store.document strict docs name = .ok next) :
    ∃ output doc, store.output name = .ok output ∧
      resolveContract name output strict = .ok doc ∧ next = docs.set name doc := by
  unfold document at h
  obtain ⟨output, houtput, h⟩ := bind_eq_ok_iff.1 h
  obtain ⟨doc, hdoc, h⟩ := bind_eq_ok_iff.1 h
  exact ⟨output, doc, houtput, hdoc, (Except.ok.inj h).symm⟩

theorem Documented.document {names : List String} {docs next : Docs} {name : String}
    (hdocs : Documented store strict names docs)
    (h : store.document strict docs name = .ok next) :
    Documented store strict (names ++ [name]) next := by
  obtain ⟨output, doc, houtput, hdoc, rfl⟩ := exists_document h
  refine ⟨Table.nodup_keys_set _ _ hdocs.distinct, ?_, ?_⟩
  · intro other
    rw [List.mem_append, List.mem_singleton, ← hdocs.mem_keys]
    by_cases hmem : name ∈ Table.keys docs
    · rw [Table.keys_set_of_mem _ hmem]
      constructor
      · exact Or.inl
      · rintro (hother | rfl)
        · exact hother
        · exact hmem
    · rw [Table.keys_set_of_not_mem _ hmem, List.mem_append, List.mem_singleton]
  · intro other found hfound
    rw [Table.get?_set] at hfound
    split at hfound
    · rename_i heq
      obtain rfl := eq_of_beq heq
      obtain rfl := Option.some.inj hfound
      exact ⟨output, houtput, hdoc⟩
    · exact hdocs.made other found hfound

theorem documented_of_resolve {names : List String} {docs : Docs}
    (h : store.resolve strict names = .ok docs) : Documented store strict names docs :=
  foldlM_keeps_behind (fun _ _ _ _ _ _ hdocs => hdocs.document) h documented_nil

/-- A name that is not smaller than those that are documented has its place at the end. -/
theorem increasing_set {docs : Docs} (hdocs : (Table.keys docs).Pairwise (· < ·)) {name : String}
    (hname : ∀ other ∈ Table.keys docs, other ≤ name) (doc : ContractDoc) :
    (Table.keys (docs.set name doc)).Pairwise (· < ·) := by
  by_cases hmem : name ∈ Table.keys docs
  · rwa [Table.keys_set_of_mem doc hmem]
  · rw [Table.keys_set_of_not_mem doc hmem]
    refine List.pairwise_append.2 ⟨hdocs, List.pairwise_singleton .., fun other hother n hn => ?_⟩
    rw [List.mem_singleton.1 hn]
    refine String.not_le.1 fun hle => hmem ?_
    rwa [String.le_antisymm hle (hname other hother)]

/-- Documentation of names in increasing order has its entries in increasing order. -/
theorem increasing_of_resolve {names : List String} {docs : Docs}
    (h : store.resolve strict names = .ok docs) (hnames : names.Pairwise (· ≤ ·)) :
    (Table.keys docs).Pairwise (· < ·) := by
  -- What is documented are names that stand in front of the one that comes next.
  refine And.right (foldlM_keeps_behind (I := fun done docs => Documented store strict done docs ∧
    (Table.keys docs).Pairwise (· < ·)) ?_ h ⟨documented_nil, .nil⟩)
  rintro done name rest rfl docs next ⟨hdocs, hkeys⟩ hnext
  refine ⟨hdocs.document hnext, ?_⟩
  obtain ⟨-, doc, -, -, rfl⟩ := exists_document hnext
  refine increasing_set hkeys (fun other hother => ?_) doc
  exact (List.pairwise_append.1 hnames).2.2 other ((hdocs.mem_keys other).1 hother) name
    List.mem_cons_self

/-- A store gives an output under the name, and the output can be resolved. -/
def Resolves (store : Store) (strict : Bool) (name : String) : Prop :=
  ∃ output doc, store.output name = .ok output ∧ resolveContract name output strict = .ok doc

theorem exists_document_iff (docs : Docs) (name : String) :
    (∃ next, store.document strict docs name = .ok next) ↔ store.Resolves strict name := by
  constructor
  · rintro ⟨next, h⟩
    obtain ⟨output, doc, houtput, hdoc, -⟩ := exists_document h
    exact ⟨output, doc, houtput, hdoc⟩
  · rintro ⟨output, doc, houtput, hdoc⟩
    exact ⟨docs.set name doc, by rw [document, houtput, ok_bind, hdoc, ok_bind]⟩

/-- If each of the names can be resolved then so can all of them. -/
theorem exists_resolve {names : List String}
    (h : ∀ name ∈ names, ∃ output doc, store.output name = .ok output ∧
      resolveContract name output strict = .ok doc) :
    ∃ docs, store.resolve strict names = .ok docs :=
  (exists_foldlM_eq_ok_iff exists_document_iff).2 h

/-- Why the contract of a name is not documented. -/
inductive Refuses (store : Store) (strict : Bool) (name : String) : Failure → Prop
  | fetching {f : Failure} : store.output name = .error f → Refuses store strict name f
  | resolving {output : Json} {f : Failure} : store.output name = .ok output →
      resolveContract name output strict = .error f → Refuses store strict name f

theorem document_eq_error_iff {docs : Docs} {name : String} {f : Failure} :
    store.document strict docs name = .error f ↔ store.Refuses strict name f := by
  rw [document, bind_eq_error_iff]
  constructor
  · rintro (hfetch | ⟨output, houtput, h⟩)
    · exact .fetching hfetch
    · rcases bind_eq_error_iff.1 h with hresolve | ⟨doc, -, ⟨⟩⟩
      exact .resolving houtput hresolve
  · rintro (hfetch | ⟨houtput, hresolve⟩)
    · exact .inl hfetch
    · exact .inr ⟨_, houtput, bind_eq_error_iff.2 (.inl hresolve)⟩

/-- A run over names fails as the first of them that is refused. -/
theorem resolve_eq_error_iff {names : List String} {f : Failure} :
    store.resolve strict names = .error f ↔
      ∃ done name rest, names = done ++ name :: rest ∧ (∀ n ∈ done, store.Resolves strict n) ∧
        store.Refuses strict name f :=
  foldlM_eq_error_iff exists_document_iff fun _ _ _ => document_eq_error_iff

theorem resolves_of_resolve {names : List String} {docs : Docs}
    (h : store.resolve strict names = .ok docs) {name : String} (hname : name ∈ names) :
    store.Resolves strict name :=
  (exists_foldlM_eq_ok_iff exists_document_iff).1 ⟨docs, h⟩ name hname

/-- Stores that give the same for each of the names document them in the same way. -/
theorem resolve_congr {store' : Store} {names : List String}
    (h : ∀ name ∈ names, store.output name = store'.output name) :
    store.resolve strict names = store'.resolve strict names := by
  -- From any documentation, since each step of the fold starts from another one.
  suffices hfold : ∀ docs, names.foldlM (store.document strict) docs =
      names.foldlM (store'.document strict) docs from hfold []
  induction names with
  | nil => exact fun _ => rfl
  | cons name names ih =>
      intro docs
      have hstep : store.document strict docs name = store'.document strict docs name := by
        rw [document, document, h name (List.mem_cons_self ..)]
      rw [List.foldlM_cons, List.foldlM_cons, hstep]
      exact bind_congr fun next =>
        ih (fun other hother => h other (List.mem_cons_of_mem _ hother)) next

end NatSpec.Store
