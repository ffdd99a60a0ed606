import NatSpec.Bundle.Page
import NatSpec.Proofs.Contract.Groups

/-!
Special functions of a contract that was resolved. They are found by their keys and grouped, like
all members, by their kinds, so one may be among the ordinary members as well. The main statement is
when it is, what its page shows it under, and what the number of members counts.
-/

namespace NatSpec

/-! ### Signatures and depths -/

namespace Abi

theorem depthOfAll_le_iff {params : List Json} {limit : Nat} :
    depthOfAll params ≤ limit ↔ ∀ p ∈ params, depthOf p ≤ limit := by
  induction params with
  | nil => simp [depthOfAll]
  | cons p params ih => rw [depthOfAll, Nat.max_le, ih, List.forall_mem_cons]

/-- In an ABI that is not nested too deep no entry is. -/
theorem checkDepth_inputsOf {abi : Json} {entries : List Json} (h : checkEntries abi = .ok ())
    (helements : abi.elements? = some entries) {entry : Json} (hentry : entry ∈ entries) :
    checkDepth (inputsOf entry) = .ok () := by
  rw [checkEntries_eq_ok_iff, helements, Option.getD_some, depthOfAll_le_iff] at h
  rw [checkDepth, if_neg (Nat.not_lt.2 (depthOfAll_le_iff.2 fun p hp => ?_))]
  exact h p (List.mem_flatMap.2 ⟨entry, hentry, hp⟩)

/-- A signature is made of three fields. -/
theorem signature_congr {member other : Fields}
    (htype : Json.field member "type" = Json.field other "type")
    (hname : Json.field member "name" = Json.field other "name")
    (hinputs : Json.field member "inputs" = Json.field other "inputs") :
    signature member = signature other := by
  rw [signature, signature, inputTypes, inputTypes, nameOf, nameOf, kindOf_congr htype, hname,
    hinputs]

end Abi

/-! ### Texts of a page -/

theorem exists_around_of_mem (separator : String) {parts : List String} {part : String}
    (h : part ∈ parts) :
    ∃ before after, separator.intercalate parts = before ++ part ++ after := by
  induction parts with
  | nil => cases h
  | cons first rest ih =>
      cases rest with
      | nil =>
          obtain rfl := List.mem_singleton.1 h
          exact ⟨"", "", by simp⟩
      | cons next rest =>
          rw [String.intercalate_cons_cons]
          rcases List.mem_cons.1 h with rfl | hrest
          · exact ⟨"", separator ++ separator.intercalate (next :: rest), by
              rw [String.empty_append, String.append_assoc]⟩
          · obtain ⟨before, after, hsame⟩ := ih hrest
            exact ⟨first ++ separator ++ before, after, by simp only [hsame, String.append_assoc]⟩

theorem isAllBlank_heading (text : String) : Text.isAllBlank ("## " ++ text) = false := by
  have hmark : Text.isBlank '#' = false := by decide
  have hlist : ("## " ++ text).toList = '#' :: '#' :: ' ' :: text.toList := by
    rw [String.toList_append]
    rfl
  rw [Text.isAllBlank, hlist, List.all_cons, hmark, Bool.false_and]

/-! ### Special functions -/

/-- The functions with places of their own in the documentation of a contract. -/
inductive Special
  | constructor
  | fallback
  | receive
  deriving DecidableEq

namespace Special

def all : List Special := [.constructor, .fallback, .receive]

theorem mem_all (special : Special) : special ∈ all := by
  cases special <;> simp [all]

/-- The kind of the entry of an ABI for a special function. -/
def kind : Special → String
  | .constructor => "constructor"
  | .fallback => "fallback"
  | .receive => "receive"

/-- The heading of the section of a special function. -/
def heading : Special → String
  | .constructor => "Constructor"
  | .fallback => "Fallback"
  | .receive => "Receive"

def isKey : Special → String → Bool
  | .constructor => fun key => Text.startsWith key Members.constructorStart
  | .fallback => fun key => key == "fallback()"
  | .receive => fun key => key == "receive()"

/-- The first key of a special function among members. -/
def key? (special : Special) (members : Members) : Option String :=
  members.keys.find? special.isKey

/-- What the documentation of a contract shows in the place of a special function. -/
def record (special : Special) (doc : ContractDoc) : Json :=
  match special with
  | .constructor => doc.constructor
  | .fallback => doc.fallback
  | .receive => doc.receive

theorem kind_not_mem_ordinaryKinds (special : Special) :
    special.kind ∉ ContractDoc.ordinaryKinds := by
  cases special <;> decide

/-- A key is that of one special function only. -/
theorem eq_of_isKey {special other : Special} {key : String} (h : special.isKey key = true)
    (hother : other.isKey key = true) : special = other := by
  have hfallback : Text.startsWith "fallback()" Members.constructorStart = false := by decide
  have hreceive : Text.startsWith "receive()" Members.constructorStart = false := by decide
  have hdifferent : "fallback()" ≠ "receive()" := by decide
  cases special <;> cases other <;> simp_all [isKey]

theorem mem_keys_of_key? {special : Special} {members : Members} {key : String}
    (h : special.key? members = some key) : key ∈ members.keys :=
  List.mem_of_find?_eq_some h

theorem get?_of_isKey (members : Members) (key : String) :
    ((members.keys.find? fun other => other == key).bind members.get?) = members.get? key := by
  cases hkey : members.keys.find? fun other => other == key with
  | none =>
      refine (Table.get?_eq_none_iff.2 fun hmem => ?_).symm
      exact List.find?_eq_none.1 hkey key hmem BEq.rfl
  | some other =>
      have hsame := List.find?_some hkey
      obtain rfl := eq_of_beq hsame
      rfl

theorem mem_sections (special : Special) {doc : ContractDoc} {shown : List String} {text : String}
    (hsections : Page.sections doc = .ok shown)
    (htext : Page.specialSection special.heading (special.record doc) = .ok text) :
    text ∈ shown := by
  unfold Page.sections at hsections
  obtain ⟨overview, -, hsections⟩ := bind_eq_ok_iff.1 hsections
  obtain ⟨constructor, hconstructor, hsections⟩ := bind_eq_ok_iff.1 hsections
  obtain ⟨fallback, hfallback, hsections⟩ := bind_eq_ok_iff.1 hsections
  obtain ⟨receive, hreceive, hsections⟩ := bind_eq_ok_iff.1 hsections
  obtain ⟨methods, -, hsections⟩ := bind_eq_ok_iff.1 hsections
  obtain ⟨events, -, hsections⟩ := bind_eq_ok_iff.1 hsections
  obtain ⟨stateVariables, -, hsections⟩ := bind_eq_ok_iff.1 hsections
  obtain rfl := Except.ok.inj hsections
  cases special with
  | constructor => simp [Except.ok.inj (htext.symm.trans hconstructor)]
  | fallback => simp [Except.ok.inj (htext.symm.trans hfallback)]
  | receive => simp [Except.ok.inj (htext.symm.trans hreceive)]

/-- The section of a special function is part of the page, unless there is nothing to show. -/
theorem exists_around_section (special : Special) {doc : ContractDoc} {page text : String}
    (hpage : Page.render doc = .ok page)
    (htext : Page.specialSection special.heading (special.record doc) = .ok text)
    (hshown : Text.isAllBlank text = false) : ∃ before after, page = before ++ text ++ after := by
  unfold Page.render at hpage
  obtain ⟨sections, hsections, hpage⟩ := bind_eq_ok_iff.1 hpage
  obtain rfl := Except.ok.inj hpage
  refine exists_around_of_mem "\n" (List.mem_filter.2 ⟨special.mem_sections hsections htext, ?_⟩)
  rw [hshown]
  rfl

end Special

/-- The keys of the special functions among members. -/
def Members.specialKeys (members : Members) : List String :=
  Special.all.filterMap fun special => special.key? members

theorem Members.mem_specialKeys_iff {members : Members} {key : String} :
    key ∈ members.specialKeys ↔ ∃ special : Special, special.key? members = some key := by
  rw [specialKeys, List.mem_filterMap]
  exact exists_congr fun special => and_iff_right special.mem_all

theorem Members.nodup_specialKeys (members : Members) : members.specialKeys.Nodup := by
  refine List.Nodup.filterMap (fun special other key h hother => ?_) (by decide)
  exact Special.eq_of_isKey (List.find?_some h) (List.find?_some hother)

namespace Resolution

variable {contract : String} {fields : Fields} {strict : Bool} {doc : ContractDoc}

/-- A special function shows the record under its key, null if it has none. -/
theorem special_eq (r : Resolution contract fields strict doc) (special : Special) :
    special.record doc = ((special.key? r.members).bind r.members.get?).getD .null := by
  obtain ⟨devdoc, userdoc, -, hdoc⟩ := ContractDoc.exists_of_ofMembers r.assembled
  refine (congrArg special.record hdoc).trans ?_
  cases special with
  | constructor =>
      change r.members.constructorRecord = ((r.members.constructorSignature?).bind _).getD _
      rw [Members.constructorRecord]
      cases r.members.constructorSignature? <;> rfl
  | fallback => exact congrArg (Option.getD · .null) (Special.get?_of_isKey r.members _).symm
  | receive => exact congrArg (Option.getD · .null) (Special.get?_of_isKey r.members _).symm

theorem special_of_key? (r : Resolution contract fields strict doc) {special : Special}
    {key : String} (hkey : special.key? r.members = some key) : ∃ base,
      (r.index.members.get? key).getD (.obj []) = .obj base ∧
      r.members.get? key = some (.obj (Table.overlay base (r.laid key))) ∧
      special.record doc = .obj (Table.overlay base (r.laid key)) := by
  obtain ⟨base, hbase, hrecord⟩ := r.exists_record (Special.mem_keys_of_key? hkey)
  refine ⟨base, hbase, hrecord, ?_⟩
  rw [r.special_eq, hkey, Option.bind_some, hrecord, Option.getD_some]

theorem isNull_special (r : Resolution contract fields strict doc) (special : Special) :
    (special.record doc).isNull = !(special.key? r.members).isSome := by
  cases hkey : special.key? r.members with
  | none =>
      rw [r.special_eq, hkey]
      rfl
  | some key =>
      obtain ⟨base, -, -, hshown⟩ := r.special_of_key? hkey
      rw [hshown]
      rfl

/-- If no note sets the kind of a record, it is that of an entry of the ABI under the same key. -/
theorem base_of_not_sets (r : Resolution contract fields strict doc) {key : String}
    (hkey : key ∈ r.members.keys) (htype : ¬Members.Sets (r.laid key) "type") {base : Fields}
    (hbase : (r.index.members.get? key).getD (.obj []) = .obj base) :
    Abi.signature base = .ok key ∧ Abi.checkDepth (Abi.inputsOf (.obj base)) = .ok () := by
  obtain ⟨entries, helements, hentries⟩ := Abi.indexEntries_of_index r.indexed
  cases hget : r.index.members.get? key with
  | some entry =>
      rw [hget, Option.getD_some] at hbase
      obtain ⟨hmem, hs⟩ := Abi.of_get?_index hentries (hbase ▸ hget)
      exact ⟨hs, Abi.checkDepth_inputsOf r.shallow helements hmem⟩
  | none =>
      -- The record of a state variable is given its kind.
      obtain ⟨note, hnote, rfl⟩ := r.exists_variable hkey (Table.get?_eq_none_iff.1 hget)
      obtain ⟨earlier, hearlier⟩ := Members.exists_variableFields hnote
      refine absurd ⟨(.text "type", .str Members.stateVariableKind), ?_, BEq.rfl⟩ htype
      rw [r.laid_eq, hearlier]
      simp

/-- A record that no note gives another kind, name or inputs is shown under its key. -/
theorem specialSection_eq (r : Resolution contract fields strict doc) {key : String}
    (hkey : key ∈ r.members.keys) {base : Fields}
    (hbase : (r.index.members.get? key).getD (.obj []) = .obj base)
    (htype : ¬Members.Sets (r.laid key) "type") (hname : ¬Members.Sets (r.laid key) "name")
    (hinputs : ¬Members.Sets (r.laid key) "inputs") (heading : String) :
    Page.specialSection heading (.obj (Table.overlay base (r.laid key))) =
      .ok ("## " ++ heading ++ "\n\n" ++ Page.member key (Table.overlay base (r.laid key))) := by
  obtain ⟨hsignature, hdepth⟩ := r.base_of_not_sets hkey htype hbase
  have hinputsOf : Abi.inputsOf (.obj (Table.overlay base (r.laid key))) =
      Abi.inputsOf (.obj base) := by
    rw [Abi.inputsOf, Abi.inputsOf, Members.field_overlay_of_not_sets hinputs]
  have hsame : Abi.signature (Table.overlay base (r.laid key)) = .ok key := by
    rw [← hsignature]
    exact Abi.signature_congr (Members.field_overlay_of_not_sets htype base)
      (Members.field_overlay_of_not_sets hname base)
      (Members.field_overlay_of_not_sets hinputs base)
  have hpresent : (Json.obj (Table.overlay base (r.laid key))).isNull = false := rfl
  rw [Page.specialSection, hpresent, if_neg Bool.false_ne_true, Abi.fieldsOf, ok_bind, hinputsOf,
    hdepth, ok_bind, hsame, ok_bind]

/-! ### The number of members -/

theorem groupSize_ofKind {members : Members} {groups : Groups} (h : members.Grouped groups)
    (kind : String) :
    ContractDoc.groupSize (groups.ofKind kind) = .ok (members.ofKind kind).length := by
  rw [h.ofKind_eq]
  split
  · rename_i hnone
    rw [hnone]
    rfl
  · rename_i hsome
    have htruthy : (members.ofKind kind).toJson.truthy = true := by
      simpa [Members.toJson, Json.truthy] using hsome
    rw [ContractDoc.groupSize, if_pos htruthy]
    simp [Members.toJson, Json.elements?]

/-- What is counted are the special functions and the members of the three groups. -/
theorem memberCount_eq (r : Resolution contract fields strict doc) :
    doc.memberCount =
      .ok (r.members.specialKeys.map Json.Key.text ++ doc.ordinaryKeys).length := by
  have hspecials : [doc.constructor, doc.fallback, doc.receive].countP (fun v => !v.isNull) =
      r.members.specialKeys.length := by
    rw [Members.specialKeys, List.length_filterMap_eq_countP]
    have hall : [doc.constructor, doc.fallback, doc.receive] =
        Special.all.map fun special => special.record doc := rfl
    rw [hall, List.countP_map]
    refine List.countP_congr fun special _ => ?_
    simp [r.isNull_special]
  rw [ContractDoc.memberCount, hspecials, r.methods_eq, r.events_eq, r.stateVariables_eq,
    r.ordinaryKeys_eq]
  simp only [groupSize_ofKind r.groupedByKind, ok_bind]
  simp [ContractDoc.ordinaryKinds, Table.keys]
  omega

theorem nodup_ordinaryKeys (r : Resolution contract fields strict doc) :
    doc.ordinaryKeys.Nodup := by
  rw [r.ordinaryKeys_eq, List.nodup_flatMap]
  refine ⟨fun kind _ => (Members.nodup_keys_ofKind r.merged.nodup_keys _).map
    Json.Key.text_injective, ?_⟩
  have hkinds : ContractDoc.ordinaryKinds.Nodup := by decide
  refine hkinds.imp fun {kind other} hne => ?_
  -- A key in two groups would have a record of two kinds.
  intro key hkey hother
  obtain ⟨name, hname, rfl⟩ := List.mem_map.1 hkey
  rw [List.mem_map_of_injective Json.Key.text_injective] at hother
  obtain ⟨base, -, hget⟩ := r.exists_record (Members.mem_keys_ofKind hname)
  rw [Members.mem_keys_ofKind_iff r.merged.nodup_keys hget, Members.isKind_text_iff] at hname hother
  exact hne (Json.str.inj (hname.symm.trans hother))

theorem mem_counted (r : Resolution contract fields strict doc) {key : Json.Key}
    (hkey : key ∈ r.members.specialKeys.map Json.Key.text ++ doc.ordinaryKeys) :
    key ∈ r.members.keys.map Json.Key.text := by
  rcases List.mem_append.1 hkey with hkey | hkey
  · obtain ⟨name, hname, rfl⟩ := List.mem_map.1 hkey
    obtain ⟨special, hspecial⟩ := Members.mem_specialKeys_iff.1 hname
    exact List.mem_map_of_mem (Special.mem_keys_of_key? hspecial)
  · rw [r.ordinaryKeys_eq] at hkey
    obtain ⟨kind, -, hkey⟩ := List.mem_flatMap.1 hkey
    obtain ⟨name, hname, rfl⟩ := List.mem_map.1 hkey
    exact List.mem_map_of_mem (Members.mem_keys_ofKind hname)

/-- No key is counted twice just when no special function is an ordinary member. -/
theorem nodup_counted_iff (r : Resolution contract fields strict doc) :
    (r.members.specialKeys.map Json.Key.text ++ doc.ordinaryKeys).Nodup ↔
      ∀ key ∈ r.members.specialKeys, .text key ∉ doc.ordinaryKeys := by
  have hspecials : (r.members.specialKeys.map Json.Key.text).Nodup :=
    r.members.nodup_specialKeys.map Json.Key.text_injective
  rw [List.nodup_append]
  constructor
  · rintro ⟨-, -, hdisjoint⟩ key hkey hordinary
    exact hdisjoint _ (List.mem_map_of_mem hkey) _ hordinary rfl
  · intro hnone
    refine ⟨hspecials, r.nodup_ordinaryKeys, ?_⟩
    rintro _ hkey _ hordinary rfl
    obtain ⟨key, hspecial, rfl⟩ := List.mem_map.1 hkey
    exact hnone key hspecial hordinary

end Resolution

/-- In the documentation of every contract that is resolved the places of special functions are
filled by key: with the first that starts like a constructor, and with those of a fallback and of a
receive function. The record there is the entry of the ABI under the key with all notes laid over it.
It is also an ordinary member just when its kind is that of one of the three groups. If the entry has
the kind of the special function and no note sets another one, the record has that kind and is not an
ordinary member; and if no note sets its name or its inputs either, the page shows it under its key.
The number of members counts the keys of special functions and of ordinary members, all of them keys
of the merged members; none of them twice just when no special function is an ordinary member, and
then not more than there are members. -/
theorem specials_of_resolveContract {contract : String} {output : Json} {strict : Bool}
    {doc : ContractDoc} (h : resolveContract contract output strict = .ok doc) :
    ∃ fields, output = .obj fields ∧ ∃ r : Resolution contract fields strict doc,
      (∀ special : Special, special.key? r.members = none → special.record doc = .null) ∧
      (∀ (special : Special) key, special.key? r.members = some key → ∃ base record,
        (r.index.members.get? key).getD (.obj []) = .obj base ∧
        record = Table.overlay base (r.laid key) ∧
        r.members.get? key = some (.obj record) ∧ special.record doc = .obj record ∧
        (.text key ∈ doc.ordinaryKeys ↔
          ∃ kind ∈ ContractDoc.ordinaryKinds, Abi.kindOf record = .str kind) ∧
        (¬Members.Sets (r.laid key) "type" →
          (Abi.kindOf base = .str special.kind →
            Abi.kindOf record = .str special.kind ∧ .text key ∉ doc.ordinaryKeys) ∧
          (¬Members.Sets (r.laid key) "name" → ¬Members.Sets (r.laid key) "inputs" →
            ∀ page, Page.render doc = .ok page → ∃ before after, page =
              before ++ ("## " ++ special.heading ++ "\n\n" ++ Page.member key record) ++ after))) ∧
      ∃ counted, counted = r.members.specialKeys.map Json.Key.text ++ doc.ordinaryKeys ∧
        doc.memberCount = .ok counted.length ∧
        (∀ key ∈ counted, key ∈ r.members.keys.map Json.Key.text) ∧
        (counted.Nodup ↔ ∀ key ∈ r.members.specialKeys, .text key ∉ doc.ordinaryKeys) ∧
        (counted.Nodup → counted.length ≤ r.members.length) := by
  obtain ⟨fields, rfl, ⟨r⟩⟩ := exists_resolution h
  refine ⟨fields, rfl, r, fun special hnone => ?_, fun special key hkey => ?_, _, rfl,
    r.memberCount_eq, fun key => r.mem_counted, r.nodup_counted_iff, fun hnodup => ?_⟩
  · rw [r.special_eq, hnone]
    rfl
  · obtain ⟨base, hbase, hrecord, hshown⟩ := r.special_of_key? hkey
    have hordinary := r.mem_ordinaryKeys_iff hrecord
    refine ⟨base, _, hbase, rfl, hrecord, hshown, hordinary, fun htype => ⟨fun hkind => ?_,
      fun hname hinputs page hpage => ?_⟩⟩
    · have hsame : Abi.kindOf (Table.overlay base (r.laid key)) = .str special.kind := by
        rw [← hkind]
        exact Abi.kindOf_congr (Members.field_overlay_of_not_sets htype base)
      refine ⟨hsame, fun hmem => ?_⟩
      obtain ⟨kind, hkinds, hother⟩ := hordinary.1 hmem
      obtain rfl := Json.str.inj (hsame.symm.trans hother)
      exact special.kind_not_mem_ordinaryKinds hkinds
    · refine special.exists_around_section hpage ?_ ?_
      · rw [hshown]
        exact r.specialSection_eq (Special.mem_keys_of_key? hkey) hbase htype hname hinputs _
      · rw [String.append_assoc, String.append_assoc]
        exact isAllBlank_heading _
  · have hle := (hnodup.subperm fun key => r.mem_counted).length_le
    rwa [List.length_map, Table.keys, List.length_map] at hle

/-- All special functions, without notes. -/
def specialOutput : Fields :=
  [("abi", .arr [.obj [("type", .str "constructor"), ("inputs", .arr [])],
    .obj [("type", .str "fallback")], .obj [("type", .str "receive")]])]

def receiveRecord : Fields := [("type", .str "receive")]

def specialMembers : Members :=
  [("constructor()", .obj [("type", .str "constructor"), ("inputs", .arr [])]),
    ("fallback()", .obj [("type", .str "fallback")]), ("receive()", .obj receiveRecord)]

theorem specials_of_resolveContract_sample :
    ∃ doc, resolveContract "a.sol:A" (.obj specialOutput) false = .ok doc ∧
      doc.receive = .obj receiveRecord ∧ .text "receive()" ∉ doc.ordinaryKeys ∧
      ∃ page before after, Page.render doc = .ok page ∧
        page = before ++ ("## Receive\n\n" ++ Page.member "receive()" receiveRecord) ++ after := by
  have hdoc : ∃ doc, resolveContract "a.sol:A" (.obj specialOutput) false = .ok doc ∧
    ∃ page, Page.render doc = .ok page := ⟨_, rfl, _, rfl⟩
  obtain ⟨doc, hdoc, page, hpage⟩ := hdoc
  obtain ⟨fields, hfields, r, -, hspecial, -⟩ := specials_of_resolveContract hdoc
  obtain rfl := Json.obj.inj hfields
  have htrees : r.trees = ⟨.obj [], .obj []⟩ := r.trees_eq rfl
  have hmembers : r.members = specialMembers := r.members_eq rfl rfl rfl
  have hkey : Special.receive.key? r.members = some "receive()" := by
    rw [hmembers]
    rfl
  obtain ⟨base, record, hbase, hrecord, hget, hplace, -, hlaid⟩ := hspecial .receive _ hkey
  rw [hmembers] at hget
  obtain rfl : receiveRecord = record := Json.obj.inj (Option.some.inj hget)
  have hnone : r.laid "receive()" = [] := by
    rw [r.laid_eq, Resolution.notedVariables, Resolution.laidLater, htrees, hmembers]
    split <;> rfl
  rw [hnone] at hrecord hlaid
  obtain rfl : receiveRecord = base := hrecord
  have hsets (key : Json.Key) : ¬Members.Sets [] key := by
    rintro ⟨change, hchange, -⟩
    cases hchange
  obtain ⟨hkind, hheaded⟩ := hlaid (hsets _)
  obtain ⟨before, after, hsame⟩ := hheaded (hsets _) (hsets _) page hpage
  exact ⟨doc, hdoc, hplace, (hkind rfl).2, page, before, after, hpage, hsame⟩

/-- An ordinary function with the name of a special one. -/
def namesakeOutput : Fields :=
  [("abi", .arr [.obj [("type", .str "function"), ("name", .str "fallback"), ("inputs", .arr [])]])]

/-- The function is shown as the fallback as well, and its one key is counted twice. -/
theorem fallback_of_namesake :
    ∃ doc record index,
      resolveContract "a.sol:A" (.obj namesakeOutput) false = .ok doc ∧
      doc.fallback = .obj record ∧ Abi.kindOf record = .str "function" ∧
      doc.methods = .obj [("fallback()", .obj record)] ∧ doc.memberCount = .ok 2 ∧
      Abi.index (Json.field namesakeOutput "abi") = .ok index ∧ index.members.length = 1 :=
  ⟨_, _, _, rfl, rfl, rfl, rfl, rfl, rfl, rfl⟩

end NatSpec
