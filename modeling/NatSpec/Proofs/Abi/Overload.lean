import NatSpec.Proofs.Abi.Index
import NatSpec.Proofs.Abi.Shape
import NatSpec.Proofs.Text.Search

/-!
Overloads: the name of a member with the shapes of its inputs. A member with well formed inputs is
an overload, its signature is the text of the overload, and different overloads have different
texts. So an index reports a repeated signature only where an overload is repeated.
-/

namespace NatSpec.Abi

/-- A text as a plain piece of a type. -/
def plain? (text : String) : Option Plain :=
  if h : IsPlain text then some ⟨text, h⟩ else none

def elementary? (type : String) : Option Shape :=
  if h : IsPlain type ∧ type ≠ "" then some (.elementary ⟨type, h.1⟩ h.2) else none

/-- What stands in a type behind the word for components, if the type starts with it. -/
def suffix? (type : String) : Option Plain :=
  if Text.startsWith type tupleWord then
    plain? (String.ofList (type.toList.drop tupleWord.toList.length))
  else none

mutual

/-- The shape of a parameter, if it is well formed: its type is elementary, or the word for
components with a suffix. -/
def shape? : Json → Option Shape
  | .obj fields =>
    match Table.get? fields "type" with
    | some (.str type) =>
      match suffix? type with
      | some suffix => (componentShapes? fields).map fun shapes => .tuple shapes suffix
      | none => elementary? type
    | _ => none
  | _ => none

/-- The shapes of the components among the fields of a parameter. Missing or null components are
none. -/
def componentShapes? : List (Json.Key × Json) → Option (List Shape)
  | [] => some []
  | (name, v) :: rest =>
    if name == .text "components" then
      match v with
      | .arr items => shapes? items
      | .null => some []
      | _ => none
    else componentShapes? rest

/-- The shapes of parameters, in order. -/
def shapes? : List Json → Option (List Shape)
  | [] => some []
  | p :: rest => do some ((← shape? p) :: (← shapes? rest))

end

/-- The shapes of the inputs of a member. Missing or null inputs are none. -/
def inputShapes? (member : Fields) : Option (List Shape) :=
  match Json.field member "inputs" with
  | .arr items => shapes? items
  | .null => some []
  | _ => none

/-- A name without brackets and the shapes of the inputs. -/
structure Overload where
  name : String
  inputs : List Shape
  bracketless : '(' ∉ name.toList

/-- The overload of a member with well formed inputs. -/
def overload? (member : Fields) : Option Overload :=
  if h : '(' ∉ (nameOf member).display.toList then
    (inputShapes? member).map fun inputs => ⟨(nameOf member).display, inputs, h⟩
  else none

/-! ### Types -/

def Shape.text (s : Shape) : String := String.ofList s.write

theorem suffix?_eq_some {type : String} {suffix : Plain} (h : suffix? type = some suffix) :
    type = tupleWord ++ suffix.text := by
  unfold suffix? at h
  split at h
  · rename_i hstart
    obtain ⟨rest, hrest⟩ := List.isPrefixOf_iff_prefix.1 hstart
    unfold plain? at h
    split at h
    · obtain rfl := Option.some.inj h
      apply String.toList_inj.1
      simp [← hrest]
    · cases h
  · cases h

theorem elementary?_eq_some {type : String} {s : Shape} (h : elementary? type = some s) :
    IsPlain type ∧ s.text = type := by
  unfold elementary? at h
  split at h
  · rename_i hplain
    obtain rfl := Option.some.inj h
    exact ⟨hplain.1, by simp [Shape.text, Shape.write]⟩
  · cases h

/-- The texts of shapes in brackets are the shapes written in brackets. -/
theorem toList_parenthesized (shapes : List Shape) :
    (parenthesized (shapes.map Shape.text)).toList = '(' :: (Shape.writeAll shapes ++ [')']) := by
  have hrest : ∀ (s : Shape) (shapes : List Shape),
      (",".intercalate ((s :: shapes).map Shape.text)).toList =
        s.write ++ Shape.writeRest shapes := by
    intro s shapes
    induction shapes generalizing s with
    | nil => simp [Shape.text, Shape.writeRest]
    | cons t shapes ih =>
        rw [List.map_cons, List.map_cons, String.intercalate_cons_cons, String.toList_append,
          String.toList_append, ← List.map_cons, ih t, Shape.writeRest]
        simp [Shape.text]
  rw [parenthesized, String.toList_append, String.toList_append]
  cases shapes with
  | nil => rfl
  | cons s shapes =>
      rw [hrest, Shape.writeAll]
      rfl

mutual

/-- A well formed parameter has the text of its shape as its type. -/
theorem typeOf_eq : ∀ {p : Json} {s : Shape}, shape? p = some s → typeOf p = .ok (.str s.text)
  | .obj fields, s, h => by
      rw [shape?] at h
      split at h
      · rename_i type htype
        rw [typeOf, htype]
        cases hsuffix : suffix? type with
        | none =>
            rw [hsuffix] at h
            obtain ⟨hplain, htext⟩ := elementary?_eq_some h
            simp [mentionsTuple, hplain.1, htext, bind, Except.bind]
        | some suffix =>
            rw [hsuffix] at h
            obtain ⟨shapes, hshapes, rfl⟩ := Option.map_eq_some_iff.1 h
            obtain rfl := suffix?_eq_some hsuffix
            have hmentions : mentionsTuple (.str (tupleWord ++ suffix.text)) = .ok true := by
              rw [mentionsTuple, Text.occurs_append]
            have htext : parenthesized (shapes.map Shape.text) ++ suffix.text =
                (Shape.tuple shapes suffix).text := by
              apply String.toList_inj.1
              rw [String.toList_append, toList_parenthesized]
              simp [Shape.text, Shape.write]
            simp only [hmentions, componentTypes_eq hshapes, bind, Except.bind, if_true,
              texts_map_str, Text.replaceFirst_append, htext]
      · cases h
  | .null, _, h | .bool _, _, h | .int _, _, h | .float _, _, h | .str _, _, h
  | .arr _, _, h => by cases h

/-- Well formed components have the texts of their shapes as their types. -/
theorem componentTypes_eq : ∀ {fields : List (Json.Key × Json)} {shapes : List Shape},
    componentShapes? fields = some shapes →
      componentTypes fields = .ok ((shapes.map Shape.text).map Json.str)
  | [], shapes, h => by
      obtain rfl := Option.some.inj h
      rfl
  | (name, v) :: rest, shapes, h => by
      by_cases hname : (name == .text "components") = true
      · cases v with
        | arr items =>
            simp only [componentShapes?, componentTypes, if_pos hname] at h ⊢
            exact typesOf_eq h
        | null =>
            simp only [componentShapes?, componentTypes, if_pos hname] at h ⊢
            obtain rfl := Option.some.inj h
            rfl
        | _ =>
            simp only [componentShapes?, if_pos hname] at h
            cases h
      · unfold componentShapes? at h
        unfold componentTypes
        rw [if_neg hname] at h ⊢
        exact componentTypes_eq h

/-- Well formed parameters have the texts of their shapes as their types. -/
theorem typesOf_eq : ∀ {items : List Json} {shapes : List Shape},
    shapes? items = some shapes → typesOf items = .ok ((shapes.map Shape.text).map Json.str)
  | [], shapes, h => by
      obtain rfl := Option.some.inj h
      rfl
  | p :: rest, shapes, h => by
      rw [shapes?] at h
      obtain ⟨s, hs, h⟩ := Option.bind_eq_some_iff.1 h
      obtain ⟨others, hothers, h⟩ := Option.bind_eq_some_iff.1 h
      obtain rfl := Option.some.inj h
      rw [typesOf, typeOf_eq hs, typesOf_eq hothers]
      rfl

end

/-! ### Signatures -/

namespace Overload

def text (o : Overload) : String :=
  o.name ++ parenthesized (o.inputs.map Shape.text)

theorem toList_text (o : Overload) :
    o.text.toList = o.name.toList ++ '(' :: (Shape.writeAll o.inputs ++ [')']) := by
  rw [text, String.toList_append, toList_parenthesized]

/-- The first bracket of a signature ends the name, and the rest is known to be the inputs. -/
theorem text_injective : Function.Injective text := by
  intro m n h
  have hlist : m.name.toList ++ '(' :: (Shape.writeAll m.inputs ++ [')']) =
      n.name.toList ++ '(' :: (Shape.writeAll n.inputs ++ [')']) := by
    rw [← toList_text, ← toList_text, h]
  have hcut := congrArg (Text.cut? ['(']) hlist
  rw [Text.cut?_singleton_append _ m.bracketless, Text.cut?_singleton_append _ n.bracketless]
    at hcut
  obtain ⟨hname, hinputs⟩ := Prod.mk.inj (Option.some.inj hcut)
  obtain ⟨name, inputs, bracketless⟩ := m
  obtain ⟨name', inputs', bracketless'⟩ := n
  obtain rfl := String.toList_inj.1 hname
  obtain ⟨rfl, -⟩ := Shape.writeAll_cancel inputs inputs' hinputs
  rfl

theorem eq_iff {m n : Overload} : m = n ↔ m.name = n.name ∧ m.inputs = n.inputs := by
  cases m
  cases n
  simp

end Overload

theorem inputTypes_eq {member : Fields} {shapes : List Shape}
    (h : inputShapes? member = some shapes) :
    inputTypes member = .ok ((shapes.map Shape.text).map Json.str) := by
  unfold inputShapes? at h
  unfold inputTypes
  split at h
  · rename_i items hitems
    rw [hitems]
    exact typesOf_eq h
  · rename_i hnull
    rw [hnull]
    obtain rfl := Option.some.inj h
    rfl
  · cases h

/-- The signature of a well formed member is the text of its overload. -/
theorem signature_eq {member : Fields} {o : Overload} (h : overload? member = some o) :
    signature member = .ok o.text := by
  unfold overload? at h
  split at h
  · obtain ⟨shapes, hshapes, rfl⟩ := Option.map_eq_some_iff.1 h
    rw [signature, inputTypes_eq hshapes]
    simp only [bind, Except.bind, texts_map_str]
    rfl
  · cases h

namespace Index

/-- Adding a well formed member reports it exactly if its signature is a key already. -/
theorem add_eq (index : Index) {member : Fields} {o : Overload}
    (h : overload? member = some o) :
    index.add (.obj member) = .ok
      ⟨index.members.set o.text (.obj member),
        if index.members.contains o.text then index.duplicates ++ [o.text]
        else index.duplicates⟩ := by
  have hsignature : signatureOf (.obj member) = .ok o.text := signature_eq h
  rw [add, hsignature]
  rfl

/-- Adding well formed members one after another reports nothing new exactly if their overloads are
new and different. -/
theorem exists_addAll {members : List Fields} {overloads : List Overload}
    (h : members.map overload? = overloads.map some) (start : Index)
    (hstart : (Table.keys start.members).Nodup) :
    ∃ index, (members.map Json.obj).foldlM Index.add start = .ok index ∧
      (index.duplicates = [] ↔ start.duplicates = [] ∧
        (Table.keys start.members ++ overloads.map Overload.text).Nodup) := by
  induction members generalizing overloads start with
  | nil =>
      obtain rfl : overloads = [] := by simpa using h.symm
      exact ⟨start, rfl, by simp [hstart]⟩
  | cons member members ih =>
      cases overloads with
      | nil => simp at h
      | cons o overloads =>
          obtain ⟨ho, hrest⟩ := List.cons.inj h
          rw [List.map_cons, List.foldlM_cons, add_eq start ho]
          obtain ⟨index, hindex, hduplicates⟩ := ih hrest
            ⟨start.members.set o.text (.obj member),
              if start.members.contains o.text then start.duplicates ++ [o.text]
              else start.duplicates⟩
            (Table.nodup_keys_set _ _ hstart)
          refine ⟨index, hindex, hduplicates.trans ?_⟩
          -- A signature that is a key already is reported, and stands twice on the right.
          by_cases hmem : o.text ∈ Table.keys start.members
          · refine iff_of_false ?_ ?_
            · simp [Table.contains_iff.2 hmem]
            · rintro ⟨-, hnodup⟩
              exact (List.nodup_append.1 hnodup).2.2 _ hmem _ (List.mem_cons_self ..) rfl
          · have hcontains : start.members.contains o.text = false := by
              rw [← Bool.not_eq_true, Table.contains_iff]
              exact hmem
            simp [hcontains, Table.keys_set_of_not_mem _ hmem]

end Index

/-- Two well formed members have one signature exactly if they have one name and inputs of one
shape. The index of well formed members reports a repeated signature exactly if two of the members
have one name and inputs of one shape. -/
theorem signature_eq_signature_iff :
    (∀ (a b : Fields) (m n : Overload), overload? a = some m → overload? b = some n →
      ∃ s t, signature a = .ok s ∧ signature b = .ok t ∧
        (s = t ↔ m.name = n.name ∧ m.inputs = n.inputs)) ∧
    ∀ (members : List Fields) (overloads : List Overload),
      members.map overload? = overloads.map some →
        ∃ index, Abi.index (.arr (members.map Json.obj)) = .ok index ∧
          (index.duplicates ≠ [] ↔ ∃ i j : Nat, i < j ∧ ∃ m n : Overload,
            overloads[i]? = some m ∧ overloads[j]? = some n ∧
              m.name = n.name ∧ m.inputs = n.inputs) := by
  constructor
  · intro a b m n ha hb
    refine ⟨m.text, n.text, signature_eq ha, signature_eq hb, ?_⟩
    rw [← Overload.eq_iff]
    exact Overload.text_injective.eq_iff
  · intro members overloads h
    obtain ⟨index, hindex, hduplicates⟩ := Index.exists_addAll h ⟨[], []⟩ List.nodup_nil
    refine ⟨index, hindex, ?_⟩
    have hnodup : index.duplicates = [] ↔ overloads.Nodup := by
      rw [hduplicates]
      simpa using List.nodup_map_iff Overload.text_injective
    rw [ne_eq, hnodup, List.nodup_iff_getElem?_ne_getElem?]
    constructor
    · intro hne
      push Not at hne
      obtain ⟨i, j, hij, hj, heq⟩ := hne
      refine ⟨i, j, hij, overloads[j], overloads[j], ?_, ?_, rfl, rfl⟩
      · rw [heq, List.getElem?_eq_getElem hj]
      · exact List.getElem?_eq_getElem hj
    · rintro ⟨i, j, hij, m, n, hi, hj, hsame⟩ hall
      obtain rfl := Overload.eq_iff.2 hsame
      have hlt : j < overloads.length := (List.getElem?_eq_some_iff.1 hj).1
      exact hall i j hij hlt (hi.trans hj.symm)

/-- A member with a function's name and the given inputs. -/
def sampleMember (inputs : List Json) : Fields :=
  [("type", .str "function"), ("name", .str "f"), ("inputs", .arr inputs)]

/-- Three members of one name with two brackets each. The suffix stands behind the outer bracket,
then behind the inner one, then behind the outer one again. -/
def sampleMembers : List Fields :=
  [sampleMember [.obj [("type", .str "tuple[2]"), ("components", .arr
      [.obj [("type", .str "uint8")], .obj [("type", .str "tuple"), ("components", .arr [])]])]],
    sampleMember [.obj [("type", .str "tuple"), ("components", .arr
      [.obj [("type", .str "uint8")], .obj [("type", .str "tuple[2]")]])]],
    sampleMember [.obj [("components", .arr
      [.obj [("type", .str "uint8"), ("name", .str "x")],
        .obj [("type", .str "tuple"), ("components", .null)]]), ("type", .str "tuple[2]")]]]

def sampleOverload (outer inner : Plain) : Overload :=
  ⟨"f", [.tuple [.elementary ⟨"uint8", by decide⟩ (by decide), .tuple [] inner] outer],
    by decide⟩

def sampleOverloads : List Overload :=
  let bare : Plain := ⟨"", by decide⟩
  let pair : Plain := ⟨"[2]", by decide⟩
  [sampleOverload pair bare, sampleOverload bare pair, sampleOverload pair bare]

theorem signature_eq_signature_iff_sample :
    sampleMembers.map overload? = sampleOverloads.map some ∧
    (∃ s t, signature sampleMembers[0] = .ok s ∧ signature sampleMembers[1] = .ok t ∧ s ≠ t) ∧
    ∃ index, Abi.index (.arr (sampleMembers.map Json.obj)) = .ok index ∧
      index.duplicates ≠ [] := by
  have hsample : sampleMembers.map overload? = sampleOverloads.map some := by rfl
  obtain ⟨s, t, hs, ht, heq⟩ := signature_eq_signature_iff.1 sampleMembers[0] sampleMembers[1]
    sampleOverloads[0] sampleOverloads[1] rfl rfl
  obtain ⟨index, hindex, hduplicates⟩ :=
    signature_eq_signature_iff.2 sampleMembers sampleOverloads hsample
  refine ⟨hsample, ⟨s, t, hs, ht, ?_⟩, index, hindex, ?_⟩
  · rw [ne_eq, heq]
    simp [sampleOverloads, sampleOverload]
  · exact hduplicates.2 ⟨0, 2, by decide, _, _, rfl, rfl, rfl, rfl⟩

end NatSpec.Abi
