import NatSpec.Abi.Signature

/-!
Shapes of parameters: the part of a parameter that its signature shows. A shape is written as an
elementary type, or as the shapes of its components in brackets with a suffix behind them. The
main statement is that writing can be undone: a list of shapes is known from its text and so is
where that text ends, at any depth of nesting.
-/

namespace NatSpec.Abi

def isDelimiter (c : Char) : Bool := c = '(' || c = ')' || c = ','

/-- A piece of a type that neither mentions components nor has a delimiter. -/
def IsPlain (text : String) : Prop :=
  Text.occurs tupleWord text = false ∧ ∀ c ∈ text.toList, isDelimiter c = false

-- Over the characters of the text only: characters can be decided about all at once as well.
instance (text : String) : Decidable (IsPlain text) :=
  @instDecidableAnd _ _ (instDecidableEqBool ..) (List.decidableBAll ..)

/-- A plain piece of a type. -/
structure Plain where
  text : String
  plain : IsPlain text
  deriving DecidableEq

/-- The shape of a parameter. -/
inductive Shape
  | elementary (type : Plain) (nonempty : type.text ≠ "")
  | tuple (components : List Shape) (suffix : Plain)

namespace Shape

mutual

def write : Shape → List Char
  | elementary type _ => type.text.toList
  | tuple components suffix => '(' :: (writeAll components ++ ')' :: suffix.text.toList)

/-- Shapes with commas between them. -/
def writeAll : List Shape → List Char
  | [] => []
  | s :: rest => s.write ++ writeRest rest

/-- Shapes with a comma before each. -/
def writeRest : List Shape → List Char
  | [] => []
  | s :: rest => ',' :: (s.write ++ writeRest rest)

end

/-- Nothing is left, or a delimiter comes next that closes or separates. -/
def Ends (rest : List Char) : Prop :=
  rest = [] ∨ ∃ c after, rest = c :: after ∧ isDelimiter c = true

theorem ends_close (rest : List Char) : Ends (')' :: rest) :=
  .inr ⟨_, _, rfl, rfl⟩

theorem ends_writeRest (shapes : List Shape) (rest : List Char) :
    Ends (writeRest shapes ++ ')' :: rest) := by
  cases shapes with
  | nil => exact ends_close rest
  | cons s shapes => exact .inr ⟨_, _, rfl, rfl⟩

/-- Two texts without delimiters that are followed by their ends are the same. -/
theorem append_cancel {a b r t : List Char} (ha : ∀ c ∈ a, isDelimiter c = false)
    (hb : ∀ c ∈ b, isDelimiter c = false) (hr : Ends r) (ht : Ends t)
    (h : a ++ r = b ++ t) : a = b ∧ r = t := by
  induction a generalizing b with
  | nil =>
      cases b with
      | nil => exact ⟨rfl, h⟩
      | cons d b =>
          rcases hr with rfl | ⟨c, after, rfl, hc⟩
          · cases h
          · obtain rfl := (List.cons.inj h).1
            rw [hb c (List.mem_cons_self ..)] at hc
            cases hc
  | cons c a ih =>
      cases b with
      | nil =>
          rcases ht with rfl | ⟨d, after, rfl, hd⟩
          · cases h
          · obtain rfl := (List.cons.inj h).1
            rw [ha c (List.mem_cons_self ..)] at hd
            cases hd
      | cons d b =>
          obtain ⟨rfl, htail⟩ := List.cons.inj h
          obtain ⟨rfl, hrest⟩ := ih (fun x hx => ha x (List.mem_cons_of_mem _ hx))
            (fun x hx => hb x (List.mem_cons_of_mem _ hx)) htail
          exact ⟨rfl, hrest⟩

/-- Two plain pieces that are followed by their ends are the same. -/
theorem plain_cancel {p q : Plain} {r t : List Char} (hr : Ends r) (ht : Ends t)
    (h : p.text.toList ++ r = q.text.toList ++ t) : p = q ∧ r = t := by
  obtain ⟨htext, hrest⟩ := append_cancel p.plain.2 q.plain.2 hr ht h
  obtain ⟨text, plain⟩ := p
  obtain ⟨text', plain'⟩ := q
  obtain rfl := String.toList_inj.1 htext
  exact ⟨rfl, hrest⟩

/-- A shape starts with a bracket or with a character of its type. -/
theorem exists_write_eq_cons (s : Shape) :
    ∃ c rest, s.write = c :: rest ∧ (c = '(' ∨ isDelimiter c = false) := by
  cases s with
  | elementary type nonempty =>
      cases h : type.text.toList with
      | nil => exact absurd (String.toList_eq_nil_iff.1 h) nonempty
      | cons c rest =>
          refine ⟨c, rest, by rw [write, h], .inr ?_⟩
          exact type.plain.2 c (by rw [h]; exact List.mem_cons_self ..)
  | tuple components suffix => exact ⟨_, _, by rw [write], .inl rfl⟩

theorem elementary_ne_tuple {type : Plain} (nonempty : type.text ≠ "") {components : List Shape}
    {suffix : Plain} {r t : List Char} :
    (elementary type nonempty).write ++ r ≠ (tuple components suffix).write ++ t := by
  intro h
  rw [write, write] at h
  cases htext : type.text.toList with
  | nil => exact nonempty (String.toList_eq_nil_iff.1 htext)
  | cons c rest =>
      rw [htext] at h
      obtain rfl := (List.cons.inj h).1
      have hplain := type.plain.2 '(' (by rw [htext]; exact List.mem_cons_self ..)
      exact absurd hplain (by decide)

theorem writeAll_cons_ne_close (s : Shape) (shapes : List Shape) (r t : List Char) :
    writeAll (s :: shapes) ++ r ≠ ')' :: t := by
  intro h
  obtain ⟨c, rest, hs, hc⟩ := exists_write_eq_cons s
  rw [writeAll, hs] at h
  obtain rfl := (List.cons.inj h).1
  revert hc
  decide

mutual

/-- A shape is known from its text, and so is where the text ends. -/
theorem write_cancel : ∀ (a b : Shape) {r t : List Char}, Ends r → Ends t →
    a.write ++ r = b.write ++ t → a = b ∧ r = t
  | elementary type _, elementary type' _, r, t, hr, ht, h => by
      rw [write, write] at h
      obtain ⟨rfl, hrest⟩ := plain_cancel hr ht h
      exact ⟨rfl, hrest⟩
  | elementary _ nonempty, tuple _ _, r, t, hr, ht, h => absurd h (elementary_ne_tuple nonempty)
  | tuple _ _, elementary _ nonempty, r, t, hr, ht, h =>
      absurd h.symm (elementary_ne_tuple nonempty)
  | tuple components suffix, tuple components' suffix', r, t, hr, ht, h => by
      simp only [write, List.cons_append, List.append_assoc, List.cons.injEq, true_and] at h
      obtain ⟨rfl, hsuffix⟩ := writeAll_cancel components components' h
      -- What follows the closing bracket is the suffix, up to the end of the whole shape.
      obtain ⟨rfl, hrest⟩ := plain_cancel hr ht hsuffix
      exact ⟨rfl, hrest⟩

/-- Shapes in brackets are known from their text. -/
theorem writeAll_cancel : ∀ (as bs : List Shape) {r t : List Char},
    writeAll as ++ ')' :: r = writeAll bs ++ ')' :: t → as = bs ∧ r = t
  | [], [], r, t, h => ⟨rfl, (List.cons.inj h).2⟩
  | [], b :: bs, r, t, h => absurd h.symm (writeAll_cons_ne_close b bs _ _)
  | a :: as, [], r, t, h => absurd h (writeAll_cons_ne_close a as _ _)
  | a :: as, b :: bs, r, t, h => by
      rw [writeAll, writeAll, List.append_assoc, List.append_assoc] at h
      obtain ⟨rfl, htail⟩ := write_cancel a b (ends_writeRest as r) (ends_writeRest bs t) h
      obtain ⟨rfl, hrest⟩ := writeRest_cancel as bs htail
      exact ⟨rfl, hrest⟩

/-- Further shapes in brackets are known from their text. -/
theorem writeRest_cancel : ∀ (as bs : List Shape) {r t : List Char},
    writeRest as ++ ')' :: r = writeRest bs ++ ')' :: t → as = bs ∧ r = t
  | [], [], r, t, h => ⟨rfl, (List.cons.inj h).2⟩
  | [], b :: bs, r, t, h => by
      rw [writeRest] at h
      exact absurd (List.cons.inj h).1 (by decide)
  | a :: as, [], r, t, h => by
      rw [writeRest] at h
      exact absurd (List.cons.inj h).1 (by decide)
  | a :: as, b :: bs, r, t, h => by
      simp only [writeRest, List.cons_append, List.append_assoc, List.cons.injEq, true_and] at h
      obtain ⟨rfl, htail⟩ := write_cancel a b (ends_writeRest as r) (ends_writeRest bs t) h
      obtain ⟨rfl, hrest⟩ := writeRest_cancel as bs htail
      exact ⟨rfl, hrest⟩

end

end Shape

end NatSpec.Abi
