import NatSpec.Proofs.Bundle.Markup

/-!
The tags of a page. It is read character by character: what is no tag is passed over, and so are the
values of attributes. In the data of a script nothing is a tag before the first `</`. No escaped
text moves the reader from its place.
-/

namespace NatSpec

namespace Markup

/-! ### Reading tags -/

/-- Where a page is read. Of a tag the characters that have been read are kept, the newest first. -/
inductive Place
  | text
  | tag (seen : List Char)
  | value (quote : Char) (seen : List Char)
  | data (opened : Bool)
  deriving DecidableEq, Repr

/-- Whether the tag that ends here starts a script. -/
def startsScript (seen : List Char) : Bool :=
  ['<', 's', 'c', 'r', 'i', 'p', 't'].isPrefixOf seen.reverse

/-- The place behind a character. -/
def Place.next : Place → Char → Place
  | text, c => if c = '<' then tag ['<'] else text
  | tag seen, c =>
    if c = '>' then (if startsScript seen then data false else text)
    else if c = '\x22' ∨ c = '\x27' then value c (c :: seen)
    else tag (c :: seen)
  | value quote seen, c => if c = quote then tag (c :: seen) else value quote seen
  | data opened, c => if opened ∧ c = '/' then tag ['/', '<'] else data (c = '<')

/-- The tag that a character ends, if it ends one. -/
def Place.ended : Place → Char → List String
  | tag seen, c => if c = '>' then [String.ofList (c :: seen).reverse] else []
  | _, _ => []

/-- The tags that end in some characters, without the values of their attributes. -/
def tagsFrom (place : Place) : List Char → List String
  | [] => []
  | c :: cs => place.ended c ++ tagsFrom (place.next c) cs

/-- The tags of a page, without the values of their attributes. -/
def tags (page : String) : List String :=
  tagsFrom .text page.toList

theorem tagsFrom_append (place : Place) (cs ds : List Char) :
    tagsFrom place (cs ++ ds) = tagsFrom place cs ++ tagsFrom (cs.foldl Place.next place) ds := by
  induction cs generalizing place with
  | nil => rfl
  | cons c cs ih => simp [tagsFrom, ih]

/-- Some characters lead from a place to another and end some tags on their way. -/
structure Reads (start : Place) (cs : List Char) (found : List String) (stop : Place) : Prop where
  tags : tagsFrom start cs = found
  place : cs.foldl Place.next start = stop

variable {start middle stop : Place} {cs ds : List Char} {found more : List String}

theorem Reads.nil : Reads start [] [] start :=
  ⟨rfl, rfl⟩

theorem Reads.append (h : Reads start cs found middle) (hmore : Reads middle ds more stop) :
    Reads start (cs ++ ds) (found ++ more) stop := by
  obtain ⟨rfl, rfl⟩ := h
  obtain ⟨rfl, rfl⟩ := hmore
  exact ⟨tagsFrom_append _ _ _, List.foldl_append⟩

/-- A text that is written out is read by its characters. -/
theorem reads_literal (htags : tagsFrom start cs = found)
    (hplace : cs.foldl Place.next start = stop) :
    Reads start (String.ofList cs).toList found stop := by
  rw [String.toList_ofList]
  exact ⟨htags, hplace⟩

/-- A place at which characters are passed over. -/
theorem reads_same (h : ∀ c ∈ cs, start.next c = start ∧ start.ended c = []) :
    Reads start cs [] start := by
  induction cs with
  | nil => exact .nil
  | cons c cs ih =>
      obtain ⟨hnext, hended⟩ := h c List.mem_cons_self
      obtain ⟨htags, hplace⟩ := ih fun d hd => h d (List.mem_cons_of_mem c hd)
      constructor
      · rw [tagsFrom, hended, hnext, htags, List.append_nil]
      · rw [List.foldl_cons, hnext, hplace]

/-- An escaped text is passed over in a text. -/
theorem reads_text (s : String) : Reads .text (escape s).toList [] .text := by
  refine reads_same fun c hc => ⟨if_neg ?_, rfl⟩
  rintro rfl
  exact escape_free s _ (by decide) hc

/-- An escaped text is passed over in the value of an attribute. -/
theorem reads_value (s : String) {quote : Char} (hquote : quote ∈ marks) (seen : List Char) :
    Reads (.value quote seen) (escape s).toList [] (.value quote seen) := by
  refine reads_same fun c hc => ⟨if_neg ?_, rfl⟩
  rintro rfl
  exact escape_free s _ hquote hc

/-- Without an end of a script nothing in its data is a tag. -/
theorem reads_data (h : ¬['<', '/'] <:+: cs) {opened : Bool}
    (hstart : opened = true → cs.head? ≠ some '/') :
    ∃ opened', Reads (.data opened) cs [] (.data opened') := by
  induction cs generalizing opened with
  | nil => exact ⟨opened, .nil⟩
  | cons c cs ih =>
      rw [List.infix_cons_iff, not_or] at h
      have hnext : (Place.data opened).next c = .data (c = '<') := by
        refine if_neg ?_
        rintro ⟨hopened, rfl⟩
        exact hstart hopened rfl
      have hrest : decide (c = '<') = true → cs.head? ≠ some '/' := by
        intro hc hslash
        obtain ⟨rest, rfl⟩ : ∃ rest, cs = '/' :: rest := by
          cases cs <;> simp_all
        exact h.1 ⟨rest, by simp_all⟩
      obtain ⟨opened', htags, hplace⟩ := ih h.2 hrest
      refine ⟨opened', ?_, ?_⟩
      · rw [tagsFrom, hnext, htags]
        rfl
      · rw [List.foldl_cons, hnext, hplace]

end Markup

end NatSpec
