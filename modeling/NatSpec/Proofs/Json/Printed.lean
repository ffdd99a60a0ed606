import NatSpec.Proofs.Json.Writing
import NatSpec.Text.Lines

/-!
JSON is written in printable ASCII, apart from line feeds. So it has no carriage return, and
unifying line ends changes nothing.
-/

namespace NatSpec

namespace Text

theorem unifyLineEnds_of_not_mem {cs : List Char} (h : '\r' ∉ cs) : unifyLineEnds cs = cs := by
  induction cs with
  | nil => rfl
  | cons c cs ih =>
      rw [List.mem_cons, not_or] at h
      rw [unifyLineEnds, ih h.2]
      · exact fun _ hc _ => h.1 hc.symm
      · exact fun hc => h.1 hc.symm

end Text

namespace Json

open Writer (unitEscape stringUnit keyText)

/-- A printable character of ASCII, or a line feed. -/
def Printed (c : Char) : Prop :=
  c = '\n' ∨ 0x20 ≤ c.toNat ∧ c.toNat ≤ 0x7E

/-- Characters all of which are printable, or line feeds. -/
abbrev AllPrinted (cs : List Char) : Prop :=
  ∀ c ∈ cs, Printed c

instance (c : Char) : Decidable (Printed c) :=
  inferInstanceAs (Decidable (_ ∨ _ ∧ _))

instance (cs : List Char) : Decidable (AllPrinted cs) :=
  List.decidableBAll Printed cs

theorem AllPrinted.append {cs ds : List Char} (hcs : AllPrinted cs) (hds : AllPrinted ds) :
    AllPrinted (cs ++ ds) :=
  List.forall_mem_append.2 ⟨hcs, hds⟩

theorem AllPrinted.cons {c : Char} {cs : List Char} (hc : Printed c) (hcs : AllPrinted cs) :
    AllPrinted (c :: cs) :=
  List.forall_mem_cons.2 ⟨hc, hcs⟩

theorem printed_of_isDigit {d : Char} (h : d.isDigit = true) : Printed d := by
  have := Text.isDigit_iff.1 h
  exact .inr (by omega)

theorem printed_hexDigit {n : Nat} (h : n < 16) : Printed (Text.hexDigit n) := by
  interval_cases n <;> decide

theorem printed_hexDigits (width n : Nat) : AllPrinted (Text.hexDigits width n) := by
  induction width generalizing n with
  | zero => exact nofun
  | succ width ih =>
      exact (ih (n / 16)).append (.cons (printed_hexDigit (Nat.mod_lt _ (by decide))) nofun)

theorem printed_unitEscape (n : Nat) : AllPrinted (unitEscape n) :=
  .cons (by decide) (.cons (by decide) (printed_hexDigits 4 n))

theorem printed_stringUnit (u : UInt16) : AllPrinted (stringUnit u) := by
  unfold stringUnit
  dsimp only
  split_ifs with _ _ _ _ _ _ _ hplain
  iterate 7 decide
  · exact .cons (.inr hplain) nofun
  · exact printed_unitEscape _

variable {τ : Type} [IsText τ]

theorem printed_string (s : τ) : AllPrinted (Writer.string s) := by
  refine .append (.cons (by decide) fun d hd => ?_) (by decide)
  obtain ⟨u, -, hmem⟩ := List.mem_flatMap.1 hd
  exact printed_stringUnit u d hmem

theorem printed_sign (negative : Bool) : AllPrinted (sign negative) := by
  cases negative <;> decide

theorem printed_signedDecimal (i : Int) : AllPrinted (Text.signedDecimal i).toList := by
  rw [toList_signedDecimal]
  exact (printed_sign _).append fun d hd =>
    printed_of_isDigit ((Text.isDigits_decimalDigits _).digits d hd)

theorem printed_float {cs : List Char} {x : Binary64} (h : SpellsFloat cs x) : AllPrinted cs := by
  have hmarks : AllPrinted numberMarks := by decide
  intro c hc
  rcases h.mem hc with hdigit | hmark
  · exact printed_of_isDigit hdigit
  · exact hmarks c hmark

/-- A layout that adds no other characters. -/
structure Layout.IsPrinted (l : Layout) : Prop where
  items : AllPrinted l.betweenItems
  name : AllPrinted l.afterName
  indent : ∀ unit, l.indent = some unit → AllPrinted unit

section

variable {l : Layout} (hl : l.IsPrinted)
include hl

theorem Layout.IsPrinted.lineStart (level : Nat) : AllPrinted (l.lineStart level) := by
  unfold Layout.lineStart
  cases hindent : l.indent with
  | none => exact nofun
  | some unit =>
      refine .cons (.inl rfl) fun c hc => ?_
      obtain ⟨part, hpart, hmem⟩ := List.mem_flatten.1 hc
      rw [List.eq_of_mem_replicate hpart] at hmem
      exact hl.indent unit hindent c hmem

theorem printed_items {level : Nat} {vs : List (Json τ)}
    (h : ∀ v ∈ vs, AllPrinted (Writer.value l level v)) : AllPrinted (Writer.items l level vs) := by
  induction vs with
  | nil => exact nofun
  | cons v vs ih =>
      rw [List.forall_mem_cons] at h
      exact ((hl.items.append (hl.lineStart level)).append h.1).append (ih h.2)

theorem printed_entries {level : Nat} {fields : Fields τ}
    (h : ∀ e ∈ fields, AllPrinted (Writer.value l level e.2)) :
    AllPrinted (Writer.entries l level fields) := by
  induction fields with
  | nil => exact nofun
  | cons e fields ih =>
      rw [List.forall_mem_cons] at h
      exact ((((hl.items.append (hl.lineStart level)).append (printed_string _)).append
        hl.name).append h.1).append (ih h.2)

theorem printed_value {P : List (Key τ) → Prop} {v : Json τ} (h : Valid P v) (level : Nat) :
    AllPrinted (Writer.value l level v) := by
  induction h generalizing level with
  | null => exact (by decide : AllPrinted ['n', 'u', 'l', 'l'])
  | bool b =>
      cases b with
      | true => exact (by decide : AllPrinted ['t', 'r', 'u', 'e'])
      | false => exact (by decide : AllPrinted ['f', 'a', 'l', 's', 'e'])
  | int _ => exact printed_signedDecimal _
  | float hx => exact printed_float (spellsFloat_float hx)
  | str s => exact printed_string s
  | @arr vs _ ih =>
      cases vs with
      | nil => exact (by decide : AllPrinted ['[', ']'])
      | cons item rest =>
          rw [List.forall_mem_cons] at ih
          exact .cons (by decide) (((((hl.lineStart _).append (ih.1 _)).append
            (printed_items hl fun v hv => ih.2 v hv _)).append (hl.lineStart _)).append (by decide))
  | @obj fields _ _ ih =>
      cases fields with
      | nil => exact (by decide : AllPrinted ['\x7b', '\x7d'])
      | cons entry rest =>
          rw [List.forall_mem_cons] at ih
          exact .cons (by decide) (((((((hl.lineStart _).append (printed_string _)).append
            hl.name).append (ih.1 _)).append (printed_entries hl fun e he => ih.2 e he _)).append
            (hl.lineStart _)).append (by decide))

end

theorem isPrinted_compact : Layout.compact.IsPrinted :=
  ⟨by decide, by decide, nofun⟩

theorem isPrinted_spaces (n : Int) : (Layout.spaces n).IsPrinted := by
  refine ⟨(by decide : AllPrinted [',']), (by decide : AllPrinted [':', ' ']),
    fun unit hunit c hc => ?_⟩
  obtain rfl := Option.some.inj hunit
  rw [List.eq_of_mem_replicate hc]
  decide

/-- Unifying line ends changes nothing in what was written. -/
theorem withLineFeeds_write {l : Layout} (hl : l.IsPrinted) {P : List (Key τ) → Prop} {v : Json τ}
    (h : Valid P v) {behind : String} (hbehind : AllPrinted behind.toList) :
    Text.withLineFeeds (v.write l ++ behind) = v.write l ++ behind := by
  have hprinted : AllPrinted (v.write l ++ behind).toList := by
    rw [String.toList_append, write, String.toList_ofList]
    exact (printed_value hl h 0).append hbehind
  rw [Text.withLineFeeds, Text.unifyLineEnds_of_not_mem, String.ofList_toList]
  intro hmem
  exact absurd (hprinted _ hmem) (by decide)

end Json

end NatSpec
