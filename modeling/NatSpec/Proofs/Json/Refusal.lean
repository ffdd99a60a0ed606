import Mathlib.Tactic.Common
import NatSpec.Json.Reader

/-!
Refused texts. What texts are made of decides which value a reader gives, but not whether it gives
one: two readers that differ in it stop at the same place for the same reason.
-/

namespace NatSpec.Json

namespace Reader

/-- Both results are the same stop, or both are values that leave the same characters. -/
inductive Abreast {α β : Type} : Except Stop (α × List Char) → Except Stop (β × List Char) → Prop
  | stop (s : Stop) : Abreast (.error s) (.error s)
  | ok (a : α) (b : β) (rest : List Char) : Abreast (.ok (a, rest)) (.ok (b, rest))

theorem Abreast.refl {α : Type} (x : Except Stop (α × List Char)) : Abreast x x := by
  rcases x with s | ⟨a, rest⟩
  · exact .stop s
  · exact .ok a a rest

theorem Abreast.bind {α β γ δ : Type} {x : Except Stop (α × List Char)}
    {y : Except Stop (β × List Char)} {f : α × List Char → Except Stop (γ × List Char)}
    {g : β × List Char → Except Stop (δ × List Char)} (h : Abreast x y)
    (hfg : ∀ a b rest, Abreast (f (a, rest)) (g (b, rest))) : Abreast (x >>= f) (y >>= g) := by
  cases h with
  | stop s => exact .stop s
  | ok a b rest => exact hfg a b rest

theorem Abreast.bind_eq_error {α β γ δ : Type} {x : Except Stop (α × List Char)}
    {y : Except Stop (β × List Char)} {f : α × List Char → Except Stop γ}
    {g : β × List Char → Except Stop δ} {s : Stop} (h : Abreast x y)
    (hfg : ∀ a b rest s, f (a, rest) = .error s → g (b, rest) = .error s)
    (hstop : (x >>= f) = .error s) : (y >>= g) = .error s := by
  cases h with
  | stop s' => exact congrArg Except.error (Except.error.inj hstop)
  | ok a b rest => exact hfg a b rest s hstop

section

variable {τ σ : Type}

theorem abreast_numberFrom (negative : Bool) (whole rest : List Char) :
    Abreast (numberFrom (τ := τ) negative whole rest)
      (numberFrom (τ := σ) negative whole rest) := by
  unfold numberFrom
  dsimp only
  split
  · split
    · exact .stop _
    · exact .ok _ _ _
  · exact .ok _ _ _

theorem abreast_unsignedNumber (start : List Char) (negative : Bool) (cs : List Char) :
    Abreast (unsignedNumber (τ := τ) start negative cs)
      (unsignedNumber (τ := σ) start negative cs) := by
  unfold unsignedNumber
  split
  · exact abreast_numberFrom _ _ _
  · split
    · exact abreast_numberFrom _ _ _
    · exact .stop _
  · exact .stop _

theorem abreast_scalar (cs : List Char) :
    Abreast (scalar (τ := τ) cs) (scalar (τ := σ) cs) := by
  unfold scalar
  split
  all_goals first
    | exact .ok _ _ _
    | exact abreast_unsignedNumber _ _ _

variable [DecidableEq τ] [IsText τ] [DecidableEq σ] [IsText σ]

theorem abreast_value (fuel : Nat) : ∀ (room : Nat) (cs : List Char),
    Abreast (value (τ := τ) fuel room cs) (value (τ := σ) fuel room cs) ∧
    Abreast (items (τ := τ) fuel room cs) (items (τ := σ) fuel room cs) ∧
    Abreast (entries (τ := τ) fuel room cs) (entries (τ := σ) fuel room cs) := by
  induction fuel with
  | zero =>
      intro room cs
      simp only [value, items, entries]
      exact ⟨.stop _, .stop _, .stop _⟩
  | succ fuel ih =>
      intro room cs
      refine ⟨?_, ?_, ?_⟩
      · unfold value
        split
        · exact (Abreast.refl _).bind fun _ _ _ => .ok _ _ _
        · cases room with
          | zero => exact .stop _
          | succ room =>
              dsimp only
              split
              · exact .ok _ _ _
              · exact (ih room _).2.1.bind fun _ _ _ => .ok _ _ _
        · cases room with
          | zero => exact .stop _
          | succ room =>
              dsimp only
              split
              · exact .ok _ _ _
              · exact (ih room _).2.2.bind fun _ _ _ => .ok _ _ _
        · exact abreast_scalar _
      · unfold items
        refine (ih room cs).1.bind fun _ _ _ => ?_
        dsimp only
        split
        · exact .ok _ _ _
        · exact (ih room _).2.1.bind fun _ _ _ => .ok _ _ _
        · exact .stop _
      · unfold entries
        split
        · refine (Abreast.refl _).bind fun _ _ _ => ?_
          dsimp only
          split
          · refine (ih room _).1.bind fun _ _ _ => ?_
            dsimp only
            split
            · exact .ok _ _ _
            · exact (ih room _).2.2.bind fun _ _ _ => .ok _ _ _
            · exact .stop _
          · exact .stop _
        · exact .stop _

theorem document_eq_error {cs : List Char} {s : Stop} (h : document (τ := τ) cs = .error s) :
    document (τ := σ) cs = .error s := by
  unfold document at h ⊢
  split at h
  · exact congrArg Except.error (Except.error.inj h)
  · have hvalue := (abreast_value (τ := τ) (σ := σ) (2 * cs.length + 2) maxNesting
      (skipSpace cs)).1
    refine hvalue.bind_eq_error (fun v v' rest s hrest => ?_) h
    dsimp only at hrest ⊢
    split at hrest
    · cases hrest
    · exact congrArg Except.error (Except.error.inj hrest)

end

end Reader

/-- A text is refused for the same reason whatever texts are made of. -/
theorem read_eq_error {τ σ : Type} [DecidableEq τ] [IsText τ] [DecidableEq σ] [IsText σ]
    {text : String} {refusal : Refusal} (h : read (τ := τ) text = .error refusal) :
    read (τ := σ) text = .error refusal := by
  unfold read at h ⊢
  dsimp only at h ⊢
  cases hread : Reader.document (τ := τ) text.toList with
  | ok v =>
      rw [hread] at h
      cases h
  | error s =>
      rw [hread] at h
      rw [Reader.document_eq_error hread]
      cases s <;> exact congrArg Except.error (Except.error.inj h)

end NatSpec.Json
