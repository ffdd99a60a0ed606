import Mathlib.Order.Defs.Unbundled
import NatSpec.Bundle.Render
import NatSpec.Proofs.Except

/-!
Computations on a state, run from a given one; for the most part the state is a file tree. The
second part of a sequence starts at the state that the first part leaves, and a computation whose
failure is caught keeps what it has changed. So a relation between trees that each part keeps holds
between the first and the last tree.
-/

namespace NatSpec

section Steps

variable {ε α β σ : Type} {t t' : σ}

theorem get_apply : (get : ExceptT ε (StateM σ) σ) t = (.ok t, t) := rfl

theorem pure_apply (a : α) : (pure a : ExceptT ε (StateM σ) α) t = (.ok a, t) := rfl

theorem bind_apply_of_ok {x : ExceptT ε (StateM σ) α} {a : α}
    (f : α → ExceptT ε (StateM σ) β) (h : x t = (.ok a, t')) : (x >>= f) t = f a t' := by
  simp only [bind, ExceptT.bind, ExceptT.mk, StateT.bind, h, ExceptT.bindCont]

theorem bind_apply_of_error {x : ExceptT ε (StateM σ) α} {e : ε}
    (f : α → ExceptT ε (StateM σ) β) (h : x t = (.error e, t')) :
    (x >>= f) t = (.error e, t') := by
  simp only [bind, ExceptT.bind, ExceptT.mk, StateT.bind, h, ExceptT.bindCont]
  rfl

theorem exists_of_bind_apply {x : ExceptT ε (StateM σ) α}
    {f : α → ExceptT ε (StateM σ) β} {b : β} (h : (x >>= f) t = (.ok b, t')) :
    ∃ a t₁, x t = (.ok a, t₁) ∧ f a t₁ = (.ok b, t') := by
  obtain ⟨result, t₁, hxt⟩ : ∃ result t₁, x t = (result, t₁) := ⟨_, _, rfl⟩
  cases result with
  | error e =>
      rw [bind_apply_of_error f hxt] at h
      cases h
  | ok a =>
      rw [bind_apply_of_ok f hxt] at h
      exact ⟨a, t₁, hxt, h⟩

theorem tryCatch_apply_of_ok {x : ExceptT ε (StateM σ) α} {a : α}
    (f : ε → ExceptT ε (StateM σ) α) (h : x t = (.ok a, t')) :
    (tryCatch x f) t = (.ok a, t') := by
  simp only [tryCatch, tryCatchThe, MonadExceptOf.tryCatch, ExceptT.tryCatch, ExceptT.mk, bind,
    StateT.bind, h]
  rfl

theorem tryCatch_apply_of_error {x : ExceptT ε (StateM σ) α} {e : ε}
    (f : ε → ExceptT ε (StateM σ) α) (h : x t = (.error e, t')) :
    (tryCatch x f) t = f e t' := by
  simp only [tryCatch, tryCatchThe, MonadExceptOf.tryCatch, ExceptT.tryCatch, ExceptT.mk, bind,
    StateT.bind, h]

/-- A computation that does not touch the state, as a part of one that may. -/
theorem liftExcept_apply (x : Except ε α) :
    (liftM x : ExceptT ε (StateM σ) α) t = (x, t) := rfl

end Steps

section Lifts

variable {ε α β : Type} {t t' : FileTree}

theorem liftFiling_apply_of_ok {x : Filing α} {a : α} (h : x t = (.ok a, t')) :
    (liftM x : Run α) t = (.ok a, t') := by
  simp only [liftM, monadLift, MonadLift.monadLift, h]

theorem liftFiling_apply_of_error {x : Filing α} {f : Fault} (h : x t = (.error f, t')) :
    (liftM x : Run α) t = (.error (.fault f), t') := by
  simp only [liftM, monadLift, MonadLift.monadLift, h]

theorem of_liftFiling_apply {x : Filing α} {a : α} (h : (liftM x : Run α) t = (.ok a, t')) :
    x t = (.ok a, t') := by
  obtain ⟨result, t₁, hxt⟩ : ∃ result t₁, x t = (result, t₁) := ⟨_, _, rfl⟩
  cases result with
  | error f =>
      rw [liftFiling_apply_of_error hxt] at h
      cases h
  | ok b =>
      rw [liftFiling_apply_of_ok hxt] at h
      cases h
      exact hxt

/-- A run asks for the tree as a computation on it does. -/
theorem getRun_apply : (get : Run FileTree) t = (.ok t, t) := rfl

theorem liftFault_apply (x : Except Fault α) :
    (liftM x : Run α) t = ((liftM x : Except Failure α), t) := rfl

theorem of_liftFault_apply {x : Except Fault α} {a : α}
    (h : (liftM x : Run α) t = (.ok a, t')) : x = .ok a ∧ t = t' := by
  obtain ⟨hx, ht⟩ := Prod.mk.inj ((liftFault_apply x).symm.trans h)
  exact ⟨liftM_eq_ok_iff.1 hx, ht⟩

theorem of_pure_apply {a b : α}
    (h : (pure a : ExceptT ε (StateM FileTree) α) t = (.ok b, t')) : a = b ∧ t = t' := by
  obtain ⟨ha, ht⟩ := Prod.mk.inj h
  exact ⟨Except.ok.inj ha, ht⟩

end Lifts

/-! ### Relations between the first tree and the last one -/

section Relations

variable {ε α β : Type} {t : FileTree} {R : FileTree → FileTree → Prop}

theorem related_bind [IsTrans FileTree R] {x : ExceptT ε (StateM FileTree) α}
    {f : α → ExceptT ε (StateM FileTree) β} (hx : R t (x t).2)
    (hf : ∀ a t', x t = (.ok a, t') → R t' (f a t').2) : R t ((x >>= f) t).2 := by
  obtain ⟨result, t', hxt⟩ : ∃ result t', x t = (result, t') := ⟨_, _, rfl⟩
  rw [hxt] at hx
  cases result with
  | error e =>
      rw [bind_apply_of_error f hxt]
      exact hx
  | ok a =>
      rw [bind_apply_of_ok f hxt]
      exact IsTrans.trans _ _ _ hx (hf a t' hxt)

theorem related_tryCatch [IsTrans FileTree R] {x : ExceptT ε (StateM FileTree) α}
    {f : ε → ExceptT ε (StateM FileTree) α} (hx : R t (x t).2)
    (hf : ∀ e t', x t = (.error e, t') → R t' (f e t').2) : R t ((tryCatch x f) t).2 := by
  obtain ⟨result, t', hxt⟩ : ∃ result t', x t = (result, t') := ⟨_, _, rfl⟩
  rw [hxt] at hx
  cases result with
  | error e =>
      rw [tryCatch_apply_of_error f hxt]
      exact IsTrans.trans _ _ _ hx (hf e t' hxt)
  | ok a =>
      rw [tryCatch_apply_of_ok f hxt]
      exact hx

/-- A computation on a tree changes as part of a run what it changes on its own. -/
theorem liftFiling_apply_snd (x : Filing α) : ((liftM x : Run α) t).2 = (x t).2 := by
  obtain ⟨result, t', hxt⟩ : ∃ result t', x t = (result, t') := ⟨_, _, rfl⟩
  cases result with
  | error f => rw [liftFiling_apply_of_error hxt, hxt]
  | ok a => rw [liftFiling_apply_of_ok hxt, hxt]

/-- Two computations on a tree are parts of a run one after the other. -/
theorem liftFiling_bind (x : Filing α) (f : α → Filing β) :
    (liftM (x >>= f) : Run β) = liftM x >>= fun a => liftM (f a) := by
  funext t
  obtain ⟨result, t', hxt⟩ : ∃ result t', x t = (result, t') := ⟨_, _, rfl⟩
  cases result with
  | error fault =>
      rw [bind_apply_of_error _ (liftFiling_apply_of_error hxt),
        liftFiling_apply_of_error (bind_apply_of_error f hxt)]
  | ok a =>
      rw [bind_apply_of_ok _ (liftFiling_apply_of_ok hxt)]
      simp only [liftM, monadLift, MonadLift.monadLift, bind_apply_of_ok f hxt]

/-- The result of a computation may be replaced without changing more. -/
theorem bind_pure_apply_snd (x : ExceptT ε (StateM FileTree) α) (f : α → β) :
    ((x >>= fun a => pure (f a)) t).2 = (x t).2 := by
  obtain ⟨result, t', hxt⟩ : ∃ result t', x t = (result, t') := ⟨_, _, rfl⟩
  cases result with
  | error e => rw [bind_apply_of_error _ hxt, hxt]
  | ok a => rw [bind_apply_of_ok _ hxt, hxt, pure_apply]

/-- From a tree with a property one comes to related trees, and to such with the property only. -/
def Keeping (I : FileTree → Prop) (R : FileTree → FileTree → Prop) (t t' : FileTree) : Prop :=
  I t → I t' ∧ R t t'

instance {I : FileTree → Prop} [IsPreorder FileTree R] : IsPreorder FileTree (Keeping I R) where
  refl t hI := ⟨hI, refl_of R t⟩
  trans _ _ _ hab hbc hI := by
    obtain ⟨hI', hR⟩ := hab hI
    obtain ⟨hI'', hR'⟩ := hbc hI'
    exact ⟨hI'', trans_of R hR hR'⟩

end Relations

/-! ### How computations fail -/

/-- From every tree the computation succeeds or fails in one of the given ways. -/
def FailsBy {ε α : Type} (P : ε → Prop) (x : ExceptT ε (StateM FileTree) α) : Prop :=
  ∀ t e t', x t = (.error e, t') → P e

namespace FailsBy

variable {ε α β : Type} {P : ε → Prop}

theorem pure (a : α) : FailsBy P (pure a : ExceptT ε (StateM FileTree) α) := by
  intro t e t' h
  cases h

theorem throw {e : ε} (he : P e) : FailsBy P (throw e : ExceptT ε (StateM FileTree) α) := by
  intro t e' t' h
  cases h
  exact he

theorem bind {x : ExceptT ε (StateM FileTree) α} {f : α → ExceptT ε (StateM FileTree) β}
    (hx : FailsBy P x) (hf : ∀ a, FailsBy P (f a)) : FailsBy P (x >>= f) := by
  intro t e t' h
  obtain ⟨result, t₁, hxt⟩ : ∃ result t₁, x t = (result, t₁) := ⟨_, _, rfl⟩
  cases result with
  | error e₁ =>
      rw [bind_apply_of_error f hxt] at h
      cases h
      exact hx t _ _ hxt
  | ok a =>
      rw [bind_apply_of_ok f hxt] at h
      exact hf a t₁ e t' h

theorem tryCatch {Q : ε → Prop} {x : ExceptT ε (StateM FileTree) α}
    {f : ε → ExceptT ε (StateM FileTree) α} (hx : FailsBy Q x)
    (hf : ∀ e, Q e → FailsBy P (f e)) : FailsBy P (tryCatch x f) := by
  intro t e t' h
  obtain ⟨result, t₁, hxt⟩ : ∃ result t₁, x t = (result, t₁) := ⟨_, _, rfl⟩
  cases result with
  | error e₁ =>
      rw [tryCatch_apply_of_error f hxt] at h
      exact hf e₁ (hx t _ _ hxt) t₁ e t' h
  | ok a =>
      rw [tryCatch_apply_of_ok f hxt] at h
      cases h

end FailsBy

end NatSpec
