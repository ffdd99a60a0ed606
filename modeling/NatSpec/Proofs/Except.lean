import Mathlib.Data.List.Forall2
import NatSpec.Problem

/-!
Computations that may fail. A sequence succeeds when both of its parts do, and a fold that
succeeds keeps what each of its steps keeps.
-/

namespace NatSpec

universe u v

variable {ε : Type u} {σ α β : Type v}

theorem ok_bind (a : α) (f : α → Except ε β) : (Except.ok a >>= f) = f a := rfl

theorem bind_eq_ok_iff {x : Except ε α} {f : α → Except ε β} {b : β} :
    (x >>= f) = .ok b ↔ ∃ a, x = .ok a ∧ f a = .ok b := by
  cases x with
  | error e => simp [bind, Except.bind]
  | ok a => simp [bind, Except.bind]

theorem bind_eq_error_iff {x : Except ε α} {f : α → Except ε β} {e : ε} :
    (x >>= f) = .error e ↔ x = .error e ∨ ∃ a, x = .ok a ∧ f a = .error e := by
  cases x with
  | error e => simp [bind, Except.bind]
  | ok a => simp [bind, Except.bind]

/-- What each successful step of a fold keeps, a successful fold keeps. What is kept may depend on the
items that the fold has gone through. -/
theorem foldlM_keeps_behind {step : σ → α → Except ε σ} {I : List α → σ → Prop} {items : List α}
    {s s' : σ} (hstep : ∀ done a rest, items = done ++ a :: rest →
      ∀ s s', I done s → step s a = .ok s' → I (done ++ [a]) s')
    (h : items.foldlM step s = .ok s') (hs : I [] s) : I items s' := by
  -- From any state behind a part of the items, since each step starts from another one.
  suffices hfold : ∀ rest done s, items = done ++ rest → I done s →
      rest.foldlM step s = .ok s' → I items s' from hfold items [] s rfl hs h
  intro rest
  induction rest with
  | nil =>
      rintro done s hitems hs h
      obtain rfl := Except.ok.inj h
      rwa [hitems, List.append_nil]
  | cons a rest ih =>
      rintro done s hitems hs h
      rw [List.foldlM_cons, bind_eq_ok_iff] at h
      obtain ⟨t, ht, h⟩ := h
      refine ih (done ++ [a]) t ?_ (hstep done a rest hitems s t hs ht) h
      rw [hitems, List.append_assoc, List.singleton_append]

/-- What each successful step of a fold with one of its items keeps, a successful fold keeps. -/
theorem foldlM_keeps_of_mem {step : σ → α → Except ε σ} {I : σ → Prop} {items : List α} {s s' : σ}
    (hstep : ∀ s, ∀ a ∈ items, ∀ s', I s → step s a = .ok s' → I s')
    (h : items.foldlM step s = .ok s') (hs : I s) : I s' := by
  refine foldlM_keeps_behind (I := fun _ => I) (fun done a rest hitems s s' => ?_) h hs
  exact hstep s a (by simp [hitems]) s'

theorem foldlM_keeps {step : σ → α → Except ε σ} {I : σ → Prop}
    (hstep : ∀ s a s', I s → step s a = .ok s' → I s') {items : List α} {s s' : σ}
    (h : items.foldlM step s = .ok s') (hs : I s) : I s' :=
  foldlM_keeps_of_mem (fun s a _ => hstep s a) h hs

/-- A fold succeeds when what each of its steps asks of its item holds. -/
theorem exists_foldlM_eq_ok_iff {step : σ → α → Except ε σ} {P : α → Prop}
    (hstep : ∀ s a, (∃ s', step s a = .ok s') ↔ P a) {items : List α} {s : σ} :
    (∃ s', items.foldlM step s = .ok s') ↔ ∀ a ∈ items, P a := by
  induction items generalizing s with
  | nil => exact ⟨fun _ => by simp, fun _ => ⟨s, rfl⟩⟩
  | cons a items ih =>
      rw [List.foldlM_cons, List.forall_mem_cons, ← hstep s]
      constructor
      · rintro ⟨s', h⟩
        obtain ⟨next, hnext, h⟩ := bind_eq_ok_iff.1 h
        exact ⟨⟨next, hnext⟩, ih.1 ⟨s', h⟩⟩
      · rintro ⟨⟨next, hnext⟩, hrest⟩
        obtain ⟨s', h⟩ := ih.2 hrest
        exact ⟨s', bind_eq_ok_iff.2 ⟨next, hnext, h⟩⟩

/-- A fold in which success of a step is a matter of its item fails as the first item of another
kind. -/
theorem foldlM_eq_error_iff {step : σ → α → Except ε σ} {P : α → Prop} {F : α → ε → Prop}
    (hok : ∀ s a, (∃ s', step s a = .ok s') ↔ P a) (herror : ∀ s a e, step s a = .error e ↔ F a e)
    {items : List α} {s : σ} {e : ε} : items.foldlM step s = .error e ↔
      ∃ done a rest, items = done ++ a :: rest ∧ (∀ b ∈ done, P b) ∧ F a e := by
  induction items generalizing s with
  | nil =>
      constructor
      · rintro ⟨⟩
      · rintro ⟨done, a, rest, hitems, -⟩
        simp at hitems
  | cons first items ih =>
      rw [List.foldlM_cons, bind_eq_error_iff]
      constructor
      · rintro (h | ⟨next, hnext, h⟩)
        · exact ⟨[], first, items, rfl, by simp, (herror ..).1 h⟩
        · obtain ⟨done, a, rest, rfl, hdone, ha⟩ := ih.1 h
          have hfirst : P first := (hok s first).1 ⟨next, hnext⟩
          exact ⟨first :: done, a, rest, rfl, List.forall_mem_cons.2 ⟨hfirst, hdone⟩, ha⟩
      · rintro ⟨done, a, rest, hitems, hdone, ha⟩
        cases done with
        | nil =>
            obtain ⟨rfl, rfl⟩ := List.cons.inj hitems
            exact .inl ((herror ..).2 ha)
        | cons b done =>
            obtain ⟨rfl, rfl⟩ := List.cons.inj hitems
            obtain ⟨hfirst, hdone⟩ := List.forall_mem_cons.1 hdone
            obtain ⟨next, hnext⟩ := (hok s first).2 hfirst
            exact .inr ⟨next, hnext, ih.2 ⟨done, a, rest, rfl, hdone, ha⟩⟩

/-- A sequence of computations all of which succeed. -/
theorem mapM_eq_ok {f : α → Except ε β} {g : α → β} (items : List α)
    (h : ∀ a ∈ items, f a = .ok (g a)) : items.mapM f = .ok (items.map g) := by
  induction items with
  | nil => rfl
  | cons a items ih =>
      rw [List.mapM_cons, h a (List.mem_cons_self ..), ok_bind,
        ih fun b hb => h b (List.mem_cons_of_mem _ hb)]
      rfl

theorem exists_left_of_forall₂ {R : α → β → Prop} {items : List α} {found : List β}
    (h : List.Forall₂ R items found) {b : β} (hb : b ∈ found) : ∃ a ∈ items, R a b := by
  induction h with
  | nil => cases hb
  | cons hab _ ih =>
      rcases List.mem_cons.1 hb with rfl | hb
      · exact ⟨_, List.mem_cons_self, hab⟩
      · obtain ⟨a, ha, hR⟩ := ih hb
        exact ⟨a, List.mem_cons_of_mem _ ha, hR⟩

theorem exists_right_of_forall₂ {R : α → β → Prop} {items : List α} {found : List β}
    (h : List.Forall₂ R items found) {a : α} (ha : a ∈ items) : ∃ b ∈ found, R a b := by
  have hflip : List.Forall₂ (flip R) found items := List.Forall₂.flip h
  exact exists_left_of_forall₂ hflip ha

/-- A sequence of computations succeeds when each of them does, with their results in order. -/
theorem mapM_eq_ok_iff {f : α → Except ε β} {items : List α} {results : List β} :
    items.mapM f = .ok results ↔ List.Forall₂ (fun a b => f a = .ok b) items results := by
  induction items generalizing results with
  | nil => cases results <;> simp [pure, Except.pure]
  | cons a items ih =>
      rw [List.mapM_cons, bind_eq_ok_iff, List.forall₂_cons_left_iff]
      constructor
      · rintro ⟨b, hb, h⟩
        obtain ⟨bs, hbs, h⟩ := bind_eq_ok_iff.1 h
        obtain rfl := Except.ok.inj h
        exact ⟨b, bs, hb, ih.1 hbs, rfl⟩
      · rintro ⟨b, bs, hb, hbs, rfl⟩
        exact ⟨b, hb, bind_eq_ok_iff.2 ⟨bs, ih.2 hbs, rfl⟩⟩

/-- A sequence of computations each of which has one result under a condition. -/
theorem mapM_eq_ok_iff_map {f : α → Except ε β} {P : α → Prop} {g : α → β}
    (hf : ∀ a b, f a = .ok b ↔ P a ∧ g a = b) {items : List α} {results : List β} :
    items.mapM f = .ok results ↔ (∀ a ∈ items, P a) ∧ items.map g = results := by
  rw [mapM_eq_ok_iff]
  simp only [hf]
  induction items generalizing results with
  | nil => simp [eq_comm]
  | cons a items ih =>
      rw [List.forall₂_cons_left_iff, List.forall_mem_cons, List.map_cons]
      constructor
      · rintro ⟨b, bs, ⟨ha, rfl⟩, hbs, rfl⟩
        obtain ⟨hitems, rfl⟩ := ih.1 hbs
        exact ⟨⟨ha, hitems⟩, rfl⟩
      · rintro ⟨⟨ha, hitems⟩, rfl⟩
        exact ⟨g a, items.map g, ⟨ha, rfl⟩, ih.2 ⟨hitems, rfl⟩, rfl⟩

/-- Partners for the items of a list make a list of partners. -/
theorem exists_forall₂_iff {R : α → β → Prop} {items : List α} :
    (∃ found, List.Forall₂ R items found) ↔ ∀ a ∈ items, ∃ b, R a b := by
  induction items with
  | nil => simp
  | cons a items ih =>
      rw [List.forall_mem_cons, ← ih]
      constructor
      · rintro ⟨found, h⟩
        obtain ⟨b, bs, hb, hbs, rfl⟩ := List.forall₂_cons_left_iff.1 h
        exact ⟨⟨b, hb⟩, bs, hbs⟩
      · rintro ⟨⟨b, hb⟩, bs, hbs⟩
        exact ⟨b :: bs, .cons hb hbs⟩

theorem exists_mapM_eq_ok_iff {f : α → Except ε β} {items : List α} :
    (∃ results, items.mapM f = .ok results) ↔ ∀ a ∈ items, ∃ b, f a = .ok b := by
  simp only [mapM_eq_ok_iff]
  exact exists_forall₂_iff

/-- A computation that meets no fault does not fail. -/
theorem liftM_ok {γ : Type} (a : γ) :
    (liftM (Except.ok a : Except Fault γ) : Except Failure γ) = .ok a := rfl

theorem liftM_eq_ok_iff {γ : Type} {x : Except Fault γ} {a : γ} :
    (liftM x : Except Failure γ) = .ok a ↔ x = .ok a := by
  cases x with
  | ok b => rw [liftM_ok, Except.ok.injEq, Except.ok.injEq]
  | error f =>
      constructor
      · rintro ⟨⟩
      · rintro ⟨⟩

theorem liftM_eq_error_iff {γ : Type} {x : Except Fault γ} {f : Failure} :
    (liftM x : Except Failure γ) = .error f ↔ ∃ g, x = .error g ∧ f = .fault g := by
  cases x with
  | ok b =>
      constructor
      · rintro ⟨⟩
      · rintro ⟨g, ⟨⟩, -⟩
  | error g =>
      constructor
      · rintro ⟨⟩
        exact ⟨g, rfl, rfl⟩
      · rintro ⟨g', ⟨⟩, rfl⟩
        rfl

end NatSpec
