import NatSpec.Proofs.FileTree.Made

/-!
What writing lays down. A computation that only makes directories and writes texts leaves each of its
entries where its path leads, later ones over earlier ones, with directories above them, and all else
as it was (`Laid`). From a tree that holds these entries already it does the same once more
(`Settles`).
-/

namespace NatSpec.FileTree

variable {t t' t'' : FileTree} {place target dest : Location}

/-! ### Entries that are laid down -/

/-- The entries stand in their places, later ones over earlier ones, with directories above them, and
everything else is as it was. -/
structure Laid (items : List (Location × Entry)) (t t' : FileTree) : Prop where
  grows : Grows (fun _ => True) t t'
  item : ∀ place entry, (Table.ofList items).get? place = some entry → t'.at? place = some entry
  above : ∀ i ∈ items, t'.Founded i.1
  rest : ∀ place, (∀ i ∈ items, ¬place <+: i.1) → t'.at? place = t.at? place

variable {items others : List (Location × Entry)}

namespace Laid

theorem nil : Laid [] t t where
  grows := .refl
  item _ _ h := by cases h
  above := by simp
  rest _ _ := rfl

theorem append (h : Laid items t t') (h' : Laid others t' t'') : Laid (items ++ others) t t'' where
  grows := trans_of (Grows _) h.grows h'.grows
  item place entry hentry := by
    rw [Table.get?_ofList_append] at hentry
    cases hothers : (Table.ofList others).get? place with
    | some last =>
        rw [hothers] at hentry
        exact h'.item place entry (hothers.trans hentry)
    | none =>
        rw [hothers] at hentry
        have hat := h.item place entry hentry
        have hbecomes := h'.grows.becomes place
        by_cases habove : ∃ i ∈ others, place <+: i.1
        · -- Only a directory can have become a directory.
          obtain ⟨i, hi, hup⟩ := habove
          have hne : place ≠ i.1 := by
            rintro rfl
            obtain ⟨last, hlast⟩ := Table.exists_get?_ofList hi
            rw [hothers] at hlast
            cases hlast
          have hdirectory := h'.above i hi place hup hne
          rw [hat, hdirectory] at hbecomes
          rw [hdirectory]
          cases hbecomes with
          | same => rfl
        · rw [h'.rest place fun i hi hup => habove ⟨i, hi, hup⟩, hat]
  above i hi := by
    rcases List.mem_append.1 hi with hmem | hmem
    · exact (h.above i hmem).grows h'.grows
    · exact h'.above i hmem
  rest place hplace := by
    have hothers (i : Location × Entry) (hi : i ∈ others) : ¬place <+: i.1 :=
      hplace i (List.mem_append_right _ hi)
    have hitems (i : Location × Entry) (hi : i ∈ items) : ¬place <+: i.1 :=
      hplace i (List.mem_append_left _ hi)
    rw [h'.rest place hothers, h.rest place hitems]

/-- What was laid down twice is as it was after the first time. -/
theorem at?_eq (h : Laid items t t') (h' : Laid items t' t'') (place : Location) :
    t''.at? place = t'.at? place := by
  cases hentry : (Table.ofList items).get? place with
  | some entry => rw [h.item place entry hentry, h'.item place entry hentry]
  | none =>
      by_cases habove : ∃ i ∈ items, place <+: i.1
      · obtain ⟨i, hi, hup⟩ := habove
        have hne : place ≠ i.1 := by
          rintro rfl
          obtain ⟨last, hlast⟩ := Table.exists_get?_ofList hi
          rw [hentry] at hlast
          cases hlast
        rw [h.above i hi place hup hne, h'.above i hi place hup hne]
      · exact h'.rest place fun i hi hup => habove ⟨i, hi, hup⟩

/-- A file that is new or changed is one of the entries. -/
theorem mem_of_file (h : Laid items t t') {content : ByteArray}
    (hat : t'.at? place = some (.file content)) (hnew : t.at? place ≠ some (.file content)) :
    (place, .file content) ∈ items := by
  by_cases habove : ∃ i ∈ items, place <+: i.1
  · obtain ⟨i, hi, hup⟩ := habove
    by_cases hne : place = i.1
    · subst hne
      obtain ⟨entry, hentry⟩ := Table.exists_get?_ofList hi
      obtain rfl := Option.some.inj ((h.item _ entry hentry).symm.trans hat)
      exact Table.mem_of_get?_ofList hentry
    · cases (h.above i hi place hup hne).symm.trans hat
  · rw [h.rest place fun i hi hup => habove ⟨i, hi, hup⟩] at hat
    exact absurd hat hnew

theorem of_directory (hfounded : t.Founded dest) (hat : t.at? dest = some .directory) :
    Laid [(dest, .directory)] t t where
  grows := .refl
  item other entry hentry := by
    obtain ⟨rfl, rfl⟩ := Prod.mk.inj (List.mem_singleton.1 (Table.mem_of_get?_ofList hentry))
    exact hat
  above i hi := by
    obtain rfl := List.mem_singleton.1 hi
    exact hfounded
  rest _ _ := rfl

theorem of_made (hmade : Made dest t t') (hgrows : Grows (fun _ => True) t t') :
    Laid [(dest, .directory)] t t' where
  grows := hgrows
  item other entry hentry := by
    obtain ⟨rfl, rfl⟩ := Prod.mk.inj (List.mem_singleton.1 (Table.mem_of_get?_ofList hentry))
    rw [hmade.at?, if_pos List.prefix_rfl]
  above i hi upper hupper hne := by
    obtain rfl := List.mem_singleton.1 hi
    rw [hmade.at?, if_pos hupper]
  rest other hother := by rw [hmade.at?, if_neg (hother _ List.mem_cons_self)]

/-- A file is laid down if it is put where its directory is. -/
theorem of_put (hne : dest ≠ []) (hfounded : t.Founded dest) {text : String}
    (hold : ∀ entry, t.at? dest = some entry → ∃ content, entry = .file content) :
    Laid [(dest, .file text.toUTF8)] t (t.put dest (.file text.toUTF8)) where
  grows := .put_text trivial hne hold
  item other entry hentry := by
    obtain ⟨rfl, rfl⟩ := Prod.mk.inj (List.mem_singleton.1 (Table.mem_of_get?_ofList hentry))
    rw [at?_put hne, if_pos rfl]
  above i hi upper hupper hupper' := by
    obtain rfl := List.mem_singleton.1 hi
    rw [at?_put hne, if_neg (Ne.symm hupper'), hfounded upper hupper hupper']
  rest other hother := by
    rw [at?_put hne, if_neg]
    rintro rfl
    exact hother _ List.mem_cons_self List.prefix_rfl

/-- What is made on the way to an entry is laid down with it. -/
theorem of_way {file : Entry} (h : Laid [(dest, file)] t' t'')
    (hgrows : Grows (fun _ => True) t t')
    (hway : ∀ other, ¬other <+: dest → t'.at? other = t.at? other) :
    Laid [(dest, file)] t t'' where
  grows := trans_of (Grows _) hgrows h.grows
  item := h.item
  above := h.above
  rest other hother := (h.rest other hother).trans (hway other (hother _ List.mem_cons_self))

end Laid

/-! ### Computations that lay down the same again -/

/-- A computation from a tree gives a result and lays down entries, and does so once more from every
tree that has grown from the tree it leaves. -/
structure Settles {ε α : Type} (items : List (Location × Entry)) (x : ExceptT ε (StateM FileTree) α)
    (t : FileTree) (a : α) (t' : FileTree) : Prop where
  run : x t = (.ok a, t')
  tidy : t'.Tidy
  laid : Laid items t t'
  again : ∀ s, s.Tidy → Grows (fun _ => True) t' s →
    ∃ s', x s = (.ok a, s') ∧ s'.Tidy ∧ Laid items s s'

namespace Settles

variable {ε ε' α β : Type}

theorem pure (h : t.Tidy) (a : α) :
    Settles [] (pure a : ExceptT ε (StateM FileTree) α) t a t :=
  ⟨rfl, h, .nil, fun s hs _ => ⟨s, rfl, hs, .nil⟩⟩

theorem bind {x : ExceptT ε (StateM FileTree) α} {f : α → ExceptT ε (StateM FileTree) β} {a : α}
    {b : β} (hx : Settles items x t a t') (hf : Settles others (f a) t' b t'') :
    Settles (items ++ others) (x >>= f) t b t'' where
  run := (bind_apply_of_ok f hx.run).trans hf.run
  tidy := hf.tidy
  laid := hx.laid.append hf.laid
  again s hs hgrows := by
    obtain ⟨s₁, hrun, hs₁, hlaid⟩ := hx.again s hs (trans_of (Grows _) hf.laid.grows hgrows)
    obtain ⟨s₂, hrun', hs₂, hlaid'⟩ := hf.again s₁ hs₁ (trans_of (Grows _) hgrows hlaid.grows)
    exact ⟨s₂, (bind_apply_of_ok f hrun).trans hrun', hs₂, hlaid.append hlaid'⟩

/-- A computation settles what another one settles that does the same. -/
theorem imp {x : ExceptT ε (StateM FileTree) α} {y : ExceptT ε' (StateM FileTree) β} {a : α} {b : β}
    (h : Settles items x t a t') (hrun : ∀ s s', x s = (.ok a, s') → y s = (.ok b, s')) :
    Settles items y t b t' where
  run := hrun t t' h.run
  tidy := h.tidy
  laid := h.laid
  again s hs hgrows := by
    obtain ⟨s', hs', htidy, hlaid⟩ := h.again s hs hgrows
    exact ⟨s', hrun s s' hs', htidy, hlaid⟩

theorem liftFiling {x : Filing α} {a : α} (h : Settles items x t a t') :
    Settles items (liftM x : Run α) t a t' :=
  h.imp fun _ _ => liftFiling_apply_of_ok

theorem tryCatch {x : ExceptT ε (StateM FileTree) α} {a : α} (h : Settles items x t a t')
    (f : ε → ExceptT ε (StateM FileTree) α) : Settles items (tryCatch x f) t a t' :=
  h.imp fun _ _ => tryCatch_apply_of_ok f

/-- What only reads does not matter to what is laid down. -/
theorem of_liftFault {x : Except Fault α} {f : α → Run β} {a : α} {b : β} (hx : x = .ok a)
    (hf : Settles items (f a) t b t') : Settles items (liftM x >>= f : Run β) t b t' := by
  refine hf.imp fun s s' hs => ?_
  have hrun : (liftM x : Run α) s = (.ok a, s) := by
    rw [liftFault_apply, hx]
    rfl
  rwa [bind_apply_of_ok f hrun]

theorem map {x : ExceptT ε (StateM FileTree) α} {a : α} (hx : Settles items x t a t')
    (g : α → β) :
    Settles items (x >>= fun a => Pure.pure (g a) : ExceptT ε (StateM FileTree) β) t (g a) t' :=
  hx.imp fun _ _ hs => bind_apply_of_ok _ hs

/-- Run again at once, the computation gives the same and leaves the tree as it was. -/
theorem twice {x : ExceptT ε (StateM FileTree) α} {a : α} (h : Settles items x t a t') :
    ∃ s, x t' = (.ok a, s) ∧ s.Tidy ∧ ∀ place, s.at? place = t'.at? place := by
  obtain ⟨s, hrun, hs, hlaid⟩ := h.again t' h.tidy .refl
  exact ⟨s, hrun, hs, h.laid.at?_eq hlaid⟩

end Settles

theorem settles_makeDirectories (htidy : t.Tidy) (hdotless : Dotless target)
    (h : makeDirectories (.ofTop target) t = (.ok (), t')) :
    ∃ dest, t'.locate true (.ofTop target) = .ok (dest, some .directory) ∧
      Settles [(dest, .directory)] (makeDirectories (.ofTop target)) t () t' := by
  have hensured := ensured_of_makeDirectories htidy hdotless h
  have htidy' : t'.Tidy := by
    have hkept := (respects_makeDirectories target).tidy htidy
    rwa [h] at hkept
  have hgrows : Grows (fun _ => True) t t' := by
    have hkept := makeDirectories_grows (P := fun _ => True) (.ofTop target) t
    rwa [h] at hkept
  obtain ⟨dest, hdest, hlaid⟩ : ∃ dest, t'.locate true (.ofTop target) = .ok (dest, some .directory) ∧
      Laid [(dest, .directory)] t t' := by
    rcases hensured.cases with ⟨hthere, rfl⟩ | ⟨-, dest, hmade, hlocate⟩
    · obtain ⟨-, dest, hdest⟩ := isDirectory_eq_true_iff.1 hthere
      obtain ⟨hat, hfounded⟩ := founded_of_locate htidy hdest
      exact ⟨dest, hdest, .of_directory hfounded hat⟩
    · exact ⟨dest, locate_true_of_false hlocate fun _ _ => nofun, .of_made hmade hgrows⟩
  refine ⟨dest, hdest, h, htidy', hlaid, fun s hs hgrown => ?_⟩
  obtain ⟨hat, -⟩ := founded_of_locate htidy' hdest
  have hat' := hgrown.keeps.directory dest hat
  exact ⟨s, hensured.again htidy' hgrown.keeps hs, hs, .of_directory (hs.founded hat') hat'⟩

/-- A text that is written with the directories above it is laid down as one file where its path
leads. -/
theorem settles_writeText (htidy : t.Tidy) (hdotless : Dotless target) {text : String}
    (hmake : makeDirectories (.ofTop target.dropLast) t = (.ok (), t'))
    (hwrite : writeText (.ofTop target) text t' = (.ok (), t'')) :
    ∃ dest, t''.locate true (.ofTop target) = .ok (dest, some (.file text.toUTF8)) ∧
      Settles [(dest, .file text.toUTF8)]
        (makeDirectories (.ofTop target.dropLast) >>= fun _ => writeText (.ofTop target) text)
        t () t'' := by
  obtain ⟨upper, hupper, hmade⟩ :=
    settles_makeDirectories htidy (hdotless.of_prefix target.dropLast_prefix) hmake
  obtain ⟨dest, entry, hnull, hne, hlocate, hfounded, hat, hdirectory, rfl⟩ :=
    exists_of_writeText hmade.tidy hwrite
  obtain ⟨above, name, rfl⟩ : ∃ above name, target = above ++ [name] := by
    refine ⟨_, _, (List.dropLast_append_getLast ?_).symm⟩
    rintro rfl
    obtain ⟨rfl, -⟩ := Prod.mk.inj (Except.ok.inj (locate_nil.symm.trans hlocate))
    exact hne rfl
  rw [List.dropLast_concat] at hmake hmade ⊢
  have hold : ∀ stands, t'.at? dest = some stands → ∃ content, stands = .file content := by
    rintro stands hstands
    rw [hat] at hstands
    subst hstands
    cases stands with
    | file content => exact ⟨content, rfl⟩
    | directory => exact absurd rfl hdirectory
    | link link =>
        rcases locate_eq_ok hlocate with hdir | ⟨-, -, hlink⟩
        · cases hdir
        · exact absurd rfl (hlink rfl link)
  have hensured := ensured_of_makeDirectories htidy
    (hdotless.of_prefix (List.prefix_append above [name])) hmake
  have hlaid : Laid [(dest, .file text.toUTF8)] t (t'.put dest (.file text.toUTF8)) := by
    refine (Laid.of_put hne hfounded hold).of_way hmade.laid.grows fun other hother => ?_
    exact hensured.at?_eq htidy (fun heq => hdotless.noDot (by simp [heq]))
      (fun heq => hdotless.noDots (by simp [heq])) hlocate hother
  have htidy'' : (t'.put dest (.file text.toUTF8)).Tidy :=
    hmade.tidy.put hne hfounded fun hthere => absurd (hat.symm.trans hthere) hdirectory
  have hfile : (t'.put dest (.file text.toUTF8)).at? dest = some (.file text.toUTF8) := by
    rw [at?_put hne, if_pos rfl]
  have hgrows : Grows (fun _ => True) t' (t'.put dest (.file text.toUTF8)) :=
    .put_text trivial hne hold
  have hlocate' := hgrows.keeps.locate htidy'' hlocate fun _ _ link hlink => by
    cases hfile.symm.trans hlink
  rw [hfile] at hlocate'
  refine ⟨dest, hlocate', (bind_apply_of_ok _ hmake).trans hwrite, htidy'', hlaid,
    fun s hs hgrown => ?_⟩
  -- The directories and the file are there, so the text is written over itself.
  have hmake' := hensured.again hmade.tidy (trans_of (Grows _) hgrows hgrown).keeps hs
  obtain ⟨content, hcontent⟩ := hgrown.keeps.file dest _ hfile
  have hthere := hgrown.keeps.locate hs hlocate' nofun
  rw [hcontent] at hthere
  have hfounded' := hs.founded hcontent
  refine ⟨_, (bind_apply_of_ok _ hmake').trans (writeText_of_locate hnull hthere text),
    hs.put hne hfounded' fun hdir => (by cases hdir.symm.trans hcontent),
    Laid.of_put hne hfounded' fun stands hstands => ?_⟩
  exact ⟨content, Option.some.inj (hstands.symm.trans hcontent)⟩

end NatSpec.FileTree
