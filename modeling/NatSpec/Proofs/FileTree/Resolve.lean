import NatSpec.Proofs.FileTree.Leads
import NatSpec.Proofs.FileTree.Path

/-!
Resolved locations. A path that is followed to its end resolves to a place without links on the way,
and walking to such a place gets there or stops at what is missing. No location that is resolved
holds dots.
-/

namespace NatSpec.FileTree

variable {t : FileTree} {place : Location}

/-! ### Dots -/

/-- No link that has been met leads to a place with a single dot. -/
def NoDotIn (met : Table Location (Option Location)) : Prop :=
  ∀ link found, met.get? link = some (some found) → "." ∉ found

theorem NoDotIn.set {met : Table Location (Option Location)} (h : NoDotIn met) (link : Location)
    {value : Option Location} (hvalue : ∀ found, value = some found → "." ∉ found) :
    NoDotIn (met.set link value) := by
  intro other found hother
  rw [Table.get?_set] at hother
  split at hother
  · exact hvalue found (Option.some.inj hother)
  · exact h other found hother

theorem not_mem_targetStart {name : String} (hplace : name ∉ place) (target : String) :
    name ∉ targetStart place target := by
  unfold targetStart
  split
  · exact hplace
  · exact List.not_mem_nil

theorem noDot_follow {left : Nat} {met : Table Location (Option Location)} {parts : List String}
    (hplace : "." ∉ place) (hparts : "." ∉ parts) (hmet : NoDotIn met) :
    "." ∉ (t.follow left met place parts).place ∧ NoDotIn (t.follow left met place parts).met := by
  fun_induction follow t left met place parts with
  | case1 => exact ⟨hplace, hmet⟩
  | case2 left met place rest ih =>
      rw [List.mem_cons, not_or] at hparts
      exact ih (fun h => hplace (place.dropLast_prefix.subset h)) hparts.2 hmet
  | case3 met place name rest _ next _ _ found left hfound ih =>
      rw [List.mem_cons, not_or] at hparts
      exact ih (hmet next found hfound) hparts.2 hmet
  | case4 met place name rest _ next target _ inside _ inner _ ih _ ihRest =>
      rw [List.mem_cons, not_or] at hparts
      obtain ⟨hinner, hmet'⟩ := ih (not_mem_targetStart hplace target)
        (Path.noDot_components target.toList) (hmet.set next (by simp))
      refine ihRest hinner hparts.2 (hmet'.set next ?_)
      rintro found ⟨⟩
      exact hinner
  | case5 met place name rest _ next target _ inside _ inner _ ih =>
      rw [List.mem_cons, not_or] at hparts
      obtain ⟨hinner, hmet'⟩ := ih (not_mem_targetStart hplace target)
        (Path.noDot_components target.toList) (hmet.set next (by simp))
      refine ⟨?_, hmet'⟩
      rw [List.mem_append, not_or]
      exact ⟨hinner, hparts.2⟩
  | case6 left met place name rest _ next =>
      rw [List.mem_cons, not_or] at hparts
      refine ⟨?_, hmet⟩
      simp [next, hplace, hparts.1, hparts.2]
  | case7 left met place name rest _ next _ ih =>
      rw [List.mem_cons, not_or] at hparts
      exact ih (by simp [next, hplace, hparts.1]) hparts.2 hmet

/-- A path resolves to where it is followed, if walking there does not run into too many links. -/
theorem resolve_of_follow {p : Path} (hnull : holdsNull p = false)
    (hfollow : Path.normalize [] (t.follow t.linkCount [] (t.startOf p) p.parts).place = place)
    (hlocate : t.locate true (.ofTop place) ≠ .error .tooManyLinks) : t.resolve p = .ok place := by
  unfold resolve
  rw [if_neg (by simp [hnull])]
  dsimp only
  rw [hfollow]
  split
  · rename_i hreach
    exact absurd hreach hlocate
  · rfl

theorem resolve_of_locate {p : Path} {found : Location × Option Entry} (hnull : holdsNull p = false)
    (hfollow : Path.normalize [] (t.follow t.linkCount [] (t.startOf p) p.parts).place = place)
    (hlocate : t.locate true (.ofTop place) = .ok found) : t.resolve p = .ok place := by
  refine resolve_of_follow hnull hfollow ?_
  rw [hlocate]
  simp

theorem resolve_eq_ok {p : Path} (h : t.resolve p = .ok place) :
    place = Path.normalize [] (t.follow t.linkCount [] (t.startOf p) p.parts).place := by
  unfold resolve at h
  split at h
  · cases h
  · dsimp only at h
    split at h
    · cases h
    · exact (Except.ok.inj h).symm

/-- A resolved location holds no dots. -/
theorem dotless_of_resolve {p : Path} (h : t.resolve p = .ok place)
    (hstart : "." ∉ t.startOf p) (hp : "." ∉ p.parts) : Dotless place := by
  rw [resolve_eq_ok h]
  constructor
  · intro hmem
    have hmet : NoDotIn [] := by simp [NoDotIn, Table.get?]
    have hfollow : "." ∉ (t.follow t.linkCount [] (t.startOf p) p.parts).place :=
      (noDot_follow hstart hp hmet).1
    rcases Path.mem_normalize hmem with hmem | hmem
    · cases hmem
    · exact hfollow hmem
  · exact Path.noDots_normalize List.not_mem_nil _

/-! ### Components that lead somewhere -/

/-- A path resolves to where its components lead. -/
theorem resolve_of_leads {p : Path} {depth : Nat} {dest : Location}
    (hleads : t.Leads depth (t.startOf p) p.parts dest) (hdest : ".." ∉ dest)
    (h : t.resolve p = .ok place) : place = dest := by
  obtain ⟨met, hfollow⟩ := follow_of_leads hleads
  rw [resolve_eq_ok h, hfollow, Path.normalize_of_noDots [] hdest, List.nil_append]

theorem Leads.noDots {depth : Nat} {parts : List String} {dest : Location}
    (h : t.Leads depth place parts dest) (hplace : ".." ∉ place) : ".." ∉ dest := by
  induction h with
  | done => exact hplace
  | up _ ih => exact ih fun h => hplace (List.dropLast_prefix _ |>.subset h)
  | step hname _ _ ih => exact ih (by simp [hplace, Ne.symm hname])
  | link _ _ _ _ ihTarget ihRest => exact ihRest (ihTarget (not_mem_targetStart hplace _))

/-- If no link leads back to itself then every path resolves to a place without links on the way. -/
theorem LoopFree.plain_of_resolve (hloop : t.LoopFree) {p : Path} (hplain : t.Plain (t.startOf p))
    (hstart : ".." ∉ t.startOf p) (h : t.resolve p = .ok place) : t.Plain place := by
  obtain ⟨depth, dest, hleads⟩ := hloop.exists_leads (t.startOf p) p.parts
  obtain rfl := resolve_of_leads hleads (hleads.noDots hstart) h
  exact hleads.plain hplain

theorem leads_of_plain {parts : List String} (h : t.Plain (place ++ parts))
    (hparts : ".." ∉ parts) :
    t.Leads 0 place parts (place ++ parts) := by
  induction parts generalizing place with
  | nil =>
      rw [List.append_nil]
      exact .done
  | cons name rest ih =>
      rw [List.mem_cons, not_or] at hparts
      have happend : place ++ name :: rest = (place ++ [name]) ++ rest := by simp
      rw [happend] at h ⊢
      exact .step (Ne.symm hparts.1) (h _ (List.prefix_append ..)) (ih h hparts.2)

/-- A place without links on the way resolves to itself. -/
theorem resolve_of_plain {found : Location} (hplain : t.Plain place) (hplace : ".." ∉ place)
    (h : t.resolve (.ofTop place) = .ok found) : found = place :=
  resolve_of_leads (leads_of_plain hplain hplace) hplace h

/-! ### Walking -/

/-- A walk ends at a directory, or at what stands where it ends, which is no link if links are
followed. -/
theorem walk_eq_ok {follow : Bool} {links : Nat} {directory : Location} {parts : List String}
    {entry : Option Entry} (h : t.walk follow links directory parts = .ok (place, entry)) :
    entry = some .directory ∨ place ≠ [] ∧ t.at? place = entry ∧
      (follow = true → ∀ target, entry ≠ some (.link target)) := by
  fun_induction walk t follow links directory parts with
  | case1 =>
      obtain ⟨-, rfl⟩ := Prod.mk.inj (Except.ok.inj h)
      exact .inl rfl
  | case2 _ _ _ ih => exact ih h
  | case3 _ _ _ _ ih => exact ih h
  | case4 => cases h
  | case5 _ _ _ _ _ _ _ next hnone =>
      obtain ⟨rfl, rfl⟩ := Prod.mk.inj (Except.ok.inj h)
      exact .inr ⟨by simp [next], hnone, by simp⟩
  | case6 => cases h
  | case7 _ _ _ _ _ _ _ _ _ ih => exact ih h
  | case8 _ _ _ _ _ _ _ next content hfile =>
      obtain ⟨rfl, rfl⟩ := Prod.mk.inj (Except.ok.inj h)
      exact .inr ⟨by simp [next], hfile, by simp⟩
  | case9 => cases h
  | case10 _ _ _ _ _ _ _ next target hlink hstop =>
      obtain ⟨rfl, rfl⟩ := Prod.mk.inj (Except.ok.inj h)
      refine .inr ⟨by simp [next], hlink, ?_⟩
      rintro rfl
      simp at hstop
  | case11 => cases h
  | case12 _ _ _ _ _ _ _ _ _ _ _ ih => exact ih h

section

variable {follow : Bool} {links : Nat} {name : String} {rest : List String}

theorem walk_long (hdot : name ≠ ".") (hdots : name ≠ "..")
    (hlong : maxName < name.utf8ByteSize) :
    t.walk follow links place (name :: rest) = .error .nameTooLong := by
  rw [walk, if_neg hdot, if_neg hdots, if_pos hlong]

theorem walk_directory (hdot : name ≠ ".") (hdots : name ≠ "..")
    (hshort : ¬maxName < name.utf8ByteSize) (hentry : t.at? (place ++ [name]) = some .directory) :
    t.walk follow links place (name :: rest) = t.walk follow links (place ++ [name]) rest := by
  rw [walk, if_neg hdot, if_neg hdots, if_neg hshort]
  simp only [hentry]

theorem walk_missing (hdot : name ≠ ".") (hdots : name ≠ "..")
    (hshort : ¬maxName < name.utf8ByteSize) (hentry : t.at? (place ++ [name]) = none) :
    t.walk follow links place (name :: rest) =
      if rest.isEmpty then .ok (place ++ [name], none) else .error .notFound := by
  rw [walk, if_neg hdot, if_neg hdots, if_neg hshort]
  simp only [hentry]

theorem walk_file {content : ByteArray} (hdot : name ≠ ".") (hdots : name ≠ "..")
    (hshort : ¬maxName < name.utf8ByteSize)
    (hentry : t.at? (place ++ [name]) = some (.file content)) :
    t.walk follow links place (name :: rest) =
      if rest.isEmpty then .ok (place ++ [name], some (.file content))
      else .error .notDirectory := by
  rw [walk, if_neg hdot, if_neg hdots, if_neg hshort]
  simp only [hentry]

theorem walk_link {target : String} (hdot : name ≠ ".") (hdots : name ≠ "..")
    (hshort : ¬maxName < name.utf8ByteSize)
    (hentry : t.at? (place ++ [name]) = some (.link target))
    (hfollow : rest ≠ [] ∨ follow = true) :
    t.walk follow (links + 1) place (name :: rest) =
      t.walk follow links (targetStart place target) (targetParts target ++ rest) := by
  have hgoes : (rest.isEmpty && !follow) = false := by
    rcases hfollow with hrest | rfl
    · simp [hrest]
    · simp
  rw [walk, if_neg hdot, if_neg hdots, if_neg hshort]
  simp only [hentry, hgoes, Bool.false_eq_true, if_false]

end

theorem Dotless.of_cons {name : String} {rest : List String} (h : Dotless (name :: rest)) :
    name ≠ "." ∧ name ≠ ".." ∧ Dotless rest :=
  ⟨fun hname => h.noDot (hname ▸ List.mem_cons_self ..),
    fun hname => h.noDots (hname ▸ List.mem_cons_self ..),
    fun hmem => h.noDot (List.mem_cons_of_mem _ hmem),
    fun hmem => h.noDots (List.mem_cons_of_mem _ hmem)⟩

/-- A walk to a place without links on the way gets there, or stops for what is on the way. -/
theorem walk_of_plain (follow : Bool) (links : Nat) {parts : List String}
    (hplain : t.Plain (place ++ parts)) (hparts : Dotless parts) :
    (∃ reason, t.walk follow links place parts = .error reason ∧ reason ≠ .tooManyLinks) ∨
      t.walk follow links place parts =
        .ok (place ++ parts, if parts = [] then some .directory else t.at? (place ++ parts)) := by
  induction parts generalizing place with
  | nil => exact .inr (by rw [walk, List.append_nil, if_pos rfl])
  | cons name rest ih =>
      obtain ⟨hdot, hdots, hrest⟩ := hparts.of_cons
      have happend : place ++ name :: rest = (place ++ [name]) ++ rest := by simp
      rw [happend] at hplain ⊢
      rw [if_neg (List.cons_ne_nil name rest)]
      by_cases hshort : maxName < name.utf8ByteSize
      · exact .inl ⟨_, walk_long hdot hdots hshort, by decide⟩
      cases hentry : t.at? (place ++ [name]) with
      | none =>
          rw [walk_missing hdot hdots hshort hentry]
          cases rest with
          | nil => exact .inr (by rw [List.append_nil, hentry]; rfl)
          | cons => exact .inl ⟨.notFound, rfl, by decide⟩
      | some entry =>
          cases entry with
          | link target => exact absurd hentry (hplain _ (List.prefix_append ..) target)
          | file content =>
              rw [walk_file hdot hdots hshort hentry]
              cases rest with
              | nil => exact .inr (by rw [List.append_nil, hentry]; rfl)
              | cons => exact .inl ⟨.notDirectory, rfl, by decide⟩
          | directory =>
              rw [walk_directory hdot hdots hshort hentry]
              rcases ih hplain hrest with hstop | hwalk
              · exact .inl hstop
              · refine .inr (hwalk.trans ?_)
                split
                · rename_i hnil
                  rw [hnil, List.append_nil, hentry]
                · rfl

/-- What is not on the way does not matter to a walk, nor does how it treats links where there are
none. -/
theorem walk_congr {t' : FileTree} {follow follow' : Bool} {links links' : Nat}
    {parts : List String} (hplain : t.Plain (place ++ parts)) (hparts : Dotless parts)
    (hsame : ∀ upper, upper <+: place ++ parts → t'.at? upper = t.at? upper) :
    t'.walk follow' links' place parts = t.walk follow links place parts := by
  induction parts generalizing place with
  | nil => rw [walk, walk]
  | cons name rest ih =>
      obtain ⟨hdot, hdots, hrest⟩ := hparts.of_cons
      have happend : place ++ name :: rest = (place ++ [name]) ++ rest := by simp
      rw [happend] at hplain hsame
      have hnext := hsame _ (List.prefix_append ..)
      by_cases hshort : maxName < name.utf8ByteSize
      · rw [walk_long hdot hdots hshort, walk_long hdot hdots hshort]
      cases hentry : t.at? (place ++ [name]) with
      | none =>
          rw [walk_missing hdot hdots hshort hentry,
            walk_missing hdot hdots hshort (hnext.trans hentry)]
      | some entry =>
          cases entry with
          | link target => exact absurd hentry (hplain _ (List.prefix_append ..) target)
          | file content =>
              rw [walk_file hdot hdots hshort hentry,
                walk_file hdot hdots hshort (hnext.trans hentry)]
          | directory =>
              rw [walk_directory hdot hdots hshort hentry,
                walk_directory hdot hdots hshort (hnext.trans hentry)]
              exact ih hplain hrest hsame

/-- A walk from a directory to a directory or file gets there. -/
theorem Sound.walk_eq (hsound : t.Sound) (follow : Bool) (links : Nat) {parts : List String}
    {entry : Entry} (hplace : t.at? place = some .directory)
    (h : t.at? (place ++ parts) = some entry) (hentry : ∀ target, entry ≠ .link target) :
    t.walk follow links place parts = .ok (place ++ parts, some entry) := by
  induction parts generalizing place with
  | nil =>
      rw [List.append_nil] at h ⊢
      rw [walk, ← h, hplace]
  | cons name rest ih =>
      have hname := hsound.isName_of_mem h (List.mem_append_right _ (List.mem_cons_self ..))
      have hshort := Nat.not_lt_of_le hname.short
      have happend : place ++ name :: rest = (place ++ [name]) ++ rest := by simp
      rw [happend] at h ⊢
      by_cases hrest : rest = []
      · rw [hrest, List.append_nil] at h ⊢
        cases entry with
        | link target => exact absurd rfl (hentry target)
        | file content => rw [walk_file hname.ne_dot hname.ne_dots hshort h]; rfl
        | directory => rw [walk_directory hname.ne_dot hname.ne_dots hshort h, walk]
      · have hdirectory := hsound.directory_of_append h hrest
        rw [walk_directory hname.ne_dot hname.ne_dots hshort hdirectory]
        exact ih hdirectory h

/-- A walk that does not follow a link at its end gets there if there are directories only on the
way. -/
theorem walk_false_of_directories {links : Nat} {parts : List String} (hparts : Dotless parts)
    (hshort : ∀ name ∈ parts, name.utf8ByteSize ≤ maxName)
    (habove : ∀ upper, upper <+: parts → upper ≠ parts → t.at? (place ++ upper) = some .directory) :
    t.walk false links place parts =
      .ok (place ++ parts, if parts = [] then some .directory else t.at? (place ++ parts)) := by
  induction parts generalizing place with
  | nil => rw [walk, List.append_nil, if_pos rfl]
  | cons name rest ih =>
      obtain ⟨hdot, hdots, hrest⟩ := hparts.of_cons
      obtain ⟨hname, hnames⟩ := List.forall_mem_cons.1 hshort
      have happend (more : List String) : place ++ name :: more = (place ++ [name]) ++ more := by simp
      rw [happend, if_neg (List.cons_ne_nil name rest)]
      by_cases hnil : rest = []
      · rw [hnil, List.append_nil, walk, if_neg hdot, if_neg hdots, if_neg (Nat.not_lt.2 hname)]
        dsimp only
        rcases hentry : t.at? (place ++ [name]) with _ | (content | target | _)
        · rfl
        · rfl
        · rfl
        · simp only [walk]
      · have hnext : t.at? (place ++ [name]) = some .directory :=
          habove [name] (by simp) (by simpa using Ne.symm hnil)
        rw [walk_directory hdot hdots (Nat.not_lt.2 hname) hnext, ih hrest hnames, if_neg hnil]
        intro upper hupper hne
        rw [← happend]
        exact habove (name :: upper) (by simpa using hupper) (by simpa using hne)

/-- The components of a path that leads to something in the tree are names of entries or dots. -/
theorem Sound.noNull_of_walk (hsound : t.Sound) {follow : Bool} {links : Nat} {parts : List String}
    {found : Location} {entry : Entry}
    (h : t.walk follow links place parts = .ok (found, some entry)) :
    ∀ name ∈ parts, '\x00' ∉ name.toList := by
  have hentry {place : Location} {name : String} {entry : Entry}
      (hat : t.at? (place ++ [name]) = some entry) : '\x00' ∉ name.toList :=
    (hsound.isName_of_mem hat (List.mem_append_right _ (List.mem_singleton_self name))).noNull
  fun_induction walk t follow links place parts with
  | case1 => exact List.forall_mem_nil _
  | case2 links place rest ih => exact List.forall_mem_cons.2 ⟨by decide, ih h⟩
  | case3 links place rest _ ih => exact List.forall_mem_cons.2 ⟨by decide, ih h⟩
  | case4 => cases h
  | case5 => simp at h
  | case6 => cases h
  | case7 links place name rest _ _ _ next hat ih =>
      exact List.forall_mem_cons.2 ⟨hentry hat, ih h⟩
  | case8 links place name rest _ _ _ next content hat hlast =>
      obtain rfl := List.isEmpty_iff.1 hlast
      exact List.forall_mem_singleton.2 (hentry hat)
  | case9 => cases h
  | case10 links place name rest _ _ _ next target hat hlast =>
      obtain rfl := List.isEmpty_iff.1 (Bool.and_eq_true_iff.1 hlast).1
      exact List.forall_mem_singleton.2 (hentry hat)
  | case11 => cases h
  | case12 place name rest _ _ _ next target hat _ links ih =>
      exact List.forall_mem_cons.2
        ⟨hentry hat, fun other hother => ih h other (List.mem_append_right _ hother)⟩

/-! ### Paths from the top -/

theorem locate_congr {t' : FileTree} (follow follow' : Bool) (hplain : t.Plain place)
    (hplace : Dotless place) (hsame : ∀ upper, upper <+: place → t'.at? upper = t.at? upper) :
    t'.locate follow' (.ofTop place) = t.locate follow (.ofTop place) := by
  unfold locate
  split
  · rfl
  · have hplain' : t.Plain ([] ++ place) := hplain
    exact walk_congr hplain' hplace hsame

theorem locate_eq_ok {follow : Bool} {p : Path} {entry : Option Entry}
    (h : t.locate follow p = .ok (place, entry)) :
    entry = some .directory ∨ place ≠ [] ∧ t.at? place = entry ∧
      (follow = true → ∀ target, entry ≠ some (.link target)) := by
  unfold locate at h
  split at h
  · cases h
  · exact walk_eq_ok h

theorem locate_of_plain (follow : Bool) (hplain : t.Plain place) (hplace : Dotless place) :
    (∃ reason, t.locate follow (.ofTop place) = .error reason ∧ reason ≠ .tooManyLinks) ∨
      t.locate follow (.ofTop place) = .ok (place, t.at? place) := by
  unfold locate
  split
  · exact .inl ⟨_, rfl, by decide⟩
  · have hplain' : t.Plain ([] ++ place) := hplain
    rcases walk_of_plain follow maxLinks hplain' hplace with hstop | hwalk
    · exact .inl hstop
    · refine .inr (hwalk.trans ?_)
      split
      · rename_i hnil
        rw [hnil]
        rfl
      · rfl

theorem locate_ne_tooManyLinks {follow : Bool} (hplain : t.Plain place) (hplace : Dotless place) :
    t.locate follow (.ofTop place) ≠ .error .tooManyLinks := by
  rcases locate_of_plain follow hplain hplace with ⟨reason, hstop, hne⟩ | hreach
  · rw [hstop]
    simpa using hne
  · rw [hreach]
    simp

theorem Sound.locate_eq (hsound : t.Sound) (follow : Bool) {entry : Entry}
    (h : t.at? place = some entry) (hentry : ∀ target, entry ≠ .link target) :
    t.locate follow (.ofTop place) =
      if maxPath < (Path.ofTop place).toString.utf8ByteSize then .error .nameTooLong
      else .ok (place, some entry) := by
  unfold locate
  split
  · rfl
  · have h' : t.at? ([] ++ place) = some entry := h
    exact hsound.walk_eq follow maxLinks at?_top h' hentry

theorem Sound.locate_directory (hsound : t.Sound) (follow : Bool)
    (h : t.at? place = some .directory)
    (hshort : ¬ maxPath < (Path.ofTop place).toString.utf8ByteSize) :
    t.locate follow (.ofTop place) = .ok (place, some .directory) :=
  (hsound.locate_eq follow h nofun).trans (if_neg hshort)

/-- A path that leads to a place resolves to it if no link stands on the way there. -/
theorem Leads.resolve_eq {p : Path} {depth : Nat}
    (h : t.Leads depth (t.startOf p) p.parts place) (hnull : holdsNull p = false)
    (hplain : t.Plain place) (hplace : Dotless place) : t.resolve p = .ok place := by
  obtain ⟨met, hfollow⟩ := follow_of_leads h
  refine resolve_of_follow hnull ?_ (locate_ne_tooManyLinks hplain hplace)
  rw [hfollow, Path.normalize_of_noDots [] hplace.noDots, List.nil_append]

/-- A path that leads to a directory or file resolves to it. -/
theorem Sound.resolve_eq (hsound : t.Sound) {p : Path} {depth : Nat} {entry : Entry}
    (hleads : t.Leads depth (t.startOf p) p.parts place) (hnull : holdsNull p = false)
    (h : t.at? place = some entry) (hentry : ∀ target, entry ≠ .link target) :
    t.resolve p = .ok place :=
  hleads.resolve_eq hnull (hsound.plain h hentry) (hsound.dotless h)

theorem holdsNull_eq_false {p : Path} (h : ∀ name ∈ p.parts, '\x00' ∉ name.toList) :
    holdsNull p = false := by
  rw [holdsNull, List.any_eq_false]
  intro name hname
  simpa using h name hname

theorem Sound.holdsNull_of_locate (hsound : t.Sound) {follow : Bool} {p : Path}
    {found : Location} {entry : Entry} (h : t.locate follow p = .ok (found, some entry)) :
    holdsNull p = false := by
  unfold locate at h
  split at h
  · cases h
  · exact FileTree.holdsNull_eq_false (hsound.noNull_of_walk h)

/-- The names of entries hold no null characters. -/
theorem Sound.holdsNull_eq_false (hsound : t.Sound) {p : Path} {entry : Entry}
    (h : t.at? place = some entry) (hp : ∀ name ∈ p.parts, name ∈ place) : holdsNull p = false :=
  FileTree.holdsNull_eq_false fun name hname => (hsound.isName_of_mem h (hp name hname)).noNull

end NatSpec.FileTree
