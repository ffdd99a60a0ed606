import NatSpec.FileTree.Access
import NatSpec.Proofs.Except
import NatSpec.Proofs.FileTree.Resolve

/-!
What reading finds. In the tree of a file system a directory or a file is found under its own path,
if that path is not too long, and a file whose text is that of a JSON value is read as that value.
-/

namespace NatSpec.FileTree

theorem lookup_of_noNull {t : FileTree} {p : Path} (h : holdsNull p = false) :
    t.lookup p =
      match t.status p with
      | .ok entry => .ok (some entry)
      | .error .nameTooLong => .error (.refused .nameTooLong p.toString)
      | .error _ => .ok none := by
  rw [lookup, h]
  rfl

theorem readBytes_of_locate {t : FileTree} {p : Path} {place : Location} {content : ByteArray}
    (hnull : holdsNull p = false)
    (h : t.locate true p = .ok (place, some (.file content))) : t.readBytes p = .ok content := by
  rw [readBytes, if_neg (by simp [hnull]), status, h]

variable {τ : Type} [DecidableEq τ] [IsText τ]

/-- A content is a text of a JSON value, whatever its line ends. -/
def Holds (content : ByteArray) (v : Json τ) : Prop :=
  ∃ text, String.fromUTF8? content = some text ∧ Json.read (Text.withLineFeeds text) = .ok v

theorem holds_toUTF8 {text : String} {v : Json τ}
    (h : Json.read (Text.withLineFeeds text) = .ok v) : Holds text.toUTF8 v :=
  ⟨text, dif_pos text.isValidUTF8, h⟩

theorem readValue_eq_of_readBytes {t : FileTree} {p : Path} {content : ByteArray}
    (h : t.readBytes p = .ok content) :
    (t.readValue p : Except Fault (Json τ)) =
      match String.fromUTF8? content with
      | none => .error .undecodable
      | some text =>
        match Json.read (Text.withLineFeeds text) with
        | .ok v => .ok v
        | .error refusal => .error (.ofRefusal refusal) := by
  rw [readValue, readText, h, ok_bind, decodeText]
  cases String.fromUTF8? content with
  | none => rfl
  | some text => rfl

theorem readValue_of_readBytes {t : FileTree} {p : Path} {content : ByteArray} {v : Json τ}
    (h : t.readBytes p = .ok content) (hholds : Holds content v) : t.readValue p = .ok v := by
  obtain ⟨text, htext, hread⟩ := hholds
  simp only [readValue_eq_of_readBytes h, htext, hread]

/-- Bytes are refused by the file system, unless a path cannot be asked for at all. -/
theorem exists_refused_of_readBytes {t : FileTree} {p : Path} {f : Fault}
    (hnull : holdsNull p = false) (h : t.readBytes p = .error f) :
    ∃ reason path, f = .refused reason path := by
  rw [readBytes, hnull, if_neg Bool.false_ne_true] at h
  split at h
  · cases h
  · exact ⟨_, _, (Except.error.inj h).symm⟩
  · exact ⟨_, _, (Except.error.inj h).symm⟩

theorem holdsNull_of_readBytes {t : FileTree} {p : Path} {content : ByteArray}
    (h : t.readBytes p = .ok content) : holdsNull p = false := by
  unfold readBytes at h
  split at h
  · cases h
  · rename_i hnull
    exact Bool.eq_false_iff.2 hnull

/-- What is read is the content of a file, to which the path leads. -/
theorem exists_locate_of_readBytes {t : FileTree} {p : Path} {content : ByteArray}
    (h : t.readBytes p = .ok content) :
    ∃ place, t.locate true p = .ok (place, some (.file content)) := by
  unfold readBytes status at h
  split at h
  · cases h
  · split at h
    · rename_i hstatus
      obtain rfl := Except.ok.inj h
      split at hstatus
      · rename_i place entry hlocate
        exact ⟨place, by rw [hlocate, Except.ok.inj hstatus]⟩
      all_goals cases hstatus
    all_goals cases h

/-- A value that is read is held by the file that is read. -/
theorem exists_readBytes_of_readValue {t : FileTree} {p : Path} {v : Json τ}
    (h : t.readValue p = .ok v) :
    ∃ content, t.readBytes p = .ok content ∧ Holds content v := by
  unfold readValue at h
  obtain ⟨text, htext, h⟩ := bind_eq_ok_iff.1 h
  obtain ⟨content, hcontent, htext⟩ := bind_eq_ok_iff.1 htext
  obtain ⟨decoded, hdecoded, htext⟩ := bind_eq_ok_iff.1 htext
  obtain rfl := Except.ok.inj htext
  refine ⟨content, hcontent, decoded, ?_, ?_⟩
  · unfold decodeText at hdecoded
    split at hdecoded
    · rename_i hutf8
      rw [hutf8, Except.ok.inj hdecoded]
    · cases hdecoded
  · split at h
    · rename_i hread
      rw [hread, Except.ok.inj h]
    · cases h

namespace Sound

variable {t : FileTree} {place : Location} {entry : Entry}

section

variable (hsound : t.Sound) (h : t.at? place = some entry) (hentry : ∀ target, entry ≠ .link target)
include hsound h hentry

theorem status_eq :
    t.status (.ofTop place) =
      if maxPath < (Path.ofTop place).toString.utf8ByteSize then .error .nameTooLong
      else .ok entry := by
  rw [status, hsound.locate_eq true h hentry]
  by_cases hlong : maxPath < (Path.ofTop place).toString.utf8ByteSize
  · simp only [if_pos hlong]
  · simp only [if_neg hlong]

theorem lookup_eq :
    t.lookup (.ofTop place) =
      if maxPath < (Path.ofTop place).toString.utf8ByteSize then
        .error (.refused .nameTooLong (Path.ofTop place).toString)
      else .ok (some entry) := by
  rw [lookup_of_noNull (hsound.holdsNull_eq_false h fun _ => id), hsound.status_eq h hentry]
  by_cases hlong : maxPath < (Path.ofTop place).toString.utf8ByteSize
  · simp only [if_pos hlong]
  · simp only [if_neg hlong]

end

/-- A file whose text is that of a JSON value is read as that value. -/
theorem readValue_eq (hsound : t.Sound) {content : ByteArray} {v : Json τ}
    (h : t.at? place = some (.file content))
    (hshort : (Path.ofTop place).toString.utf8ByteSize ≤ maxPath) (hholds : Holds content v) :
    t.readValue (.ofTop place) = .ok v := by
  refine readValue_of_readBytes ?_ hholds
  rw [readBytes, hsound.holdsNull_eq_false h fun _ => id, if_neg Bool.false_ne_true,
    hsound.status_eq h nofun, if_neg (Nat.not_lt.2 hshort)]

end Sound

end NatSpec.FileTree
