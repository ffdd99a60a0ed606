import NatSpec.Json.Equality
import NatSpec.Proofs.CompilerInput.Extended
import NatSpec.Proofs.FileTree.Walk
import NatSpec.Proofs.Json.Readable

/-!
Patching a compiler input. A patch that fails leaves the tree as it is. One that does not writes
what it gives back over the file, so that the file is read as that from then on, and patching it
again finds nothing to do: the bytes that are written are those that stand there.
-/

namespace NatSpec

namespace CompilerInput

open FileTree (Holds)

variable {τ : Type} [DecidableEq τ] [IsText τ] {n : Nat} {v w missing : Json τ} {name : String}

theorem readable_select {output : τ} (hv : v.Readable (n + 1)) (h : select v output = .ok w) :
    w.Readable (n + 1) := by
  obtain ⟨named, -, h⟩ := bind_eq_ok_iff.1 h
  cases named with
  | true =>
      obtain rfl := Except.ok.inj h
      exact hv
  | false =>
      cases v with
      | arr items =>
          obtain rfl := Except.ok.inj h
          refine Json.readable_arr_iff.2 (List.forall_mem_append.2 ⟨Json.readable_arr_iff.1 hv, ?_⟩)
          exact List.forall_mem_singleton.2 ⟨.str output, Nat.zero_le n⟩
      | _ => cases h

theorem readable_changeField {change : Json τ → Except Fault (Json τ)} (hmissing : missing.Readable n)
    (hchange : ∀ v w, v.Readable n → change v = .ok w → w.Readable n) (hv : v.Readable (n + 1))
    (h : changeField v name missing change = .ok w) : w.Readable (n + 1) := by
  cases v with
  | obj fields =>
      obtain ⟨changed, hchanged, h⟩ := bind_eq_ok_iff.1 h
      obtain rfl := Except.ok.inj h
      exact hv.set (hchange _ _ (hv.get? hmissing _) hchanged) (IsText.ofString name)
  | _ => cases h

/-- A compiler that could be read can be read with the needed outputs: at its deepest, they are a
list in four tables. -/
theorem readable_requestOutputs (hv : v.Readable (n + 5)) (h : requestOutputs v = .ok w) :
    w.Readable (n + 5) := by
  refine readable_changeField Json.readable_empty (fun _ _ hsettings => ?_) hv h
  refine readable_changeField Json.readable_empty (fun _ _ hselection => ?_) hsettings
  refine readable_changeField Json.readable_empty (fun _ _ hfiles => ?_) hselection
  refine readable_changeField (Json.readable_arr_iff.2 (by simp)) (fun _ _ houtputs hfold => ?_)
    hfiles
  exact foldlM_keeps (fun _ _ _ => readable_select) hfold houtputs

/-! ### Patching -/

variable {t t' : FileTree} {p : Path} {content : ByteArray} {v d : Json Utf16}

def patchedBytes (d : Json Utf16) : ByteArray :=
  (d.write (.spaces 2) ++ "\n").toUTF8

theorem patch_of_readBytes (hread : t.readBytes p = .ok content) (hholds : Holds content v)
    (hobj : v.isObj = true) (hrequest : requestOutputs v = .ok d) :
    ∃ place, t.locate true p = .ok (place, some (.file content)) ∧
      patch p t = (.ok d, t.put place (.file (patchedBytes d))) := by
  obtain ⟨place, hlocate, hwrite⟩ := writeText_of_readBytes hread (d.write (.spaces 2) ++ "\n")
  refine ⟨place, hlocate, ?_⟩
  rw [patch_apply, FileTree.readValue_of_readBytes hread hholds]
  simp only [hobj, if_true, hrequest]
  rw [bind_apply_of_ok _ (liftFiling_apply_of_ok hwrite)]
  rfl

/-- A patch fails before it writes, or it has read an object that takes the needed outputs. -/
theorem patch_cases (t : FileTree) (p : Path) :
    (∃ failure, patch p t = (.error failure, t)) ∨
      ∃ content compiler d place, t.readBytes p = .ok content ∧ Holds content (.obj compiler) ∧
        requestOutputs (.obj compiler) = .ok d ∧
        t.locate true p = .ok (place, some (.file content)) ∧
        patch p t = (.ok d, t.put place (.file (patchedBytes d))) := by
  cases hvalue : (t.readValue p : Except Fault (Json Utf16)) with
  | error fault =>
      rw [patch_apply, hvalue]
      cases fault <;> exact .inl ⟨_, rfl⟩
  | ok v =>
      obtain ⟨content, hread, hholds⟩ := FileTree.exists_readBytes_of_readValue hvalue
      cases hobj : v.isObj with
      | false =>
          refine .inl ⟨.problem (.inputNotObject p.toString), ?_⟩
          rw [patch_apply, hvalue]
          simp only [hobj, Bool.false_eq_true, if_false]
      | true =>
          cases hrequest : requestOutputs v with
          | error fault =>
              refine .inl ⟨.fault fault, ?_⟩
              rw [patch_apply, hvalue]
              simp only [hobj, if_true, hrequest]
          | ok d =>
              obtain ⟨place, hlocate, hpatch⟩ := patch_of_readBytes hread hholds hobj hrequest
              cases v with
              | obj compiler =>
                  exact .inr ⟨content, compiler, d, place, hread, hholds, hrequest, hlocate, hpatch⟩
              | _ => cases hobj

/-- After a patch the file holds what the patch gave, and one more patch changes nothing. -/
theorem patch_again {compiler : Fields Utf16} {place : Location}
    (hread : t.readBytes p = .ok content) (hholds : Holds content (.obj compiler))
    (hrequest : requestOutputs (.obj compiler) = .ok d)
    (hlocate : t.locate true p = .ok (place, some (.file content)))
    (ht' : t' = t.put place (.file (patchedBytes d))) :
    t'.readBytes p = .ok (patchedBytes d) ∧ Holds (patchedBytes d) d ∧
      patch p t' = (.ok d, t') := by
  subst ht'
  have hobj : d.isObj = true := by
    obtain ⟨settings, -, h⟩ := bind_eq_ok_iff.1 hrequest
    rw [← Except.ok.inj h]
    rfl
  have hreadable : d.Readable Json.Reader.maxNesting :=
    readable_requestOutputs (Json.readable_of_holds hholds) hrequest
  have hnew : Holds (patchedBytes d) d := hreadable.holds_write 2
  have hlocate' := FileTree.locate_put_file (patchedBytes d) hlocate
  have hread' := FileTree.readBytes_of_locate (FileTree.holdsNull_of_readBytes hread) hlocate'
  obtain ⟨place', hplace', hagain⟩ :=
    patch_of_readBytes hread' hnew hobj (requestOutputs_again hrequest)
  -- The second patch finds the file in the same place, and writes the same bytes over it.
  obtain ⟨rfl, -⟩ := Prod.mk.inj (Except.ok.inj (hlocate'.symm.trans hplace'))
  rw [FileTree.put_put] at hagain
  exact ⟨hread', hnew, hagain⟩

/-- A patch that fails changes nothing. It succeeds just for an object whose settings take the
needed outputs, and what it gives back is that object with them. The file holds this value then,
with its fields in the same order, and one more patch gives the same and leaves all bytes as they
are. -/
theorem patch_rewrites (t : FileTree) (p : Path) :
    (∀ failure, (patch p t).1 = .error failure → (patch p t).2 = t) ∧
    ((∃ d, (patch p t).1 = .ok d) ↔ ∃ (content : ByteArray) (compiler : Fields Utf16),
      t.readBytes p = .ok content ∧ Holds content (.obj compiler) ∧ Selectable compiler) ∧
    ∀ d t', patch p t = (.ok d, t') →
      ∃ content v place new, t.readBytes p = .ok content ∧ Holds content v ∧
        requestAll (.arr [v]) = .ok (.arr [d]) ∧
        t.locate true p = .ok (place, some (.file content)) ∧
        t' = t.put place (.file new) ∧ t'.readBytes p = .ok new ∧ Holds new d ∧
        patch p t' = (.ok d, t') := by
  have hsuccess {content : ByteArray} {compiler : Fields Utf16} (hread : t.readBytes p = .ok content)
      (hholds : Holds content (.obj compiler)) (hselectable : Selectable compiler) :
      ∃ d, (patch p t).1 = .ok d := by
    obtain ⟨d, hrequest⟩ := exists_requestOutputs_iff.2 hselectable
    obtain ⟨place, -, hpatch⟩ := patch_of_readBytes hread hholds rfl hrequest
    exact ⟨d, by rw [hpatch]⟩
  rcases patch_cases t p with ⟨failure, hpatch⟩ |
    ⟨content, compiler, d, place, hread, hholds, hrequest, hlocate, hpatch⟩
  · refine ⟨fun _ _ => by rw [hpatch], ⟨?_, ?_⟩, fun d t' h => ?_⟩
    · rintro ⟨d, hd⟩
      rw [hpatch] at hd
      cases hd
    · rintro ⟨content, compiler, hread, hholds, hselectable⟩
      exact hsuccess hread hholds hselectable
    · rw [hpatch] at h
      cases h
  · refine ⟨fun failure h => ?_, ⟨fun _ => ?_, fun _ => ⟨d, by rw [hpatch]⟩⟩, fun d' t' h => ?_⟩
    · rw [hpatch] at h
      cases h
    · exact ⟨content, compiler, hread, hholds, exists_requestOutputs_iff.1 ⟨d, hrequest⟩⟩
    · obtain ⟨hd, rfl⟩ := Prod.mk.inj (hpatch.symm.trans h)
      obtain rfl := Except.ok.inj hd
      exact ⟨content, _, place, patchedBytes d, hread, hholds, requestAll_singleton hrequest,
        hlocate, rfl, patch_again hread hholds hrequest hlocate rfl⟩

/-- A compiler input that sets a field twice, has no selection, and has two fields whose names are
half a pair of units each. -/
def repeatedSettings : String :=
  "\x7b\"settings\":1,\r\n\"\\ud800\":-40,\"settings\":\x7b\"a\":\"\\u00e9\"\x7d,\"\\ud801\":[]\x7d"

/-- The same as it is read: the last value of a field stands where the field stood first. -/
def repeatedFields : Fields Utf16 :=
  [("settings", .obj [("a", .str "é")]), (.text ⟨[0xD800]⟩, .int (-40)),
    (.text ⟨[0xD801]⟩, .arr [])]

def repeatedPatched : Json Utf16 :=
  .obj [("settings", .obj [("a", .str "é"), ("outputSelection", .obj
      [("*", .obj [("*", .arr [.str "devdoc", .str "userdoc"])])])]),
    (.text ⟨[0xD800]⟩, .int (-40)), (.text ⟨[0xD801]⟩, .arr [])]

theorem holds_repeatedSettings : Holds repeatedSettings.toUTF8 (.obj repeatedFields) :=
  FileTree.holds_toUTF8 (by decide +kernel)

/-- A directory with a link to a file, which stands in another directory. -/
def linkedInput (content : ByteArray) : FileTree :=
  ⟨[], [(["input.json"], .link "in/old.json"), (["in"], .directory),
    (["in", "old.json"], .file content)]⟩

theorem locate_linkedInput (content : ByteArray) :
    (linkedInput content).locate true (.ofString "/input.json") =
      .ok (["in", "old.json"], some (.file content)) := by
  have hwalk : (linkedInput content).walk true (39 + 1) [] ["input.json"] =
      .ok (["in", "old.json"], some (.file content)) := by
    have htarget : FileTree.targetParts "in/old.json" ++ [] = ["in", "old.json"] := by decide
    rw [FileTree.walk_link (by decide) (by decide) (by decide) rfl (.inr rfl), htarget,
      FileTree.walk_directory (by decide) (by decide) (by decide) rfl,
      FileTree.walk_file (by decide) (by decide) (by decide) rfl]
    rfl
  rw [FileTree.locate, if_neg (by decide)]
  exact hwalk

theorem patch_rewrites_sample :
    (patch (.ofString "/in") (linkedInput repeatedSettings.toUTF8)).2 =
      linkedInput repeatedSettings.toUTF8 ∧
    ∃ t', patch (.ofString "/input.json") (linkedInput repeatedSettings.toUTF8) =
        (.ok repeatedPatched, t') ∧
      ∃ content v place new,
        (linkedInput repeatedSettings.toUTF8).readBytes (.ofString "/input.json") = .ok content ∧
        Holds content v ∧ requestAll (.arr [v]) = .ok (.arr [repeatedPatched]) ∧
        (linkedInput repeatedSettings.toUTF8).locate true (.ofString "/input.json") =
          .ok (place, some (.file content)) ∧
        t' = (linkedInput repeatedSettings.toUTF8).put place (.file new) ∧
        t'.readBytes (.ofString "/input.json") = .ok new ∧ Holds new repeatedPatched ∧
        patch (.ofString "/input.json") t' = (.ok repeatedPatched, t') := by
  have hread := FileTree.readBytes_of_locate (by decide)
    (locate_linkedInput repeatedSettings.toUTF8)
  have hrequest : requestOutputs (.obj repeatedFields) = .ok repeatedPatched := by decide +kernel
  obtain ⟨place, -, hpatch⟩ := patch_of_readBytes hread holds_repeatedSettings rfl hrequest
  have hlocate : (linkedInput repeatedSettings.toUTF8).locate true (.ofString "/in") =
      .ok (["in"], some .directory) := by
    rw [FileTree.locate, if_neg (by decide)]
    change FileTree.walk _ true 40 [] ["in"] = _
    rw [FileTree.walk_directory (by decide) (by decide) (by decide) rfl, FileTree.walk]
    rfl
  have hdirectory : (patch (.ofString "/in") (linkedInput repeatedSettings.toUTF8)).1 =
      .error (.problem (.unreadableInput "/in" (.refused .isDirectory "/in"))) := by
    have hrefused : (linkedInput repeatedSettings.toUTF8).readBytes (.ofString "/in") =
        .error (.refused .isDirectory "/in") := by
      rw [FileTree.readBytes, FileTree.status, hlocate]
      rfl
    rw [patch_apply, FileTree.readValue, FileTree.readText, hrefused]
    rfl
  exact ⟨(patch_rewrites _ _).1 _ hdirectory, _, hpatch, (patch_rewrites _ _).2.2 _ _ hpatch⟩

end CompilerInput

end NatSpec
