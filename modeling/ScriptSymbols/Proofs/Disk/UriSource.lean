import ScriptSymbols.Proofs.Disk.Tree

/-!
# Files read through their URIs

The URI of a path writes the names of the path only, so the dots between its slashes are lost. A file that a path
leads to is found all the same, on any disk and through any links, unless the last name ends in a drive letter: the
path that is read back then has a slash at its end, which asks for a directory.

1. `Disk.directory_of_follow`: a dot at the end of steps is behind a directory.
2. `Disk.stepsOf_ofNames` and `Disk.stepsOf_append_slash` are the steps of the path that is read back.
3. `Disk.source_of_read` is the text of a file that is read through the URI of its path.
-/

namespace ScriptSymbols

open Text

namespace Path

/-! ## The path that writes the names of a path -/

/-- The pieces between slashes hold the bytes that are not slashes. -/
theorem mem_of_mem_splitSlash {bytes piece : List UInt8} {b : UInt8} (h : piece ∈ splitSlash bytes)
    (hb : b ∈ piece) : b ∈ bytes ∧ b ≠ slash := by
  induction bytes generalizing piece with
  | nil =>
      rw [List.mem_singleton.1 h] at hb
      cases hb
  | cons c bytes ih =>
      suffices hfound : b = c ∧ c ≠ slash ∨ b ∈ bytes ∧ b ≠ slash by
        rcases hfound with ⟨rfl, hc⟩ | ⟨hmem, hne⟩
        · exact ⟨List.mem_cons_self, hc⟩
        · exact ⟨List.mem_cons_of_mem c hmem, hne⟩
      rw [splitSlash] at h
      split at h
      · rcases List.mem_cons.1 h with rfl | hrest
        · cases hb
        · exact Or.inr (ih hrest hb)
      · rename_i hc
        split at h
        · rename_i hnil
          exact absurd hnil (splitSlash_ne_nil bytes)
        · rename_i first pieces hpieces
          rw [hpieces] at ih
          rcases List.mem_cons.1 h with rfl | hrest
          · rcases List.mem_cons.1 hb with rfl | hb
            · exact Or.inl ⟨rfl, hc⟩
            · exact Or.inr (ih List.mem_cons_self hb)
          · exact Or.inr (ih (List.mem_cons_of_mem first hrest) hb)

theorem isPiece_of_mem_names {p : Path} {name : List UInt8} (h : name ∈ p.names) : IsPiece name :=
  ⟨(List.mem_filter.1 h).2,
    fun hslash => (mem_of_mem_splitSlash (List.mem_filter.1 h).1 hslash).2 rfl⟩

theorem nul_not_mem_ofNames {p : Path} (h : 0 ∉ p.bytes) : 0 ∉ (ofNames p.names).bytes := by
  intro hmem
  unfold ofNames at hmem
  dsimp only at hmem
  split at hmem
  · exact absurd hmem (by decide)
  · obtain ⟨name, hname, hin⟩ := List.mem_flatMap.1 hmem
    rcases List.mem_cons.1 hin with hslash | hin
    · exact absurd hslash (by decide)
    · exact h (mem_of_mem_splitSlash (List.mem_filter.1 hname).1 hin).1

/-- Whether a path ends in a drive letter, behind which the path of a URI has a slash. -/
def endsInDrive (p : Path) : Bool :=
  Uri.closeDrive (ofNames p.names).bytes != (ofNames p.names).bytes

end Path

namespace Disk

/-! ## Dots on the way and at the end -/

theorem dropsDots_filter (steps : List FileName) :
    DropsDots steps (steps.filter (· != [Path.dot])) := by
  induction steps with
  | nil => exact .nil
  | cons step steps ih =>
      by_cases hdot : step = [Path.dot]
      · subst hdot
        exact .drop ih
      · rw [List.filter_cons_of_pos (by simpa using hdot)]
        exact .keep step ih

section Follow

variable {disk : Disk}
  {jump : List FileName → Path → List FileName → Except IoError (List FileName × Node)}
  {r : List FileName × Node}

theorem directory_of_followWith
    (hjump : ∀ place target steps, jump place target (steps ++ [[Path.dot]]) = .ok r →
      r.2 = .directory)
    {place steps : List FileName}
    (h : followWith disk jump place (steps ++ [[Path.dot]]) = .ok r) : r.2 = .directory := by
  induction steps generalizing place with
  | nil =>
      rw [List.nil_append, followWith_dot, followWith] at h
      cases h
      rfl
  | cons step steps ih =>
      rw [List.cons_append] at h
      rcases followWith_cons_eq_ok_iff.1 h with
        ⟨next, -, hrest⟩ | ⟨contents, -, hnil, -⟩ | ⟨target, -, hlink⟩
      · exact ih hrest
      · -- The dot is still to come, so a file cannot end the steps here.
        simp at hnil
      · exact hjump place target steps hlink

/-- A dot at the end of steps asks for a directory. -/
theorem directory_of_follow {links : Nat} {place steps : List FileName}
    (h : disk.follow links place (steps ++ [[Path.dot]]) = .ok r) : r.2 = .directory := by
  induction links generalizing place steps with
  | zero =>
      refine directory_of_followWith ?_ h
      intro place target steps hjump
      cases hjump
  | succ links ih =>
      refine directory_of_followWith ?_ h
      intro place target steps hjump
      rw [← List.append_assoc] at hjump
      exact ih hjump

end Follow

/-! ## The path of a URI -/

theorem getLast?_ofNames {names : List FileName} (h : ∀ name ∈ names, Path.IsPiece name)
    (hne : names ≠ []) : (Path.ofNames names).bytes.getLast? ≠ some Path.slash := by
  have hlast := List.dropLast_concat_getLast hne
  have hpiece := h (names.getLast hne) (List.getLast_mem hne)
  have hnonempty : names.getLast hne ≠ [] := by
    intro hnil
    rw [hnil] at hpiece
    exact absurd hpiece.1 (by decide)
  have hbytes : (Path.ofNames names).bytes =
      (names.dropLast.flatMap (Path.slash :: ·) ++ [Path.slash]) ++ names.getLast hne := by
    conv_lhs => rw [← hlast]
    simp [Path.ofNames]
  intro hslash
  rw [hbytes, List.getLast?_append, List.getLast?_eq_some_getLast hnonempty, Option.some_or,
    Option.some_inj] at hslash
  exact hpiece.2 (hslash ▸ List.getLast_mem hnonempty)

/-- The steps of names are the names. -/
theorem stepsOf_ofNames {names : List FileName} (h : ∀ name ∈ names, Path.IsPiece name)
    (hne : names ≠ []) : stepsOf (Path.ofNames names) = names := by
  have hbytes : (Path.ofNames names).bytes = names.flatMap (Path.slash :: ·) := by
    simp [Path.ofNames, hne]
  have hkept : names.filter (!·.isEmpty) = names := by
    refine List.filter_eq_self.2 ?_
    intro name hname
    have hnamed := (h name hname).1
    simp only [Path.isNamed, Bool.and_eq_true] at hnamed
    exact hnamed.1
  unfold stepsOf
  rw [if_neg (getLast?_ofNames h hne), hbytes, Path.splitSlash_flatMap h,
    List.filter_cons_of_neg (by simp), hkept]

/-- A slash behind a path is a dot behind its steps. -/
theorem stepsOf_append_slash {p : Path} (h : p.bytes.getLast? ≠ some Path.slash) :
    stepsOf ⟨p.bytes ++ [Path.slash]⟩ = stepsOf p ++ [[Path.dot]] := by
  unfold stepsOf
  simp only [List.getLast?_concat, if_true, if_neg h, Path.splitSlash_append, List.filter_append]
  simp [Path.splitSlash]

theorem read_eq_ok_iff {disk : Disk} {p : Path} {bytes : List UInt8} :
    disk.read p = .ok bytes ↔ ∃ q, disk.resolve p = .ok (q, .file bytes) := by
  unfold read
  constructor
  · intro h
    split at h
    · cases h
    · rename_i q contents hresolve
      cases h
      exact ⟨q, hresolve⟩
    · cases h
  · rintro ⟨q, hresolve⟩
    rw [hresolve]

/-- A file that a path leads to has a name, and the names of the path lead to it. -/
theorem follow_names_of_read {disk : Disk} {p : Path} {bytes : List UInt8} (habs : p.isAbsolute = true)
    (hread : disk.read p = .ok bytes) :
    p.names ≠ [] ∧ ∃ q, disk.follow maxLinks [] p.names = .ok (q, .file bytes) := by
  obtain ⟨q, hresolve⟩ := read_eq_ok_iff.1 hread
  rw [resolve_of_isAbsolute disk habs (nul_not_mem_of_resolve hresolve)] at hresolve
  have hfollow := follow_of_dropsDots (dropsDots_filter (stepsOf p)) hresolve
  rw [filter_stepsOf] at hfollow
  refine ⟨?_, q, hfollow⟩
  -- Without a name the path is the root, which is no file.
  intro hnil
  rw [hnil] at hfollow
  cases hfollow

theorem read_ofNames_of_read {disk : Disk} {p : Path} {bytes : List UInt8} (habs : p.isAbsolute = true)
    (hread : disk.read p = .ok bytes) : disk.read (Path.ofNames p.names) = .ok bytes := by
  obtain ⟨hne, q, hfollow⟩ := follow_names_of_read habs hread
  obtain ⟨_, hresolve⟩ := read_eq_ok_iff.1 hread
  have hnul := Path.nul_not_mem_ofNames (nul_not_mem_of_resolve hresolve)
  refine read_eq_ok_iff.2 ⟨q, ?_⟩
  rw [resolve_of_isAbsolute disk (Path.isAbsolute_ofNames p.names) hnul,
    stepsOf_ofNames (fun _ => Path.isPiece_of_mem_names) hne]
  exact hfollow

/-- No file is read behind a slash. -/
theorem read_append_slash_ne_ok (disk : Disk) {p : Path} (habs : p.isAbsolute = true)
    (hlast : p.bytes.getLast? ≠ some Path.slash) (bytes : List UInt8) :
    disk.read ⟨p.bytes ++ [Path.slash]⟩ ≠ .ok bytes := by
  intro hread
  obtain ⟨q, hresolve⟩ := read_eq_ok_iff.1 hread
  have habs' : Path.isAbsolute ⟨p.bytes ++ [Path.slash]⟩ = true := by
    cases hbytes : p.bytes with
    | nil => rfl
    | cons b rest => simpa [Path.isAbsolute, hbytes] using habs
  rw [resolve_of_isAbsolute disk habs' (nul_not_mem_of_resolve hresolve),
    stepsOf_append_slash hlast] at hresolve
  cases directory_of_follow hresolve

/-- A file is read through its URI, unless its path ends in a drive letter. -/
theorem source_of_read {disk : Disk} {p : Path} {bytes : List UInt8} (habs : p.isAbsolute = true)
    (hread : disk.read p = .ok bytes) :
    disk.source (Uri.ofNames p.names) = .ok (decodeFile bytes) ∧ p.endsInDrive = false ∨
      (∃ cause, disk.source (Uri.ofNames p.names) = .error (.unreadable (Uri.ofNames p.names) cause)) ∧
        p.endsInDrive = true := by
  have hne := (follow_names_of_read habs hread).1
  have hlast := getLast?_ofNames (fun _ => Path.isPiece_of_mem_names) hne
  unfold source Path.endsInDrive
  rw [Uri.path?_ofNames]
  -- The path that is read back writes the names, with a slash behind a drive letter.
  rcases Uri.closeDrive_eq (Path.ofNames p.names).bytes with heq | heq
  · left
    simp only [heq, read_ofNames_of_read habs hread, bne_self_eq_false, and_self]
  · right
    cases hclosed : disk.read ⟨(Path.ofNames p.names).bytes ++ [Path.slash]⟩ with
    | ok contents =>
        exact absurd hclosed
          (read_append_slash_ne_ok disk (Path.isAbsolute_ofNames p.names) hlast contents)
    | error cause =>
        refine ⟨⟨cause, ?_⟩, ?_⟩
        · simp only [heq, hclosed]
        · simp [heq]

end Disk
end ScriptSymbols
