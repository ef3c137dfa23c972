import ScriptSymbols.Proofs.Disk.UriSource
import ScriptSymbols.Proofs.Text.Decoding
import ScriptSymbols.Stats.Run

/-!
# Size limits

Indexing and the report on indexing both skip files above a size limit. Indexing measures the text of a file, the
report its bytes. The two differ by what malformed sequences gain and what a byte order mark loses, and indexing
reads a file through its URI.

1. `SymbolIndex.skips` and `Stats.skips` say which files are skipped, and `SymbolIndex.skipped_readPaths` and
   `Stats.skipped_readFiles` count them.
2. `SymbolIndex.skips_iff` and `Stats.skips_iff` compare the limit with the size of the file.
3. `Stats.size_limits_agree_iff` says on which files the two agree.
-/

namespace ScriptSymbols

open Text

/-! ## Skipped files -/

namespace SymbolIndex

/-- Whether a file counts as skipped where files are indexed. -/
def skips (source : TextSource) (limit : Nat) (path : Path) : Bool :=
  (readPaths source limit [path]).skipped == 1

/-- A file is skipped or not whatever files come with it. -/
theorem skipped_readPaths (source : TextSource) (limit : Nat) (paths : List Path) :
    (readPaths source limit paths).skipped = paths.countP (skips source limit) := by
  induction paths with
  | nil => rfl
  | cons path paths ih =>
      rw [List.countP_cons, ← ih]
      cases huri : Uri.ofPath? path with
      | none => simp [skips, readPaths, huri]
      | some uri =>
          cases hsource : source uri with
          | error cause => simp [skips, readPaths, huri, hsource]
          | ok text =>
              by_cases hlimit : limit < byteSize text.toList <;>
                simp [skips, readPaths, huri, hsource, hlimit]

end SymbolIndex

namespace Stats

/-- Whether a file counts as skipped in the report. -/
def skips (disk : Disk) (limit : Nat) (path : Path) : Bool :=
  (readFiles disk limit [path]).skipped == 1

theorem skipped_readFiles (disk : Disk) (limit : Nat) (paths : List Path) :
    (readFiles disk limit paths).skipped = paths.countP (skips disk limit) := by
  induction paths with
  | nil => rfl
  | cons path paths ih =>
      rw [List.countP_cons, ← ih]
      cases huri : Uri.ofPath? path with
      | none => simp [skips, readFiles, huri]
      | some uri =>
          cases hread : disk.read path with
          | error cause => simp [skips, readFiles, huri, hread]
          | ok bytes =>
              by_cases hlimit : limit < bytes.length <;>
                simp [skips, readFiles, huri, hread, hlimit]

end Stats

/-! ## What is measured -/

section Measured

variable {disk : Disk} {path : Path} {bytes : List UInt8}

/-- Indexing skips a file if its URI leads to it and its text is above the limit. -/
theorem SymbolIndex.skips_iff (habs : path.isAbsolute = true) (hread : disk.read path = .ok bytes)
    (limit : Nat) :
    SymbolIndex.skips disk.source limit path = true ↔
      path.endsInDrive = false ∧ limit + lost bytes < bytes.length + gained bytes := by
  have hsize := byteSize_decodeFile bytes
  simp only [skips, readPaths, Uri.ofPath?_of_isAbsolute habs]
  rcases Disk.source_of_read habs hread with ⟨hsource, hdrive⟩ | ⟨⟨cause, hsource⟩, hdrive⟩
  · have hlimit : limit < byteSize (decodeFile bytes).toList ↔
        limit + lost bytes < bytes.length + gained bytes := by
      omega
    rw [hsource, hdrive, ← hlimit]
    by_cases habove : limit < byteSize (decodeFile bytes).toList <;> simp [habove]
  · rw [hsource, hdrive]
    simp

/-- The report skips a file if it has more bytes than the limit. -/
theorem Stats.skips_iff (habs : path.isAbsolute = true) (hread : disk.read path = .ok bytes)
    (limit : Nat) : Stats.skips disk limit path = true ↔ limit < bytes.length := by
  simp only [skips, readFiles, Uri.ofPath?_of_isAbsolute habs, hread]
  split <;> simp [*]

end Measured

namespace Stats

/-! ## The two limits -/

/-- A file is measured alike at every limit if it is empty, or if it is found and nothing is gained in all. -/
theorem forall_skips_iff {disk : Disk} {path : Path} {bytes : List UInt8} (habs : path.isAbsolute = true)
    (hread : disk.read path = .ok bytes) :
    (∀ limit, SymbolIndex.skips disk.source limit path = skips disk limit path) ↔
      bytes = [] ∨ path.endsInDrive = false ∧ gained bytes = lost bytes := by
  have hsame : ∀ limit, SymbolIndex.skips disk.source limit path = skips disk limit path ↔
      (path.endsInDrive = false ∧ limit + lost bytes < bytes.length + gained bytes ↔
        limit < bytes.length) := by
    intro limit
    rw [Bool.eq_iff_iff, SymbolIndex.skips_iff habs hread, skips_iff habs hread]
  simp only [hsame]
  constructor
  · intro hagree
    by_cases hempty : bytes = []
    · exact Or.inl hempty
    · have hpos : 0 < bytes.length := List.length_pos_iff.2 hempty
      -- The size of the file and the size below it are the two limits that tell.
      obtain ⟨hdrive, hbelow⟩ := (hagree (bytes.length - 1)).2 (by omega)
      have hat : ¬ bytes.length + lost bytes < bytes.length + gained bytes := by
        intro habove
        exact Nat.lt_irrefl _ ((hagree bytes.length).1 ⟨hdrive, habove⟩)
      exact Or.inr ⟨hdrive, by omega⟩
  · rintro (rfl | ⟨hdrive, heq⟩) limit
    · have hgained : gained [] = 0 := by
        simp [gained, malformed]
      simp [hgained]
    · simp [hdrive, heq]

/-- Indexing and the report skip a file at the same limits exactly if its malformed sequences gain as many bytes
as its byte order mark loses. A file that is not empty must also be found through its URI. -/
theorem size_limits_agree_iff {disk : Disk} {path : Path} {bytes : List UInt8}
    (habs : path.isAbsolute = true) (hread : disk.read path = .ok bytes) :
    ((∀ limit, SymbolIndex.skips disk.source limit path = skips disk limit path) ↔
        bytes = [] ∨ path.endsInDrive = false ∧ gained bytes = lost bytes) ∧
      (∀ limit,
        (SymbolIndex.skips disk.source limit path = true ↔
            path.endsInDrive = false ∧ limit + lost bytes < bytes.length + gained bytes) ∧
          (skips disk limit path = true ↔ limit < bytes.length)) ∧
      (isUtf8 bytes = true → gained bytes = 0) ∧
      ∀ (ix : SymbolIndex) (limit : Nat) (paths : List Path),
        (ix.indexPaths (some disk.source) paths limit).summary.skipped =
            paths.countP (SymbolIndex.skips disk.source limit) ∧
          (readFiles disk limit paths).skipped = paths.countP (skips disk limit) := by
  refine ⟨forall_skips_iff habs hread, ?_, gained_of_isUtf8, ?_⟩
  · intro limit
    exact ⟨SymbolIndex.skips_iff habs hread limit, skips_iff habs hread limit⟩
  · intro ix limit paths
    exact ⟨SymbolIndex.skipped_readPaths disk.source limit paths, skipped_readFiles disk limit paths⟩

/-- A directory with a script that starts with a byte order mark, and a link to it. -/
def markedDisk : Disk :=
  { nodes :=
      [([encode "ws".toList], .directory),
       ([encode "ws".toList, encode "a.ahk".toList],
        .file (byteOrderMark ++ encode "f() \x7b\n\x7d\n".toList)),
       ([encode "ws".toList, encode "b.ahk".toList], .link (Path.ofString "./a.ahk"))] }

/-- Behind a link, a marked script is measured as its text where it is indexed and as the file in the report. -/
theorem size_limits_agree_iff_behind_link :
    (Path.ofString "/ws/./b.ahk").isAbsolute = true ∧
      markedDisk.read (Path.ofString "/ws/./b.ahk") =
        .ok (byteOrderMark ++ encode "f() \x7b\n\x7d\n".toList) ∧
      SymbolIndex.skips markedDisk.source 7 (Path.ofString "/ws/./b.ahk") = true ∧
      SymbolIndex.skips markedDisk.source 8 (Path.ofString "/ws/./b.ahk") = false ∧
      skips markedDisk 8 (Path.ofString "/ws/./b.ahk") = true := by
  have habs : (Path.ofString "/ws/./b.ahk").isAbsolute = true := by
    decide
  have hread : markedDisk.read (Path.ofString "/ws/./b.ahk") =
      .ok (byteOrderMark ++ encode "f() \x7b\n\x7d\n".toList) := by
    decide +kernel
  obtain ⟨-, hlimits, hgained, -⟩ := size_limits_agree_iff habs hread
  have hdrive : (Path.ofString "/ws/./b.ahk").endsInDrive = false := by
    decide +kernel
  have hlost : lost (byteOrderMark ++ encode "f() \x7b\n\x7d\n".toList) = 3 := by
    decide +kernel
  have hlength : (byteOrderMark ++ encode "f() \x7b\n\x7d\n".toList).length = 11 := by
    decide +kernel
  rw [hdrive, hlost, hlength, hgained (by decide +kernel)] at hlimits
  refine ⟨habs, hread, (hlimits 7).1.2 (by decide), ?_, (hlimits 8).2.2 (by decide)⟩
  exact Bool.eq_false_iff.2 fun hskips => absurd ((hlimits 8).1.1 hskips).2 (by decide)

/-- The index takes a marked script that the report skips. -/
theorem marked_script_passes_index_limit :
    (SymbolIndex.indexPaths {} (some markedDisk.source) [Path.ofString "/ws/a.ahk"] 8).summary.skipped = 0 ∧
      (readFiles markedDisk 8 [Path.ofString "/ws/a.ahk"]).skipped = 1 := by
  decide +kernel

end Stats
end ScriptSymbols
