import ScriptSymbols.Proofs.Disk.Walk

/-!
# Whole walks

A walk first compiles its patterns and then goes through the tree, for as many steps as its listing allows.

1. `PathFilter.compile_cases`: the first bad pattern is told, the includes before the excludes.
2. `Walk.exists_enough`: from some number of steps on, a walk gives the answer of the recursion over the
   tree, and with fewer steps it gives none.
3. `Walk.KeyedBy` says that the listing of a directory depends on one of finitely many keys. Then the
   recursion needs one level more than there are keys (`Walk.KeyedBy.filesBelow_length`), and the bound of a
   table is enough. So is that of a disk (`Walk.isAnswer_listing`).
4. `Walk.collect_is_depth_first` is the result for whole walks, over any listings, over tables and over
   trees.
-/

namespace ScriptSymbols

/-! ## Patterns -/

namespace PathFilter

/-- The first of some patterns that is bad, with what is wrong with it. -/
def firstBad? (patterns : List String) : Option (String × Glob.Error) :=
  patterns.findSome? fun pattern =>
    match Glob.compile pattern with
    | .error cause => some (pattern, cause)
    | .ok _ => none

/-- Patterns are compiled up to the first that is bad. -/
theorem compileAll_cases (patterns : List String) :
    (∃ pattern cause, firstBad? patterns = some (pattern, cause) ∧
        compileAll patterns = .error (.badGlob pattern cause)) ∨
      firstBad? patterns = none ∧ ∃ tokens, compileAll patterns = .ok tokens := by
  induction patterns with
  | nil => exact Or.inr ⟨rfl, [], rfl⟩
  | cons pattern patterns ih =>
      rw [firstBad?, List.findSome?_cons, compileAll]
      cases hpattern : Glob.compile pattern with
      | error cause => exact Or.inl ⟨pattern, cause, rfl, rfl⟩
      | ok tokens =>
          rcases ih with ⟨bad, cause, hbad, hall⟩ | ⟨hbad, rest, hall⟩
          · exact Or.inl ⟨bad, cause, hbad, by simp [hall, Except.map]⟩
          · exact Or.inr ⟨hbad, tokens :: rest, by simp [hall, Except.map]⟩

/-- The includes are compiled before the excludes. -/
theorem compile_cases (includes excludes : List String) :
    (∃ pattern cause, firstBad? (includes ++ excludes) = some (pattern, cause) ∧
        compile includes excludes = .error (.badGlob pattern cause)) ∨
      firstBad? (includes ++ excludes) = none ∧ ∃ filter, compile includes excludes = .ok filter := by
  have happend : firstBad? (includes ++ excludes) = (firstBad? includes).or (firstBad? excludes) :=
    List.findSome?_append
  rw [happend, compile]
  rcases compileAll_cases includes with ⟨bad, cause, hbad, hall⟩ | ⟨hbad, tokens, hall⟩
  · exact Or.inl ⟨bad, cause, by simp [hbad], by simp [hall]⟩
  · rcases compileAll_cases excludes with ⟨bad, cause, hbad', hall'⟩ | ⟨hbad', tokens', hall'⟩
    · exact Or.inl ⟨bad, cause, by simp [hbad, hbad'], by simp [hall, hall', Except.map]⟩
    · exact Or.inr ⟨by simp [hbad, hbad'], ⟨tokens, tokens'⟩, by simp [hall, hall', Except.map]⟩

end PathFilter

namespace Walk

/-! ## Enough steps -/

section Bound

variable {list : Path → Except IoError (List Entry)} {wanted : String → String → Bool} {root : Path}
  {entries : List Entry} {levels : Nat} {answer : Answer}

/-- A walk that gives its answer from some number of steps on gives none before it comes to its end. -/
theorem exists_threshold {stack : List Frame} {found : List Path} {n : Nat}
    (h : ∀ steps, n ≤ steps → run list wanted steps stack found = some answer) :
    ∃ enough ≤ n, ∀ steps, run list wanted steps stack found = if enough ≤ steps then some answer else none := by
  have hends : ∃ steps, (run list wanted steps stack found).isSome := ⟨n, by simp [h n le_rfl]⟩
  refine ⟨Nat.find hends, Nat.find_min' hends (by simp [h n le_rfl]), fun steps => ?_⟩
  split
  · rename_i hle
    obtain ⟨first, hfirst⟩ := Option.isSome_iff_exists.1 (Nat.find_spec hends)
    have hsteps := run_mono hle hfirst
    -- With both numbers of steps the walk must also give the answer that it gives from then on.
    have hboth := run_mono (Nat.le_max_left steps n) hsteps
    rw [h _ (Nat.le_max_right steps n)] at hboth
    rw [hsteps, ← hboth]
  · rename_i hlt
    simpa using Nat.find_min hends (Nat.lt_of_not_le hlt)

theorem exists_enough (hlist : list root = .ok entries)
    (h : filesBelow list wanted (levels + 1) root [] = some answer) :
    ∃ enough, (∀ steps, run list wanted steps [⟨root, "", entries⟩] [] =
        if enough ≤ steps then some answer else none) ∧
      ∀ width, IsWide list width → enough ≤ (width + 2) ^ (levels + 1) := by
  rw [filesBelow_of_ok hlist] at h
  obtain ⟨n, htakes, hn⟩ := exists_takes_of_inOrder h
  have hrun : ∀ steps, n + 1 ≤ steps → run list wanted steps [⟨root, "", entries⟩] [] = some answer := by
    intro steps hle
    obtain ⟨more, rfl⟩ : ∃ k, steps = n + (k + 1) := ⟨steps - n - 1, by omega⟩
    refine (htakes (more + 1) [] []).trans ?_
    cases answer with
    | error cause => rfl
    | ok files => simp [resume, run]
  obtain ⟨enough, hle, henough⟩ := exists_threshold hrun
  refine ⟨enough, henough, fun width hwidth => ?_⟩
  exact hle.trans (succ_le_pow_succ (hwidth root entries hlist) (hn width hwidth))

end Bound

/-! ## Keys -/

/-- Whether directories with the same key have the same listing and, name by name, the same keys below them,
where the directories that can be listed have only certain keys. -/
structure KeyedBy {κ : Type} (list : Path → Except IoError (List Entry)) (key : Path → κ)
    (keys : List κ) : Prop where
  list_eq : ∀ {dir dir' : Path}, key dir = key dir' → list dir = list dir'
  key_join : ∀ {dir dir' : Path} (name : Path), key dir = key dir' → key (dir.join name) = key (dir'.join name)
  mem_keys : ∀ {dir : Path} {entries : List Entry}, list dir = .ok entries → key dir ∈ keys

/-- Whether the recursion needs one level more than a number for its answer. -/
def IsDeep (list : Path → Except IoError (List Entry)) (wanted : String → String → Bool) (levels : Nat)
    (dir : Path) (names : List String) : Prop :=
  filesBelow list wanted levels dir names = none ∧ (filesBelow list wanted (levels + 1) dir names).isSome

section Keys

variable {κ : Type} {list : Path → Except IoError (List Entry)} {wanted : String → String → Bool}
  {key : Path → κ} {keys : List κ} {dir dir' : Path} {names names' : List String} {levels levels' : Nat}
  {answer : Answer}

/-- The entries behind an entry depend on whether it has an answer, and on whether that is a failure. -/
theorem isOk_inOrder_cons (c : Entry → Option Answer) (entry : Entry) (entries : List Entry) :
    (inOrder c (entry :: entries)).map Except.isOk =
      ((c entry).map Except.isOk).bind fun ok =>
        if ok then (inOrder c entries).map Except.isOk else some false := by
  have hmap : ∀ (files : List Path) (rest : Answer), (rest.map (files ++ ·)).isOk = rest.isOk := by
    intro files rest
    cases rest <;> rfl
  rw [inOrder]
  rcases c entry with _ | (cause | files)
  · rfl
  · rfl
  · simp only [Option.map_map, Function.comp_def, hmap]
    rfl

theorem isOk_inOrder {c c' : Entry → Option Answer} {entries : List Entry}
    (h : ∀ entry ∈ entries, (c entry).map Except.isOk = (c' entry).map Except.isOk) :
    (inOrder c entries).map Except.isOk = (inOrder c' entries).map Except.isOk := by
  induction entries with
  | nil => rfl
  | cons entry entries ih =>
      obtain ⟨hhere, hbehind⟩ := List.forall_mem_cons.1 h
      rw [isOk_inOrder_cons, isOk_inOrder_cons, hhere, ih hbehind]

/-- Below directories with the same key the recursion needs the same levels. -/
theorem KeyedBy.isOk_filesBelow (hkeyed : KeyedBy list key keys) (hkey : key dir = key dir') :
    (filesBelow list wanted levels dir names).map Except.isOk =
      (filesBelow list wanted levels dir' names').map Except.isOk := by
  induction levels generalizing dir dir' names names' with
  | zero => rfl
  | succ levels ih =>
      have hlist := hkeyed.list_eq hkey
      cases hdir : list dir with
      | error cause =>
          rw [filesBelow_of_error hdir, filesBelow_of_error (hlist.symm.trans hdir)]
          rfl
      | ok entries =>
          rw [filesBelow_of_ok hdir, filesBelow_of_ok (hlist.symm.trans hdir)]
          refine isOk_inOrder fun entry _ => ?_
          rcases entry with ⟨name, kind⟩
          cases kind with
          | file => rfl
          | directory => exact ih (hkeyed.key_join _ hkey)
          | other => rfl

theorem KeyedBy.isDeep_of_key_eq (hkeyed : KeyedBy list key keys) (hkey : key dir = key dir')
    (h : IsDeep list wanted levels dir names) (names' : List String) :
    IsDeep list wanted levels dir' names' := by
  have hsame : ∀ n, (filesBelow list wanted n dir names).isSome =
      (filesBelow list wanted n dir' names').isSome := by
    intro n
    rw [← Option.isSome_map, hkeyed.isOk_filesBelow hkey, Option.isSome_map]
  obtain ⟨hnone, hsome⟩ := h
  refine ⟨?_, hsame (levels + 1) ▸ hsome⟩
  have hnot := hsame levels
  rw [hnone] at hnot
  exact Option.isNone_iff_eq_none.1 (by simp [← Option.not_isSome, ← hnot])

theorem IsDeep.le_of_eq_none (h : IsDeep list wanted levels dir names)
    (hnone : filesBelow list wanted levels' dir names = none) : levels' ≤ levels := by
  by_contra hlt
  obtain ⟨answer, hanswer⟩ := Option.isSome_iff_exists.1 h.2
  rw [filesBelow_mono (Nat.lt_of_not_le hlt) hanswer] at hnone
  cases hnone

/-- Directories that need different numbers of levels differ in their keys. -/
theorem KeyedBy.levels_eq (hkeyed : KeyedBy list key keys) (hkey : key dir = key dir')
    (h : IsDeep list wanted levels dir names) (h' : IsDeep list wanted levels' dir' names') :
    levels = levels' := by
  have hdeep := hkeyed.isDeep_of_key_eq hkey h names'
  exact Nat.le_antisymm (h'.le_of_eq_none hdeep.1) (hdeep.le_of_eq_none h'.1)

/-- Some number of levels is just enough. -/
theorem exists_isDeep (h : filesBelow list wanted levels dir names = some answer) :
    ∃ n, IsDeep list wanted n dir names ∧ filesBelow list wanted (n + 1) dir names = some answer := by
  induction levels with
  | zero => cases h
  | succ levels ih =>
      cases hless : filesBelow list wanted levels dir names with
      | none => exact ⟨levels, ⟨hless, by simp [h]⟩, h⟩
      | some answer' =>
          rw [filesBelow_mono (Nat.le_succ levels) hless] at h
          exact ih (hless.trans h)

/-- A directory for which one level is not enough can be listed. -/
theorem IsDeep.exists_list (h : IsDeep list wanted (levels + 1) dir names) :
    ∃ entries, list dir = .ok entries := by
  cases hlist : list dir with
  | error cause =>
      have hnone := h.1
      rw [filesBelow_of_error hlist] at hnone
      cases hnone
  | ok entries => exact ⟨entries, rfl⟩

/-- It has a directory in it that needs one level less. -/
theorem IsDeep.exists_below (h : IsDeep list wanted (levels + 1) dir names) :
    ∃ dir' names', IsDeep list wanted levels dir' names' := by
  obtain ⟨entries, hlist⟩ := h.exists_list
  obtain ⟨hnone, hsome⟩ := h
  by_contra hnot
  obtain ⟨answer, hanswer⟩ := Option.isSome_iff_exists.1 hsome
  rw [filesBelow_of_ok hlist] at hnone hanswer
  -- Otherwise one level less is enough for every entry, and so for all of them.
  have hless : ∀ path names answer, filesBelow list wanted (levels + 1) path names = some answer →
      filesBelow list wanted levels path names = some answer := by
    intro path names answer hpath
    cases hlevels : filesBelow list wanted levels path names with
    | none => exact absurd ⟨path, names, hlevels, by simp [hpath]⟩ hnot
    | some answer' =>
        rw [filesBelow_mono (Nat.le_succ levels) hlevels] at hpath
        exact hpath
  rw [inOrder_mono (fun entry _ answer => contribution_mono hless) hanswer] at hnone
  cases hnone

/-- With a directory that needs many levels there is one for each smaller number of levels. -/
theorem IsDeep.exists_of_le (h : IsDeep list wanted levels dir names) (hle : levels' ≤ levels) :
    ∃ dir' names', IsDeep list wanted levels' dir' names' := by
  induction levels generalizing dir names with
  | zero => exact ⟨dir, names, Nat.le_zero.1 hle ▸ h⟩
  | succ levels ih =>
      rcases Nat.lt_or_ge levels levels' with hlt | hge
      · exact ⟨dir, names, Nat.le_antisymm hle hlt ▸ h⟩
      · obtain ⟨dir', names', h'⟩ := h.exists_below
        exact ih h' hge

/-- The recursion needs no more levels than there are keys: for each number up to that there is a directory
which needs it, and no two of them have the same key. -/
theorem KeyedBy.le_length (hkeyed : KeyedBy list key keys) (h : IsDeep list wanted levels dir names) :
    levels ≤ keys.length := by
  have hchain : ∀ k : Fin levels, ∃ dir names, IsDeep list wanted (k + 1) dir names :=
    fun k => h.exists_of_le k.isLt
  choose chain names hchain using hchain
  have hinjective : Function.Injective fun k => key (chain k) := by
    intro k k' hkey
    have := hkeyed.levels_eq hkey (hchain k) (hchain k')
    exact Fin.ext (Nat.succ.inj this)
  have hsubset : List.ofFn (fun k => key (chain k)) ⊆ keys := by
    intro found hfound
    obtain ⟨k, rfl⟩ := List.mem_ofFn.1 hfound
    obtain ⟨entries, hlist⟩ := (hchain k).exists_list
    exact hkeyed.mem_keys hlist
  simpa using (List.subperm_of_subset (List.nodup_ofFn.2 hinjective) hsubset).length_le

/-- As many levels as there are keys, and one more, are enough. -/
theorem KeyedBy.filesBelow_length (hkeyed : KeyedBy list key keys)
    (h : filesBelow list wanted levels dir names = some answer) :
    filesBelow list wanted (keys.length + 1) dir names = some answer := by
  obtain ⟨n, hdeep, hn⟩ := exists_isDeep h
  exact filesBelow_mono (Nat.succ_le_succ (hkeyed.le_length hdeep)) hn

end Keys

end Walk

/-! ## Tables -/

namespace Path

theorem components_eq_nil_iff (p : Path) : p.components = [] ↔ p.bytes = [] := by
  rcases p with ⟨_ | ⟨b, bytes⟩⟩
  · exact iff_of_true (by decide) rfl
  · refine iff_of_false ?_ (List.cons_ne_nil b bytes)
    by_cases hb : b = slash
    · simp [components, isAbsolute, hb]
    · -- The first piece starts with the byte, so that it is a dot or names something.
      obtain ⟨piece, pieces, hpieces⟩ : ∃ piece pieces, splitSlash (b :: bytes) = (b :: piece) :: pieces := by
        rw [splitSlash, if_neg hb]
        split
        · exact ⟨[], [], rfl⟩
        · exact ⟨_, _, rfl⟩
      by_cases hdot : b :: piece = [dot]
      · simp [components, isAbsolute, hb, hpieces, hdot]
      · simp [components, isAbsolute, hb, hpieces, hdot, isNamed]

/-- A name below a directory adds its pieces to those of the directory, but for an empty piece at the end of
them. -/
theorem exists_pieces_of_join {dir name : Path} (hdir : dir.bytes ≠ []) (hname : name.isAbsolute = false) :
    ∃ pieces, splitSlash (dir.join name).bytes = pieces ++ splitSlash name.bytes ∧ pieces ≠ [] ∧
      (splitSlash dir.bytes = pieces ∨ splitSlash dir.bytes = pieces ++ [[]]) := by
  unfold join
  rw [if_neg (by simp [hname])]
  by_cases hslash : dir.bytes.getLast? = some slash
  · obtain ⟨front, hfront⟩ := List.getLast?_eq_some_iff.1 hslash
    refine ⟨splitSlash front, ?_, splitSlash_ne_nil front, Or.inr ?_⟩
    · rw [if_pos (Or.inr hslash), hfront, List.append_assoc, List.singleton_append, splitSlash_append]
    · rw [hfront]
      exact splitSlash_append front []
  · refine ⟨splitSlash dir.bytes, ?_, splitSlash_ne_nil _, Or.inl rfl⟩
    rw [if_neg (by simp [hdir, hslash]), splitSlash_append]

theorem components_join {dir name : Path} (hdir : dir.bytes ≠ []) (hname : name.isAbsolute = false) :
    (dir.join name).components = dir.components ++ (splitSlash name.bytes).filter isNamed := by
  have habs : (dir.join name).isAbsolute = dir.isAbsolute := by
    obtain ⟨b, bytes, hbytes⟩ := List.exists_cons_of_ne_nil hdir
    unfold join
    rw [if_neg (by simp [hname])]
    split <;> simp [isAbsolute, hbytes]
  obtain ⟨pieces, hjoin, hne, hpieces⟩ := exists_pieces_of_join hdir hname
  have hhead : (splitSlash dir.bytes).head? = pieces.head? := by
    rcases hpieces with h | h
    · rw [h]
    · rw [h, List.head?_append_of_ne_nil _ hne]
  -- The empty piece behind a slash at the end names nothing.
  have hnamed : (splitSlash dir.bytes).filter isNamed = pieces.filter isNamed := by
    rcases hpieces with h | h
    · rw [h]
    · simp [h, isNamed]
  unfold components
  dsimp only
  rw [habs, hjoin, hhead, hnamed, List.head?_append_of_ne_nil _ hne, List.filter_append]
  split
  · rfl
  · split <;> rfl

/-- Directories with the same components have the same components below them. -/
theorem components_join_congr {dir dir' : Path} (name : Path) (h : dir.components = dir'.components) :
    (dir.join name).components = (dir'.join name).components := by
  by_cases hname : name.isAbsolute = true
  · simp [join, hname]
  · have hempty : dir.bytes = [] ↔ dir'.bytes = [] := by
      rw [← components_eq_nil_iff, ← components_eq_nil_iff, h]
    by_cases hdir : dir.bytes = []
    · have hsame : dir = dir' := by
        rcases dir with ⟨bytes⟩
        rcases dir' with ⟨bytes'⟩
        exact congrArg Path.mk (hdir.trans (hempty.1 hdir).symm)
      rw [hsame]
    · have hname := Bool.eq_false_iff.2 hname
      rw [components_join hdir hname, components_join (mt hempty.2 hdir) hname, h]

end Path

namespace Listing

variable (table : List (Path × List Entry)) (refusal : IoError)

theorem exists_mem_of_ofTable {dir : Path} {entries : List Entry}
    (h : (ofTable table refusal).list dir = .ok entries) :
    ∃ row ∈ table, row.1.components = dir.components ∧ row.2 = entries := by
  simp only [ofTable] at h
  split at h
  · rename_i found hfound
    cases h
    refine ⟨_, List.mem_of_find?_eq_some hfound, ?_, rfl⟩
    simpa using List.find?_some hfound
  · cases h

theorem keyedBy_ofTable :
    Walk.KeyedBy (ofTable table refusal).list Path.components (table.map (·.1.components)) where
  list_eq h := by simp only [ofTable, h]
  key_join name h := Path.components_join_congr name h
  mem_keys h := by
    obtain ⟨row, hrow, hkey, -⟩ := exists_mem_of_ofTable table refusal h
    exact List.mem_map.2 ⟨row, hrow, hkey⟩

theorem isWide_ofTable : Walk.IsWide (ofTable table refusal).list (total (·.2.length) table) := by
  intro dir entries h
  obtain ⟨row, hrow, -, rfl⟩ := exists_mem_of_ofTable table refusal h
  exact count_le_total (·.2.length) hrow

end Listing

/-! ## Whole walks -/

namespace Walk

/-- Whether a file is wanted: its name has one of the extensions, and the patterns keep its relative
path. -/
def wantedBy (extensions : List String) (filter : PathFilter) (name relative : String) : Bool :=
  hasExtension extensions (Path.ofString name) && filter.accepts relative

/-- Whether an answer is that of the recursion over the tree, with the compiled patterns. It is a failure if
a walk comes to a directory that cannot be listed. -/
structure IsAnswer (list : Path → Except IoError (List Entry)) (extensions : List String) (root : Path)
    (includes excludes : List String) (answer : Answer) : Prop where
  recursion : ∃ filter levels, PathFilter.compile includes excludes = .ok filter ∧
    filesBelow list (wantedBy extensions filter) levels root [] = some answer
  failure : ∀ failure, answer = .error failure ↔
    ∃ place dir cause, Reaches list root place dir ∧ list dir = .error cause ∧ failure = .unlisted dir cause

section Collect

variable {list : Path → Except IoError (List Entry)} {extensions : List String} {root : Path}
  {includes excludes : List String} {filter : PathFilter} {levels : Nat} {answer : Answer}

theorem isAnswer_of_filesBelow (hfilter : PathFilter.compile includes excludes = .ok filter)
    (h : filesBelow list (wantedBy extensions filter) levels root [] = some answer) :
    IsAnswer list extensions root includes excludes answer where
  recursion := ⟨filter, levels, hfilter, h⟩
  failure _ := answer_eq_error_iff h

theorem collect_of_ok {entries : List Entry} (hfilter : PathFilter.compile includes excludes = .ok filter)
    (hlist : list root = .ok entries) (bound : Nat) :
    collect ⟨list, bound⟩ extensions root includes excludes =
      (run list (wantedBy extensions filter) bound [⟨root, "", entries⟩] []).getD (.error (.endless root)) := by
  unfold collect
  rw [hfilter]
  simp only [hlist]
  split <;> rename_i hrun
  · exact (congrArg (Option.getD · (.error (.endless root))) hrun).symm
  · exact (congrArg (Option.getD · (.error (.endless root))) hrun).symm

/-- A walk gives the answer of the recursion from some bound on, which is not far off where the listings are
short. -/
theorem exists_bound (hfilter : PathFilter.compile includes excludes = .ok filter)
    (h : filesBelow list (wantedBy extensions filter) levels root [] = some answer) :
    ∃ enough, (∀ bound, collect ⟨list, bound⟩ extensions root includes excludes =
        if enough ≤ bound then answer else .error (.endless root)) ∧
      ∀ width, IsWide list width → enough ≤ (width + 2) ^ levels := by
  cases levels with
  | zero => cases h
  | succ levels =>
      cases hlist : list root with
      | error cause =>
          rw [filesBelow_of_error hlist] at h
          cases h
          exact ⟨0, by simp [collect, hfilter, hlist], by simp⟩
      | ok entries =>
          obtain ⟨enough, hrun, hwide⟩ := exists_enough hlist h
          refine ⟨enough, fun bound => ?_, hwide⟩
          rw [collect_of_ok hfilter hlist, hrun]
          split <;> rfl

/-- A bound is enough if it allows for the levels of the recursion and the width of the listings. -/
theorem isAnswer_of_isWide (hfilter : PathFilter.compile includes excludes = .ok filter)
    (h : filesBelow list (wantedBy extensions filter) levels root [] = some answer) {width bound : Nat}
    (hwide : IsWide list width) (hbound : (width + 2) ^ levels ≤ bound) :
    IsAnswer list extensions root includes excludes
      (collect ⟨list, bound⟩ extensions root includes excludes) := by
  obtain ⟨enough, hcollect, hle⟩ := exists_bound hfilter h
  rw [hcollect, if_pos ((hle width hwide).trans hbound)]
  exact isAnswer_of_filesBelow hfilter h

theorem IsAnswer.mem_iff {files : List Path} (h : IsAnswer list extensions root includes excludes (.ok files))
    (hfilter : PathFilter.compile includes excludes = .ok filter) {p : Path} :
    p ∈ files ↔ Finds list (wantedBy extensions filter) root [] p := by
  obtain ⟨filter', levels, hfilter', hfiles⟩ := h.recursion
  cases hfilter.symm.trans hfilter'
  exact mem_filesBelow_iff hfiles

/-- A walk finds its files if all directories that it comes to can be listed. -/
theorem IsAnswer.exists_files_iff (h : IsAnswer list extensions root includes excludes answer) :
    (∃ files, answer = .ok files) ↔ Complete list root := by
  obtain ⟨filter, levels, -, hanswer⟩ := h.recursion
  constructor
  · rintro ⟨files, rfl⟩
    exact complete_of_filesBelow hanswer
  · intro hcomplete
    exact hcomplete.exists_files hanswer

end Collect

/-- The bound of a table is enough. -/
theorem isAnswer_ofTable {table : List (Path × List Entry)} {refusal : IoError} {extensions : List String}
    {root : Path} {includes excludes : List String} {filter : PathFilter}
    (hfilter : PathFilter.compile includes excludes = .ok filter)
    (hfinite : (places (Listing.ofTable table refusal).list root).Finite) :
    IsAnswer (Listing.ofTable table refusal).list extensions root includes excludes
      (collect (Listing.ofTable table refusal) extensions root includes excludes) := by
  obtain ⟨levels, answer, h⟩ := (finite_places_iff (wantedBy extensions filter) []).1 hfinite
  -- The number of rows bounds the levels, and the number of all entries the width.
  have hlength := (Listing.keyedBy_ofTable table refusal).filesBelow_length h
  rw [List.length_map] at hlength
  exact isAnswer_of_isWide hfilter hlength (Listing.isWide_ofTable table refusal)
    (Nat.pow_le_pow_right (by omega) (by omega))

/-- The bound of a disk is enough, also where names coincide as they are listed. -/
theorem isAnswer_listing {disk : Disk} (h : disk.IsRooted) {extensions : List String} {root : Path}
    {includes excludes : List String} {filter : PathFilter}
    (hfilter : PathFilter.compile includes excludes = .ok filter) :
    IsAnswer disk.list extensions root includes excludes
      (collect disk.listing extensions root includes excludes) := by
  obtain ⟨answer, hanswer⟩ := h.exists_answer (wantedBy extensions filter) root
  exact isAnswer_of_isWide hfilter hanswer disk.isWide_list le_rfl

/-- A walk gives the answer of the recursion over the tree. A bad pattern is told whatever the listings are,
the first include before the first exclude. Otherwise the files come depth first, in the order of the
listings, or the first directory that cannot be listed is told, provided that the walk comes to finitely
many directories and may take enough steps. A table and a tree allow enough. Where no name is empty, the
patterns see names joined with slashes. -/
theorem collect_is_depth_first (extensions : List String) (root : Path) (includes excludes : List String) :
    (∀ pattern cause, PathFilter.firstBad? (includes ++ excludes) = some (pattern, cause) →
      ∀ listing, collect listing extensions root includes excludes = .error (.badGlob pattern cause)) ∧
    (PathFilter.firstBad? (includes ++ excludes) = none →
      (∀ list, (places list root).Finite →
        ∃ answer enough, IsAnswer list extensions root includes excludes answer ∧
          ∀ bound, collect ⟨list, bound⟩ extensions root includes excludes =
            if enough ≤ bound then answer else .error (.endless root)) ∧
      (∀ table refusal, (places (Listing.ofTable table refusal).list root).Finite →
        IsAnswer (Listing.ofTable table refusal).list extensions root includes excludes
          (collect (Listing.ofTable table refusal) extensions root includes excludes)) ∧
      (∀ disk : Disk, disk.IsTree → root.isAbsolute = true →
        IsAnswer disk.list extensions root includes excludes
          (collect disk.listing extensions root includes excludes))) ∧
    (∀ names : List String, (∀ name ∈ names, name ≠ "") → joined names = "/".intercalate names) := by
  refine ⟨?_, ?_, fun _ => joined_eq_intercalate⟩
  · intro pattern cause hbad listing
    rcases PathFilter.compile_cases includes excludes with ⟨bad, reason, hfirst, hcompile⟩ | ⟨hnone, -⟩
    · rw [hbad] at hfirst
      cases hfirst
      simp [collect, hcompile]
    · rw [hbad] at hnone
      cases hnone
  · intro hgood
    obtain ⟨filter, hfilter⟩ : ∃ filter, PathFilter.compile includes excludes = .ok filter := by
      rcases PathFilter.compile_cases includes excludes with ⟨bad, reason, hfirst, -⟩ | ⟨-, hfilter⟩
      · rw [hgood] at hfirst
        cases hfirst
      · exact hfilter
    refine ⟨?_, fun _ _ => isAnswer_ofTable hfilter, fun _ htree _ => isAnswer_listing htree.toIsRooted hfilter⟩
    intro list hfinite
    obtain ⟨levels, answer, h⟩ := (finite_places_iff (wantedBy extensions filter) []).1 hfinite
    obtain ⟨enough, hcollect, -⟩ := exists_bound hfilter h
    exact ⟨answer, enough, isAnswer_of_filesBelow hfilter h, hcollect⟩

/-- A directory is walked before the files behind it, a pattern keeps one file out, and a link is not
followed. Without the rows of two directories, the first of them is told. -/
theorem collect_is_depth_first_in_two_tables :
    let root := Path.ofString "/w"
    let top : Path × List Entry :=
      (root, [⟨"a.ahk", .file⟩, ⟨"lib", .directory⟩, ⟨"link", .other⟩, ⟨"z.AHK", .file⟩, ⟨"notes.txt", .file⟩])
    let lib : Path × List Entry :=
      (Path.ofString "/w/lib", [⟨"b.ahk", .file⟩, ⟨"old", .directory⟩, ⟨"c.ahk", .file⟩, ⟨"gone", .directory⟩])
    let old : Path × List Entry := (Path.ofString "/w/lib/old", [⟨"d.ahk", .file⟩, ⟨"e.ahk", .file⟩])
    let gone : Path × List Entry := (Path.ofString "/w/lib/gone", [])
    let full := Listing.ofTable [top, lib, old, gone] .notFound
    let short := Listing.ofTable [top, lib] .notFound
    let answer listing := collect listing defaultExtensions root [] ["**/e.*"]
    PathFilter.firstBad? ([] ++ ["**/e.*"]) = none ∧
      (places full.list root).Finite ∧
      IsAnswer full.list defaultExtensions root [] ["**/e.*"] (answer full) ∧
      answer full =
        .ok (["/w/a.ahk", "/w/lib/b.ahk", "/w/lib/old/d.ahk", "/w/lib/c.ahk", "/w/z.AHK"].map Path.ofString) ∧
      (places short.list root).Finite ∧
      IsAnswer short.list defaultExtensions root [] ["**/e.*"] (answer short) ∧
      answer short = .error (.unlisted (Path.ofString "/w/lib/old") .notFound) := by
  intro root top lib old gone full short answer
  have hgood : PathFilter.firstBad? ([] ++ ["**/e.*"]) = none := by decide +kernel
  have hfinite : ∀ list, (filesBelow list (fun _ _ => true) 3 root []).isSome → (places list root).Finite := by
    intro list h
    obtain ⟨files, hfiles⟩ := Option.isSome_iff_exists.1 h
    exact (finite_places_iff _ []).2 ⟨3, files, hfiles⟩
  have hfull := hfinite full.list (by decide +kernel)
  have hshort := hfinite short.list (by decide +kernel)
  obtain ⟨-, htable, -⟩ := (collect_is_depth_first defaultExtensions root [] ["**/e.*"]).2.1 hgood
  exact ⟨hgood, hfull, htable _ _ hfull, by decide +kernel, hshort, htable _ _ hshort, by decide +kernel⟩

end Walk
end ScriptSymbols
