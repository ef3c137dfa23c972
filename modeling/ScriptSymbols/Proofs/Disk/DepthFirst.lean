import Mathlib.Data.Set.Card
import Mathlib.Data.Set.Finite.Lattice
import ScriptSymbols.Walk

/-!
# Walks depth first

A walk keeps a stack of directories, each with the entries that are still to be visited. What it finds is
said by a recursion over the tree, in which there is no stack.

1. `Walk.filesBelow` is that recursion: each entry contributes its files, one after another, up to the first
   failure.
2. `Walk.Reaches` says which directories a walk comes to. `Walk.finite_places_iff`: if these are finitely
   many, the recursion has an answer, and only then. `Walk.answer_eq_error_iff`: the answer is a failure if
   one of them cannot be listed.
3. `Walk.exists_takes_of_inOrder`: from any stack, a walk goes on with what the entries on top of it
   contribute.
-/

namespace ScriptSymbols

namespace Walk

/-! ## The recursion -/

/-- What a walk answers: the files that it finds, or why it fails. -/
abbrev Answer := Except IndexError (List Path)

/-- The names on the way from the root, joined with slashes. Empty names in front, which no directory has,
add nothing. -/
def joined (names : List String) : String :=
  "/".intercalate (names.dropWhile (·.isEmpty))

/-- What entries contribute one after another: their files in order, or the first failure. There is no
answer if an entry before that has none. -/
def inOrder (contribution : Entry → Option Answer) : List Entry → Option Answer
  | [] => some (.ok [])
  | entry :: entries =>
    match contribution entry with
    | none => none
    | some (.error cause) => some (.error cause)
    | some (.ok files) => (inOrder contribution entries).map fun rest => rest.map (files ++ ·)

/-- What an entry of a directory contributes: a wanted file its path, a directory all that is `below` it,
and anything else nothing. -/
def contribution (wanted : String → String → Bool) (below : Path → List String → Option Answer) (dir : Path)
    (names : List String) (entry : Entry) : Option Answer :=
  match entry.kind with
  | .file =>
    some (.ok
      (if wanted entry.name (joined (names ++ [entry.name])) then [dir.join (Path.ofString entry.name)]
      else []))
  | .directory => below (dir.join (Path.ofString entry.name)) (names ++ [entry.name])
  | .other => some (.ok [])

/-- The files below the directory that `names` lead to, or the first directory in that order which cannot be
listed. There is no answer if that takes more than the given number of levels of directories. -/
def filesBelow (list : Path → Except IoError (List Entry)) (wanted : String → String → Bool) :
    Nat → Path → List String → Option Answer
  | 0, _, _ => none
  | levels + 1, dir, names =>
    match list dir with
    | .error cause => some (.error (.unlisted dir cause))
    | .ok entries => inOrder (contribution wanted (filesBelow list wanted levels) dir names) entries

section InOrder

variable {c c' : Entry → Option Answer} {entry : Entry} {entries : List Entry} {answer : Answer}

/-- An answer for some entries comes from the first of them, if it fails, or else from all. -/
theorem inOrder_cons_eq_some_iff :
    inOrder c (entry :: entries) = some answer ↔
      (∃ cause, c entry = some (.error cause) ∧ answer = .error cause) ∨
        ∃ files rest, c entry = some (.ok files) ∧ inOrder c entries = some rest ∧
          answer = rest.map (files ++ ·) := by
  rw [inOrder]
  rcases hentry : c entry with _ | (cause | files)
  · simp
  · simp [eq_comm]
  · simp [eq_comm]

theorem inOrder_mono (h : ∀ entry ∈ entries, ∀ answer, c entry = some answer → c' entry = some answer)
    (hsome : inOrder c entries = some answer) : inOrder c' entries = some answer := by
  induction entries generalizing answer with
  | nil => exact hsome
  | cons entry entries ih =>
      have hhere := h entry List.mem_cons_self
      have hrest := fun e he => h e (List.mem_cons_of_mem entry he)
      rw [inOrder_cons_eq_some_iff] at hsome ⊢
      rcases hsome with ⟨cause, hentry, rfl⟩ | ⟨files, rest, hentry, hbehind, rfl⟩
      · exact Or.inl ⟨cause, hhere _ hentry, rfl⟩
      · exact Or.inr ⟨files, rest, hhere _ hentry, ih hrest hbehind, rfl⟩

/-- Entries that together contribute files do so one by one. -/
theorem exists_files_of_inOrder {files : List Path} (h : inOrder c entries = some (.ok files)) :
    ∀ entry ∈ entries, ∃ files, c entry = some (.ok files) := by
  induction entries generalizing files with
  | nil => simp
  | cons entry entries ih =>
      rcases inOrder_cons_eq_some_iff.1 h with ⟨cause, -, hfail⟩ | ⟨first, rest, hentry, hrest, hfiles⟩
      · cases hfail
      · cases rest with
        | error cause => cases hfiles
        | ok rest => exact List.forall_mem_cons.2 ⟨⟨first, hentry⟩, ih hrest⟩

/-- Entries of which none fails do not fail together. -/
theorem exists_files_of_forall
    (h : ∀ entry ∈ entries, ∀ answer, c entry = some answer → ∃ files, answer = .ok files)
    (hsome : inOrder c entries = some answer) : ∃ files, answer = .ok files := by
  induction entries generalizing answer with
  | nil =>
      cases hsome
      exact ⟨[], rfl⟩
  | cons entry entries ih =>
      obtain ⟨hhere, hbehind⟩ := List.forall_mem_cons.1 h
      rcases inOrder_cons_eq_some_iff.1 hsome with ⟨cause, hentry, -⟩ | ⟨first, rest, -, hrest, rfl⟩
      · obtain ⟨files, hfiles⟩ := hhere _ hentry
        cases hfiles
      · obtain ⟨files, rfl⟩ := ih hbehind hrest
        exact ⟨first ++ files, rfl⟩

/-- An entry is asked for its contribution, behind those before it, if none of these fails. -/
theorem exists_answer_of_inOrder {before behind : List Entry}
    (h : ∀ entry ∈ before, ∀ answer, c entry = some answer → ∃ files, answer = .ok files)
    (hsome : inOrder c (before ++ entry :: behind) = some answer) :
    (∀ entry ∈ before, ∃ files, c entry = some (.ok files)) ∧ ∃ answer, c entry = some answer := by
  induction before generalizing answer with
  | nil =>
      rcases inOrder_cons_eq_some_iff.1 hsome with ⟨cause, hentry, -⟩ | ⟨files, rest, hentry, -⟩
      · exact ⟨by simp, _, hentry⟩
      · exact ⟨by simp, _, hentry⟩
  | cons first before ih =>
      obtain ⟨hfirst, hbefore⟩ := List.forall_mem_cons.1 h
      rcases inOrder_cons_eq_some_iff.1 hsome with ⟨cause, hcause, -⟩ | ⟨files, rest, hfiles, hrest, -⟩
      · obtain ⟨files, hfiles⟩ := hfirst _ hcause
        cases hfiles
      · obtain ⟨hgone, hentry⟩ := ih hbefore hrest
        exact ⟨List.forall_mem_cons.2 ⟨⟨files, hfiles⟩, hgone⟩, hentry⟩

/-- Entries fail with the first of them that fails. -/
theorem inOrder_eq_error_iff {failure : IndexError} :
    inOrder c entries = some (.error failure) ↔
      ∃ before entry behind, entries = before ++ entry :: behind ∧
        (∀ entry ∈ before, ∃ files, c entry = some (.ok files)) ∧ c entry = some (.error failure) := by
  induction entries with
  | nil => simp [inOrder]
  | cons first entries ih =>
      rw [inOrder_cons_eq_some_iff]
      constructor
      · rintro (⟨cause, hfirst, hcause⟩ | ⟨files, rest, hfirst, hrest, hfailure⟩)
        · cases hcause
          exact ⟨[], first, entries, rfl, by simp, hfirst⟩
        · cases rest with
          | ok rest => cases hfailure
          | error cause =>
              cases hfailure
              obtain ⟨before, entry, behind, rfl, hbefore, hentry⟩ := ih.1 hrest
              have hfiles := List.forall_mem_cons.2 ⟨⟨files, hfirst⟩, hbefore⟩
              exact ⟨first :: before, entry, behind, rfl, hfiles, hentry⟩
      · rintro ⟨before, entry, behind, heq, hbefore, hentry⟩
        cases before with
        | nil =>
            cases heq
            exact Or.inl ⟨failure, hentry, rfl⟩
        | cons _ before =>
            cases heq
            obtain ⟨⟨files, hfirst⟩, hbefore⟩ := List.forall_mem_cons.1 hbefore
            have hrest := ih.2 ⟨before, entry, behind, rfl, hbefore, hentry⟩
            exact Or.inr ⟨files, .error failure, hfirst, hrest, rfl⟩

end InOrder

section FilesBelow

variable {list : Path → Except IoError (List Entry)} {wanted : String → String → Bool} {dir : Path}
  {names : List String} {entries : List Entry} {levels : Nat} {answer : Answer}

theorem filesBelow_of_ok (hlist : list dir = .ok entries) (levels : Nat) :
    filesBelow list wanted (levels + 1) dir names =
      inOrder (contribution wanted (filesBelow list wanted levels) dir names) entries := by
  rw [filesBelow, hlist]

theorem filesBelow_of_error {cause : IoError} (hlist : list dir = .error cause) (levels : Nat) :
    filesBelow list wanted (levels + 1) dir names = some (.error (.unlisted dir cause)) := by
  rw [filesBelow, hlist]

/-- An entry contributes the same if all below it does. -/
theorem contribution_mono {below below' : Path → List String → Option Answer} {entry : Entry}
    (h : ∀ dir names answer, below dir names = some answer → below' dir names = some answer)
    (hsome : contribution wanted below dir names entry = some answer) :
    contribution wanted below' dir names entry = some answer := by
  unfold contribution at hsome ⊢
  cases hkind : entry.kind with
  | file => simpa only [hkind] using hsome
  | directory =>
      simp only [hkind] at hsome ⊢
      exact h _ _ _ hsome
  | other => simpa only [hkind] using hsome

/-- Only directories can fail. -/
theorem exists_files_of_contribution {below : Path → List String → Option Answer} {entry : Entry}
    (h : ∀ name, entry = ⟨name, .directory⟩ → ∀ answer,
      below (dir.join (Path.ofString name)) (names ++ [name]) = some answer → ∃ files, answer = .ok files)
    (hsome : contribution wanted below dir names entry = some answer) : ∃ files, answer = .ok files := by
  rcases entry with ⟨name, kind⟩
  cases kind with
  | file => exact ⟨_, (Option.some.inj hsome).symm⟩
  | directory => exact h name rfl answer hsome
  | other => exact ⟨_, (Option.some.inj hsome).symm⟩

/-- With more levels allowed, the answer stays. -/
theorem filesBelow_mono {more : Nat} (hle : levels ≤ more)
    (h : filesBelow list wanted levels dir names = some answer) :
    filesBelow list wanted more dir names = some answer := by
  induction levels generalizing more dir names answer with
  | zero => cases h
  | succ levels ih =>
      obtain ⟨more, rfl⟩ : ∃ n, more = n + 1 := ⟨more - 1, by omega⟩
      cases hlist : list dir with
      | error cause =>
          rw [filesBelow_of_error hlist] at h ⊢
          exact h
      | ok entries =>
          rw [filesBelow_of_ok hlist] at h ⊢
          refine inOrder_mono (fun entry _ answer hentry => ?_) h
          exact contribution_mono (fun _ _ _ => ih (Nat.le_of_succ_le_succ hle)) hentry

theorem contribution_filesBelow_mono {more : Nat} {entry : Entry} (hle : levels ≤ more)
    (h : contribution wanted (filesBelow list wanted levels) dir names entry = some answer) :
    contribution wanted (filesBelow list wanted more) dir names entry = some answer :=
  contribution_mono (fun _ _ _ => filesBelow_mono hle) h

theorem inOrder_filesBelow_mono {more : Nat} (hle : levels ≤ more)
    (h : inOrder (contribution wanted (filesBelow list wanted levels) dir names) entries = some answer) :
    inOrder (contribution wanted (filesBelow list wanted more) dir names) entries = some answer :=
  inOrder_mono (fun _ _ _ => contribution_filesBelow_mono hle) h

end FilesBelow

/-! ## Directories that a walk comes to -/

/-- Whether a directory and all the directories below it can be listed. -/
inductive Complete (list : Path → Except IoError (List Entry)) : Path → Prop
  | intro {dir : Path} {entries : List Entry} (listed : list dir = .ok entries)
      (below : ∀ name, ⟨name, .directory⟩ ∈ entries → Complete list (dir.join (Path.ofString name))) :
      Complete list dir

/-- Whether a walk gets through some of the entries of a directory. -/
def Passed (list : Path → Except IoError (List Entry)) (dir : Path) (before : List Entry) : Prop :=
  ∀ name, ⟨name, .directory⟩ ∈ before → Complete list (dir.join (Path.ofString name))

/-- The directories that a walk comes to, each with its place in the tree: the numbers of the entries on the
way to it. A walk comes to an entry once it is through with the entries before it. -/
inductive Reaches (list : Path → Except IoError (List Entry)) (root : Path) : List Nat → Path → Prop
  | root : Reaches list root [] root
  | entry {place : List Nat} {dir : Path} {before behind : List Entry} {name : String} :
      Reaches list root place dir →
      list dir = .ok (before ++ ⟨name, .directory⟩ :: behind) → Passed list dir before →
      Reaches list root (place ++ [before.length]) (dir.join (Path.ofString name))

/-- The places that a walk from a root comes to. -/
def places (list : Path → Except IoError (List Entry)) (root : Path) : Set (List Nat) :=
  {place | ∃ dir, Reaches list root place dir}

section Reaches

variable {list : Path → Except IoError (List Entry)} {wanted : String → String → Bool} {dir : Path}
  {names : List String} {before behind : List Entry} {name : String} {levels : Nat} {answer : Answer}

theorem passed_nil : Passed list dir [] :=
  fun _ hmem => absurd hmem List.not_mem_nil

theorem Passed.concat {entry : Entry} (h : Passed list dir before)
    (hentry : ∀ name, entry = ⟨name, .directory⟩ → Complete list (dir.join (Path.ofString name))) :
    Passed list dir (before ++ [entry]) := by
  intro name hname
  rcases List.mem_append.1 hname with hname | hname
  · exact h name hname
  · exact hentry name (List.mem_singleton.1 hname).symm

/-- What a walk comes to below an entry, it comes to from the directory of the entry. -/
theorem Reaches.of_entry (hlist : list dir = .ok (before ++ ⟨name, .directory⟩ :: behind))
    (hbefore : Passed list dir before) {place : List Nat} {found : Path}
    (h : Reaches list (dir.join (Path.ofString name)) place found) :
    Reaches list dir (before.length :: place) found := by
  induction h with
  | root => exact .entry .root hlist hbefore
  | entry _ hlist' hbefore' ih => exact .entry ih hlist' hbefore'

/-- A walk comes to the root itself, or to what is below one of its entries. -/
theorem Reaches.cases_front {place : List Nat} {found : Path} (h : Reaches list dir place found) :
    place = [] ∧ found = dir ∨
      ∃ before name behind rest, list dir = .ok (before ++ ⟨name, .directory⟩ :: behind) ∧
        Passed list dir before ∧ place = before.length :: rest ∧
          Reaches list (dir.join (Path.ofString name)) rest found := by
  induction h with
  | root => exact Or.inl ⟨rfl, rfl⟩
  | @entry place parent before behind name _ hlist hbefore ih =>
      right
      rcases ih with ⟨rfl, rfl⟩ | ⟨before', name', behind', rest, hlist', hbefore', rfl, hrest⟩
      · exact ⟨before, name, behind, [], hlist, hbefore, rfl, .root⟩
      · exact ⟨before', name', behind', rest ++ [before.length], hlist', hbefore', rfl,
          .entry hrest hlist hbefore⟩

theorem complete_of_filesBelow {files : List Path}
    (h : filesBelow list wanted levels dir names = some (.ok files)) :
    Complete list dir := by
  induction levels generalizing dir names files with
  | zero => cases h
  | succ levels ih =>
      cases hlist : list dir with
      | error cause =>
          rw [filesBelow_of_error hlist] at h
          cases h
      | ok entries =>
          rw [filesBelow_of_ok hlist] at h
          refine .intro hlist fun name hname => ?_
          obtain ⟨inner, hinner⟩ := exists_files_of_inOrder h _ hname
          exact ih hinner

/-- Where all directories can be listed, no failure is the answer. -/
theorem Complete.exists_files (h : Complete list dir)
    (hsome : filesBelow list wanted levels dir names = some answer) : ∃ files, answer = .ok files := by
  induction levels generalizing dir names answer with
  | zero => cases hsome
  | succ levels ih =>
      obtain ⟨hlist, hbelow⟩ := h
      rw [filesBelow_of_ok hlist] at hsome
      refine exists_files_of_forall (fun entry hentry answer => exists_files_of_contribution ?_) hsome
      rintro name rfl answer hanswer
      exact ih (hbelow name hentry) hanswer

/-- What a walk comes to below an entry is less than what it comes to from the directory of the entry. -/
theorem places_of_entry (hlist : list dir = .ok (before ++ ⟨name, .directory⟩ :: behind))
    (hbefore : Passed list dir before) (hfinite : (places list dir).Finite) :
    (places list (dir.join (Path.ofString name))).Finite ∧
      (places list (dir.join (Path.ofString name))).ncard < (places list dir).ncard := by
  have hinjective : Function.Injective (before.length :: · : List Nat → List Nat) := List.cons_injective
  -- The number of the entry in front leads from the places below it to those of the directory, of which one
  -- is the directory itself.
  have hsubset : (before.length :: ·) '' places list (dir.join (Path.ofString name)) ⊂ places list dir := by
    refine (Set.ssubset_iff_of_subset ?_).2 ⟨[], ⟨dir, .root⟩, by simp⟩
    rintro _ ⟨place, ⟨found, hfound⟩, rfl⟩
    exact ⟨found, hfound.of_entry hlist hbefore⟩
  refine ⟨Set.Finite.of_finite_image (hfinite.subset hsubset.subset) hinjective.injOn, ?_⟩
  rw [← Set.ncard_image_of_injective _ hinjective]
  exact Set.ncard_lt_ncard hsubset hfinite

/-- Entries have an answer if the directories among them that a walk comes to have one. -/
theorem exists_answer_of_entries (before behind : List Entry) (names : List String)
    (hlist : list dir = .ok (before ++ behind)) (hbefore : Passed list dir before)
    (hbelow : ∀ before name behind, list dir = .ok (before ++ ⟨name, .directory⟩ :: behind) →
      Passed list dir before → ∀ names, ∃ levels answer,
        filesBelow list wanted levels (dir.join (Path.ofString name)) names = some answer) :
    ∃ levels answer,
      inOrder (contribution wanted (filesBelow list wanted levels) dir names) behind = some answer := by
  induction behind generalizing before with
  | nil => exact ⟨0, _, rfl⟩
  | cons entry behind ih =>
      -- It is enough that the entry contributes files that the walk can go on from.
      have hnext : ∀ levels files,
          contribution wanted (filesBelow list wanted levels) dir names entry = some (.ok files) →
          (∀ other, entry = ⟨other, .directory⟩ → Complete list (dir.join (Path.ofString other))) →
          ∃ levels answer,
            inOrder (contribution wanted (filesBelow list wanted levels) dir names) (entry :: behind) =
              some answer := by
        intro levels files hentry hcomplete
        obtain ⟨more, rest, hrest⟩ := ih (before ++ [entry]) (by simpa using hlist) (hbefore.concat hcomplete)
        refine ⟨max levels more, _, inOrder_cons_eq_some_iff.2 (Or.inr ⟨files, rest, ?_, ?_, rfl⟩)⟩
        · exact contribution_filesBelow_mono (Nat.le_max_left _ _) hentry
        · exact inOrder_filesBelow_mono (Nat.le_max_right _ _) hrest
      rcases entry with ⟨name, kind⟩
      cases kind with
      | file => exact hnext 0 _ rfl (by simp)
      | other => exact hnext 0 _ rfl (by simp)
      | directory =>
          obtain ⟨levels, answer, hanswer⟩ := hbelow before name behind hlist hbefore (names ++ [name])
          cases answer with
          | error cause => exact ⟨levels, _, inOrder_cons_eq_some_iff.2 (Or.inl ⟨cause, hanswer, rfl⟩)⟩
          | ok files =>
              refine hnext levels files hanswer ?_
              rintro other heq
              cases heq
              exact complete_of_filesBelow hanswer

theorem exists_answer_of_finite (wanted : String → String → Bool) (names : List String)
    (hfinite : (places list dir).Finite) :
    ∃ levels answer, filesBelow list wanted levels dir names = some answer := by
  -- There are fewer places below each entry, so that the induction is on how many there are.
  induction hn : (places list dir).ncard using Nat.strong_induction_on generalizing dir names with
  | _ n ih =>
      cases hlist : list dir with
      | error cause => exact ⟨1, _, filesBelow_of_error hlist 0⟩
      | ok entries =>
          obtain ⟨levels, answer, hanswer⟩ := exists_answer_of_entries [] entries names hlist passed_nil (by
            intro before name behind hlist hbefore names
            obtain ⟨hfinite', hless⟩ := places_of_entry hlist hbefore hfinite
            exact ih _ (hn ▸ hless) names hfinite' rfl)
          exact ⟨levels + 1, answer, (filesBelow_of_ok hlist levels).trans hanswer⟩

/-- The recursion asks for every directory that a walk comes to. -/
theorem exists_answer_of_passed (hbefore : Passed list dir before)
    (h : inOrder (contribution wanted (filesBelow list wanted levels) dir names)
      (before ++ ⟨name, .directory⟩ :: behind) = some answer) :
    (∀ entry ∈ before, ∃ files,
        contribution wanted (filesBelow list wanted levels) dir names entry = some (.ok files)) ∧
      ∃ answer,
        filesBelow list wanted levels (dir.join (Path.ofString name)) (names ++ [name]) = some answer := by
  refine exists_answer_of_inOrder (fun entry hentry answer => exists_files_of_contribution ?_) h
  rintro other rfl answer hanswer
  exact (hbefore other hentry).exists_files hanswer

/-- The places under the entry with a given number, if a walk comes to it. -/
def placesUnder (list : Path → Except IoError (List Entry)) (dir : Path) (entries : List Entry) (k : Nat) :
    Set (List Nat) :=
  {place | ∃ before name behind rest, entries = before ++ ⟨name, .directory⟩ :: behind ∧ before.length = k ∧
    Passed list dir before ∧ place = k :: rest ∧ rest ∈ places list (dir.join (Path.ofString name))}

/-- There are finitely many places under each entry if there are so wherever the recursion has an answer. -/
theorem finite_placesUnder {entries : List Entry}
    (hfinite : ∀ {dir names answer},
      filesBelow list wanted levels dir names = some answer → (places list dir).Finite)
    (h : inOrder (contribution wanted (filesBelow list wanted levels) dir names) entries = some answer)
    (k : Nat) :
    (placesUnder list dir entries k).Finite := by
  by_cases hk : ∃ before name behind, entries = before ++ ⟨name, .directory⟩ :: behind ∧ before.length = k ∧
      Passed list dir before
  · obtain ⟨before, name, behind, rfl, rfl, hbefore⟩ := hk
    obtain ⟨-, inner, hinner⟩ := exists_answer_of_passed hbefore h
    refine ((hfinite hinner).image (before.length :: ·)).subset ?_
    rintro place ⟨before', name', behind', rest, heq, hlength, -, rfl, hrest⟩
    obtain ⟨-, hentry⟩ := List.append_inj heq hlength.symm
    cases hentry
    exact ⟨rest, hrest, rfl⟩
  · refine Set.finite_empty.subset ?_
    rintro place ⟨before, name, behind, rest, heq, hlength, hbefore, -⟩
    exact hk ⟨before, name, behind, heq, hlength, hbefore⟩

theorem finite_of_filesBelow (h : filesBelow list wanted levels dir names = some answer) :
    (places list dir).Finite := by
  induction levels generalizing dir names answer with
  | zero => cases h
  | succ levels ih =>
      cases hlist : list dir with
      | error cause =>
          refine (Set.finite_singleton []).subset ?_
          rintro place ⟨found, hfound⟩
          rcases hfound.cases_front with ⟨rfl, -⟩ | ⟨before, name, behind, rest, hlist', -⟩
          · rfl
          · rw [hlist] at hlist'
            cases hlist'
      | ok entries =>
          rw [filesBelow_of_ok hlist] at h
          -- Each place but that of the directory itself is under one of its entries.
          have hunder : (⋃ k ∈ {k | k < entries.length}, placesUnder list dir entries k).Finite :=
            (Set.finite_lt_nat entries.length).biUnion fun k _ => finite_placesUnder ih h k
          refine (hunder.insert []).subset ?_
          rintro place ⟨found, hfound⟩
          rcases hfound.cases_front with ⟨rfl, -⟩ | ⟨before, name, behind, rest, hlist', hbefore, rfl, hrest⟩
          · exact Set.mem_insert _ _
          · rw [hlist] at hlist'
            cases hlist'
            have hless : before.length < (before ++ ⟨name, .directory⟩ :: behind).length := by simp
            refine Or.inr (Set.mem_biUnion hless ?_)
            exact ⟨before, name, behind, rest, rfl, rfl, hbefore, rfl, found, hrest⟩

/-- The recursion has an answer if a walk comes to finitely many directories, and only then. -/
theorem finite_places_iff (wanted : String → String → Bool) (names : List String) :
    (places list dir).Finite ↔ ∃ levels answer, filesBelow list wanted levels dir names = some answer :=
  ⟨exists_answer_of_finite wanted names, fun ⟨_, _, h⟩ => finite_of_filesBelow h⟩

/-- The answer is a failure if a walk comes to a directory that cannot be listed, and it names that
directory. -/
theorem answer_eq_error_iff {failure : IndexError} (h : filesBelow list wanted levels dir names = some answer) :
    answer = .error failure ↔
      ∃ place found cause, Reaches list dir place found ∧ list found = .error cause ∧
        failure = .unlisted found cause := by
  induction levels generalizing dir names answer with
  | zero => cases h
  | succ levels ih =>
      cases hlist : list dir with
      | error cause =>
          rw [filesBelow_of_error hlist] at h
          cases h
          constructor
          · rintro hfailure
            cases hfailure
            exact ⟨[], dir, cause, .root, hlist, rfl⟩
          · rintro ⟨place, found, cause', hfound, hcause, rfl⟩
            rcases hfound.cases_front with ⟨-, rfl⟩ | ⟨before, name, behind, rest, hlist', -⟩
            · rw [hlist] at hcause
              cases hcause
              rfl
            · rw [hlist] at hlist'
              cases hlist'
      | ok entries =>
          rw [filesBelow_of_ok hlist] at h
          constructor
          · rintro rfl
            obtain ⟨before, ⟨name, kind⟩, behind, rfl, hbefore, hentry⟩ := inOrder_eq_error_iff.1 h
            cases kind with
            | file => cases hentry
            | other => cases hentry
            | directory =>
                obtain ⟨place, found, cause, hfound, hcause⟩ := (ih hentry).1 rfl
                -- The walk comes so far, since the entries before have contributed their files.
                refine ⟨_, found, cause, hfound.of_entry hlist ?_, hcause⟩
                intro other hother
                obtain ⟨files, hfiles⟩ := hbefore _ hother
                exact complete_of_filesBelow hfiles
          · rintro ⟨place, found, cause, hfound, hcause, hfailure⟩
            rcases hfound.cases_front with ⟨-, rfl⟩ | ⟨before, name, behind, rest, hlist', hbefore, -, hrest⟩
            · rw [hlist] at hcause
              cases hcause
            · rw [hlist] at hlist'
              cases hlist'
              obtain ⟨hgone, inner, hinner⟩ := exists_answer_of_passed hbefore h
              obtain rfl := (ih hinner).2 ⟨rest, found, cause, hrest, hcause, hfailure⟩
              rw [inOrder_eq_error_iff.2 ⟨before, ⟨name, .directory⟩, behind, rfl, hgone, hinner⟩] at h
              exact (Option.some.inj h).symm

end Reaches

/-! ## From the stack to the recursion -/

theorem intercalate_concat (sep name : String) {names : List String} (h : names ≠ []) :
    sep.intercalate (names ++ [name]) = sep.intercalate names ++ sep ++ name := by
  induction names with
  | nil => exact absurd rfl h
  | cons first names ih =>
      cases names with
      | nil => simp [String.intercalate_cons_cons]
      | cons second names =>
          have hrest := ih (by simp)
          simp only [List.cons_append, String.intercalate_cons_cons] at hrest ⊢
          rw [hrest]
          simp only [String.append_assoc]

/-- Where no name is empty, all the names are joined. -/
theorem joined_eq_intercalate {names : List String} (h : ∀ name ∈ names, name ≠ "") :
    joined names = "/".intercalate names := by
  cases names with
  | nil => rfl
  | cons first names =>
      have hfirst : first.isEmpty = false := by simpa using h first List.mem_cons_self
      simp [joined, hfirst]

/-- One name more, as the walk adds it to the relative path of a directory. -/
theorem relativeOf_joined (names : List String) (name : String) :
    relativeOf (joined names) name = joined (names ++ [name]) := by
  unfold joined relativeOf
  rw [List.dropWhile_append]
  -- As long as all names are empty, so is the relative path, and a name takes its place.
  cases hnames : names.dropWhile (·.isEmpty) with
  | nil =>
      by_cases hname : name.isEmpty = true
      · simp [String.isEmpty_iff.1 hname]
      · simp [hname]
  | cons first rest =>
      have hfirst : first.isEmpty = false := by
        have hhead := List.head?_dropWhile_not (·.isEmpty) names
        simpa [hnames] using hhead
      have hjoined : ("/".intercalate (first :: rest)).isEmpty = false := by
        cases rest with
        | nil => simpa using hfirst
        | cons second rest => simp [String.intercalate_cons_cons]
      simp only [hjoined, List.isEmpty_cons, Bool.false_eq_true, if_false]
      exact (intercalate_concat "/" name (List.cons_ne_nil first rest)).symm

section Run

variable {list : Path → Except IoError (List Entry)} {wanted : String → String → Bool} {dir : Path}
  {relative name : String} {entries : List Entry} {rest : Answer} {m n : Nat}

/-- How a walk goes on below a directory for which it has an answer. -/
def resume (list : Path → Except IoError (List Entry)) (wanted : String → String → Bool) (steps : Nat)
    (stack : List Frame) (found : List Path) : Answer → Option Answer
  | .ok files => run list wanted steps stack (files.reverse ++ found)
  | .error cause => some (.error cause)

theorem resume_map (steps : Nat) (stack : List Frame) (found files : List Path) (rest : Answer) :
    resume list wanted steps stack found (rest.map (files ++ ·)) =
      resume list wanted steps stack (files.reverse ++ found) rest := by
  cases rest with
  | error cause => rfl
  | ok more => simp [resume, Except.map]

/-- Whether a walk takes a number of steps to come to an answer for the directory on top of its stack. -/
def Takes (list : Path → Except IoError (List Entry)) (wanted : String → String → Bool) (frame : Frame)
    (answer : Answer) (n : Nat) : Prop :=
  ∀ steps stack found,
    run list wanted (n + steps) (frame :: stack) found = resume list wanted steps stack found answer

theorem takes_done (dir : Path) (relative : String) : Takes list wanted ⟨dir, relative, []⟩ (.ok []) 1 := by
  intro steps stack found
  rw [Nat.add_comm 1 steps]
  rfl

theorem Takes.file (h : Takes list wanted ⟨dir, relative, entries⟩ rest n) :
    Takes list wanted ⟨dir, relative, ⟨name, .file⟩ :: entries⟩
      (rest.map
        ((if wanted name (relativeOf relative name) then [dir.join (Path.ofString name)] else []) ++ ·))
      (n + 1) := by
  intro steps stack found
  rw [Nat.add_right_comm, run, resume_map]
  dsimp only
  rw [h]
  split <;> rfl

theorem Takes.other (h : Takes list wanted ⟨dir, relative, entries⟩ rest n) :
    Takes list wanted ⟨dir, relative, ⟨name, .other⟩ :: entries⟩ (rest.map ([] ++ ·)) (n + 1) := by
  intro steps stack found
  rw [Nat.add_right_comm, run, resume_map]
  exact h steps stack found

theorem Takes.directory {children : List Entry} {files : List Path}
    (hlist : list (dir.join (Path.ofString name)) = .ok children)
    (hinner : Takes list wanted
      ⟨dir.join (Path.ofString name), relativeOf relative name, children⟩ (.ok files) m)
    (h : Takes list wanted ⟨dir, relative, entries⟩ rest n) :
    Takes list wanted ⟨dir, relative, ⟨name, .directory⟩ :: entries⟩ (rest.map (files ++ ·)) (m + n + 1) := by
  intro steps stack found
  have hclock : m + n + 1 + steps = m + (n + steps) + 1 := by omega
  rw [hclock, run, resume_map]
  simp only [hlist]
  rw [hinner]
  exact h steps stack _

theorem takes_unlisted {cause : IoError} (hlist : list (dir.join (Path.ofString name)) = .error cause) :
    Takes list wanted ⟨dir, relative, ⟨name, .directory⟩ :: entries⟩
      (.error (.unlisted (dir.join (Path.ofString name)) cause)) 1 := by
  intro steps stack found
  rw [Nat.add_comm 1 steps, run]
  simp only [hlist]
  rfl

theorem Takes.failed {children : List Entry} {cause : IndexError}
    (hlist : list (dir.join (Path.ofString name)) = .ok children)
    (hinner : Takes list wanted
      ⟨dir.join (Path.ofString name), relativeOf relative name, children⟩ (.error cause) m) :
    Takes list wanted ⟨dir, relative, ⟨name, .directory⟩ :: entries⟩ (.error cause) (m + 1) := by
  intro steps stack found
  rw [Nat.add_right_comm, run]
  simp only [hlist]
  exact hinner steps _ found

/-- Whether no directory has more than a number of entries. -/
def IsWide (list : Path → Except IoError (List Entry)) (width : Nat) : Prop :=
  ∀ dir entries, list dir = .ok entries → entries.length ≤ width

/-- A walk takes its course over the entries of a directory if it does so below them. -/
theorem exists_takes_of_entries {below : Path → List String → Option Answer} {cost : Nat → Nat}
    (hcost : ∀ width, 0 < cost width)
    (hbelow : ∀ path names answer, below path names = some answer →
      (∃ cause, list path = .error cause ∧ answer = .error (.unlisted path cause)) ∨
        ∃ children m, list path = .ok children ∧ Takes list wanted ⟨path, joined names, children⟩ answer m ∧
          ∀ width, IsWide list width → m < cost width)
    {names : List String} {answer : Answer}
    (h : inOrder (contribution wanted below dir names) entries = some answer) :
    ∃ n, Takes list wanted ⟨dir, joined names, entries⟩ answer n ∧
      ∀ width, IsWide list width → n ≤ 1 + entries.length * cost width := by
  induction entries generalizing answer with
  | nil =>
      cases h
      exact ⟨1, takes_done dir _, by simp⟩
  | cons entry entries ih =>
      rcases entry with ⟨name, kind⟩
      simp only [List.length_cons, Nat.succ_mul]
      rcases inOrder_cons_eq_some_iff.1 h with ⟨cause, hentry, rfl⟩ | ⟨files, rest, hentry, hrest, rfl⟩
      · -- The entry fails, and with it the walk, whatever is still to be visited.
        cases kind with
        | file => cases hentry
        | other => cases hentry
        | directory =>
            rcases hbelow _ _ _ hentry with ⟨reason, hlist, hcause⟩ | ⟨children, m, hlist, hinner, hm⟩
            · cases hcause
              exact ⟨1, takes_unlisted hlist, fun _ _ => Nat.le_add_right _ _⟩
            · rw [← relativeOf_joined] at hinner
              refine ⟨m + 1, hinner.failed hlist, fun width hwidth => ?_⟩
              have := hm width hwidth
              omega
      · obtain ⟨n, htakes, hn⟩ := ih hrest
        have hone : ∀ width, IsWide list width → n + 1 ≤ 1 + (entries.length * cost width + cost width) := by
          intro width hwidth
          have := hn width hwidth
          have := hcost width
          omega
        cases kind with
        | file =>
            cases hentry
            rw [← relativeOf_joined]
            exact ⟨n + 1, htakes.file, hone⟩
        | other =>
            cases hentry
            exact ⟨n + 1, htakes.other, hone⟩
        | directory =>
            rcases hbelow _ _ _ hentry with ⟨reason, -, hcause⟩ | ⟨children, m, hlist, hinner, hm⟩
            · cases hcause
            · rw [← relativeOf_joined] at hinner
              refine ⟨m + n + 1, hinner.directory hlist htakes, fun width hwidth => ?_⟩
              have := hm width hwidth
              have := hn width hwidth
              omega

/-- One step leads to a directory, and one more leaves it. -/
theorem succ_le_pow_succ {width levels count steps : Nat} (hcount : count ≤ width)
    (hsteps : steps ≤ 1 + count * (width + 2) ^ levels) : steps + 1 ≤ (width + 2) ^ (levels + 1) := by
  have hpos : 0 < (width + 2) ^ levels := Nat.pow_pos (by omega)
  have hentries := Nat.mul_le_mul_right ((width + 2) ^ levels) hcount
  have hnext : (width + 2) ^ (levels + 1) = width * (width + 2) ^ levels + 2 * (width + 2) ^ levels := by
    rw [Nat.pow_succ, Nat.mul_comm, Nat.add_mul]
  omega

/-- The recursion says what a walk comes to from any stack, and the levels of directories how long that
takes. -/
theorem exists_takes_of_inOrder {levels : Nat} {names : List String} {answer : Answer}
    (h : inOrder (contribution wanted (filesBelow list wanted levels) dir names) entries = some answer) :
    ∃ n, Takes list wanted ⟨dir, joined names, entries⟩ answer n ∧
      ∀ width, IsWide list width → n ≤ 1 + entries.length * (width + 2) ^ levels := by
  induction levels generalizing dir names entries answer with
  | zero => exact exists_takes_of_entries (by simp) (by simp [filesBelow]) h
  | succ levels ih =>
      have hcost : ∀ width, 0 < (width + 2) ^ (levels + 1) := fun width => Nat.pow_pos (by omega)
      refine exists_takes_of_entries hcost ?_ h
      intro path names answer hanswer
      cases hlist : list path with
      | error cause =>
          rw [filesBelow_of_error hlist] at hanswer
          exact Or.inl ⟨cause, rfl, (Option.some.inj hanswer).symm⟩
      | ok children =>
          rw [filesBelow_of_ok hlist] at hanswer
          obtain ⟨m, hinner, hm⟩ := ih hanswer
          refine Or.inr ⟨children, m, rfl, hinner, fun width hwidth => ?_⟩
          exact succ_le_pow_succ (hwidth path children hlist) (hm width hwidth)

/-- A walk that has come to its end stays there with more steps. -/
theorem run_mono {steps more : Nat} {stack : List Frame} {found : List Path} {answer : Answer}
    (hle : steps ≤ more) (h : run list wanted steps stack found = some answer) :
    run list wanted more stack found = some answer := by
  induction steps generalizing more stack found with
  | zero => cases h
  | succ steps ih =>
      obtain ⟨more, rfl⟩ : ∃ k, more = k + 1 := ⟨more - 1, by omega⟩
      have hle' : steps ≤ more := Nat.le_of_succ_le_succ hle
      cases stack with
      | nil => exact h
      | cons frame stack =>
          rw [run] at h ⊢
          cases hentries : frame.entries with
          | nil =>
              simp only [hentries] at h ⊢
              exact ih hle' h
          | cons entry entries =>
              simp only [hentries] at h ⊢
              cases hkind : entry.kind with
              | file =>
                  simp only [hkind] at h ⊢
                  exact ih hle' h
              | other =>
                  simp only [hkind] at h ⊢
                  exact ih hle' h
              | directory =>
                  simp only [hkind] at h ⊢
                  cases hlist : list (frame.dir.join (Path.ofString entry.name)) with
                  | error cause => simpa only [hlist] using h
                  | ok children =>
                      simp only [hlist] at h ⊢
                      exact ih hle' h

end Run

end Walk
end ScriptSymbols
