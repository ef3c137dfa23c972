import ScriptSymbols.Stats.Options

/-!
# The grammar of the arguments

The arguments of the indexing report are items in any order: flags, some of which take the next argument as their
value whatever it is, and the path. They are read from left to right, and reading stops at the first argument that
makes no item.

1. `Stats.Item` are the items, and `Stats.written` the arguments that they are written as. `Stats.count?_eq_some_iff`
   says which texts are counts of bytes.
2. `Stats.readArgs_item` reads one item and `Stats.readArgs_written` reads a list of them;
   `Stats.violates_or_exists_item` says what can stand where an item is expected.
3. `Stats.Violates` says why reading stops, and `Stats.ofArgs_of_violates` that this is the error.
4. `Stats.arguments_follow_grammar`: which arguments are understood, and as what, and what is wrong with all others.
-/

namespace ScriptSymbols
namespace Stats

/-! ## Counts of bytes -/

/-- The number that decimal digits write. -/
def decimal (digits : List Char) : Nat :=
  digits.foldl (fun n c => n * 10 + (c.toNat - '0'.toNat)) 0

/-- Whether a text writes a count of bytes: decimal digits, with an optional plus sign before them, and a number that
fits a 64-bit word. -/
def IsCount (text : String) (n : Nat) : Prop :=
  ∃ sign digits, text.toList = sign ++ digits ∧ (sign = [] ∨ sign = ['+']) ∧ digits ≠ [] ∧
    digits.all Char.isDigit = true ∧ decimal digits = n ∧ n < UInt64.size

theorem foldlM_digit?_eq_some_iff (cs : List Char) (start n : Nat) :
    cs.foldlM (fun n c => (Json.digit? c).map (n * 10 + ·)) start = some n ↔
      cs.all Char.isDigit = true ∧ cs.foldl (fun n c => n * 10 + (c.toNat - '0'.toNat)) start = n := by
  induction cs generalizing start with
  | nil => simp
  | cons c cs ih =>
      rw [List.foldlM_cons, List.all_cons, List.foldl_cons, Json.digit?]
      by_cases hdigit : c.isDigit = true
      · rw [if_pos hdigit, hdigit, Bool.true_and]
        exact ih _
      · rw [if_neg hdigit]
        simp [hdigit]

theorem natOfDigits?_eq_some_iff (cs : List Char) (n : Nat) :
    Json.natOfDigits? cs = some n ↔ cs ≠ [] ∧ cs.all Char.isDigit = true ∧ decimal cs = n := by
  rw [Json.natOfDigits?]
  split
  · rename_i hempty
    simp [List.isEmpty_iff.1 hempty]
  · rename_i hempty
    rw [foldlM_digit?_eq_some_iff, decimal]
    simp [show cs ≠ [] by simpa using hempty]

theorem count?_eq_some_iff (text : String) (n : Nat) : count? text = some n ↔ IsCount text n := by
  unfold count? IsCount
  split
  · rename_i digits htext
    rw [Option.filter_eq_some_iff, natOfDigits?_eq_some_iff, decide_eq_true_iff, htext]
    constructor
    · rintro ⟨⟨hne, hdigits, hvalue⟩, hfits⟩
      exact ⟨['+'], digits, rfl, Or.inr rfl, hne, hdigits, hvalue, hfits⟩
    · rintro ⟨sign, rest, hsplit, rfl | rfl, hne, hdigits, hvalue, hfits⟩
      · -- The sign is no digit, so it cannot be left out.
        rw [← show '+' :: digits = rest from hsplit] at hdigits
        exact absurd (List.all_eq_true.1 hdigits '+' List.mem_cons_self) (by decide)
      · obtain rfl : digits = rest := (List.cons.inj hsplit).2
        exact ⟨⟨hne, hdigits, hvalue⟩, hfits⟩
  · rename_i hplain
    rw [Option.filter_eq_some_iff, natOfDigits?_eq_some_iff, decide_eq_true_iff]
    constructor
    · rintro ⟨⟨hne, hdigits, hvalue⟩, hfits⟩
      exact ⟨[], text.toList, rfl, Or.inl rfl, hne, hdigits, hvalue, hfits⟩
    · rintro ⟨sign, rest, hsplit, rfl | rfl, hne, hdigits, hvalue, hfits⟩
      · obtain rfl : text.toList = rest := hsplit
        exact ⟨⟨hne, hdigits, hvalue⟩, hfits⟩
      · exact absurd hsplit (hplain rest)

/-! ## Items -/

/-- What an item is about. -/
inductive Kind
  | csv
  | included
  | excluded
  | limit
  | path
  deriving DecidableEq

/-- An item of the arguments: a flag with its value, or the path. -/
inductive Item
  | csv
  | included (glob : String)
  | excluded (glob : String)
  | limit (text : String) (size : Nat) (valid : IsCount text size)
  | path (text : String) (plain : text.toList.head? ≠ some '-')

namespace Item

def kind : Item → Kind
  | csv => .csv
  | included _ => .included
  | excluded _ => .excluded
  | limit _ _ _ => .limit
  | path _ _ => .path

/-- The arguments that an item is written as. -/
def args : Item → List String
  | csv => ["--csv"]
  | included glob => ["--include", glob]
  | excluded glob => ["--exclude", glob]
  | limit text _ _ => ["--max-file-size", text]
  | path text _ => [text]

def included? : Item → Option String
  | included glob => some glob
  | _ => none

def excluded? : Item → Option String
  | excluded glob => some glob
  | _ => none

def size? : Item → Option Nat
  | limit _ size _ => some size
  | _ => none

def path? : Item → Option Path
  | path text _ => some (Path.ofString text)
  | _ => none

end Item

/-- The arguments that items are written as. -/
def written (items : List Item) : List String :=
  items.flatMap Item.args

/-- The paths among items. -/
def paths (items : List Item) : List Path :=
  items.filterMap Item.path?

/-! ## Reading items -/

/-- What is read so far, with one more item. -/
def Draft.take (d : Draft) : Item → Draft
  | .csv => { d with csv := true }
  | .included glob => { d with includes := d.includes ++ [glob] }
  | .excluded glob => { d with excludes := d.excludes ++ [glob] }
  | .limit _ size _ => { d with maxFileSize := size }
  | .path text _ => { d with path := some (Path.ofString text) }

/-- The flags that are known. -/
def flags : List String :=
  ["--csv", "--include", "--exclude", "--max-file-size"]

theorem not_mem_flags {arg : String} (h : arg.toList.head? ≠ some '-') : arg ∉ flags := by
  have hflags : ∀ flag ∈ flags, flag.toList.head? = some '-' := by decide
  exact fun hmem => h (hflags arg hmem)

theorem readArgs_other {arg : String} (h : arg ∉ flags) (d : Draft) (args : List String) :
    readArgs d (arg :: args) =
      if arg.toList.head? = some '-' then .error (.unknownFlag arg)
      else if d.path.isSome then .error .secondPath
      else readArgs { d with path := some (Path.ofString arg) } args := by
  rw [readArgs]
  -- The forms with a known flag come first, and do not apply.
  all_goals
    intros
    subst_vars
    exact h (by decide)

/-- An item is read as it is written, unless it is a second path. -/
theorem readArgs_item (d : Draft) (item : Item) (rest : List String) :
    readArgs d (item.args ++ rest) =
      if d.path.isSome ∧ item.path?.isSome then .error .secondPath else readArgs (d.take item) rest := by
  cases item with
  | path text plain =>
      rw [Item.args, List.singleton_append, readArgs_other (not_mem_flags plain), if_neg plain]
      simp only [Item.path?, Option.isSome_some, and_true]
      rfl
  | limit text size valid =>
      have hcount := (count?_eq_some_iff text size).2 valid
      rw [if_neg (by simp [Item.path?]), Item.args, List.cons_append, List.singleton_append, readArgs, hcount]
      rfl
  | _ =>
      rw [if_neg (by simp [Item.path?])]
      simp only [Item.args, List.cons_append, List.nil_append, readArgs]
      rfl

/-- Each field follows the items of its own kind. -/
theorem take_eq (d : Draft) (item : Item) :
    d.take item =
      { path := item.path?.or d.path
        csv := d.csv || item.kind == .csv
        includes := d.includes ++ item.included?.toList
        excludes := d.excludes ++ item.excluded?.toList
        maxFileSize := item.size?.getD d.maxFileSize } := by
  cases item with
  | csv => simp [Draft.take, Item.path?, Item.included?, Item.excluded?, Item.size?, Item.kind]
  | _ =>
      have hkind : ∀ kind : Kind, kind ≠ .csv → (kind == .csv) = false := fun _ => beq_eq_false_iff_ne.2
      simp [Draft.take, Item.path?, Item.included?, Item.excluded?, Item.size?, Item.kind, hkind]

theorem filterMap_cons_toList {β : Type} (f : Item → Option β) (item : Item) (items : List Item) :
    (item :: items).filterMap f = (f item).toList ++ items.filterMap f := by
  rw [List.filterMap_cons]
  cases f item with
  | _ => rfl

/-- Items are read as they are written, up to a second path. -/
theorem readArgs_written (d : Draft) (items : List Item) (rest : List String) :
    readArgs d (written items ++ rest) =
      if (d.path.toList ++ paths items).length ≤ 1 then readArgs (items.foldl Draft.take d) rest
      else .error .secondPath := by
  induction items generalizing d with
  | nil =>
      have hle : (d.path.toList ++ paths []).length ≤ 1 := by
        cases d.path with
        | _ => simp [paths]
      rw [if_pos hle]
      rfl
  | cons item items ih =>
      have hwritten : written (item :: items) ++ rest = item.args ++ (written items ++ rest) := by
        simp [written]
      have hpath : (d.take item).path = item.path?.or d.path := by rw [take_eq]
      rw [hwritten, readArgs_item, ih, hpath, paths, paths, filterMap_cons_toList, List.foldl_cons]
      -- The item adds a path to those read before, or it is the one too many.
      cases hread : d.path with
      | none =>
          rw [if_neg (by simp)]
          cases item.path? with
          | _ => rfl
      | some p =>
          cases item.path? with
          | none =>
              rw [if_neg (by simp)]
              rfl
          | some q =>
              rw [if_pos (by simp), if_neg]
              simp

/-- What items come to, each field from the items of its own kind. -/
theorem foldl_take (d : Draft) (items : List Item) :
    items.foldl Draft.take d =
      { path := (paths items).getLast?.or d.path
        csv := d.csv || items.any (·.kind == .csv)
        includes := d.includes ++ items.filterMap Item.included?
        excludes := d.excludes ++ items.filterMap Item.excluded?
        maxFileSize := (items.filterMap Item.size?).getLast?.getD d.maxFileSize } := by
  induction items generalizing d with
  | nil => simp [paths]
  | cons item items ih =>
      have hlast : ∀ {β : Type} (a : Option β) (rest : List β),
          (a.toList ++ rest).getLast? = rest.getLast?.or a := by
        intro β a rest
        rw [List.getLast?_append]
        cases a with
        | _ => rfl
      simp only [List.foldl_cons, ih, take_eq, paths, filterMap_cons_toList, hlast, List.any_cons, Bool.or_assoc,
        List.append_assoc, Option.or_assoc, Option.getD_or]

/-- The options that items with the path `path` stand for. -/
def optionsOf (path : Path) (items : List Item) : Options where
  path := path
  csv := items.any (·.kind == .csv)
  includes := items.filterMap Item.included?
  excludes := items.filterMap Item.excluded?
  maxFileSize := (items.filterMap Item.size?).getLast?.getD ({} : Settings).maxFileSize

/-- What is made of items: there must be one path, and it must be a directory. -/
def outcome (isDirectory : Path → Bool) (items : List Item) : Except OptionError Options :=
  match paths items with
  | [] => .error .missingPath
  | [path] => if isDirectory path then .ok (optionsOf path items) else .error (.notDirectory path)
  | _ :: _ :: _ => .error .secondPath

theorem ofArgs_written (isDirectory : Path → Bool) (items : List Item) :
    Options.ofArgs isDirectory (written items) = outcome isDirectory items := by
  have hread := readArgs_written {} items []
  rw [List.append_nil, foldl_take] at hread
  rw [Options.ofArgs, outcome, hread]
  match hpaths : paths items with
  | [] => simp [readArgs]
  | [path] => simp [readArgs, optionsOf]
  | _ :: _ :: _ => simp

/-! ## Why reading stops -/

/-- What is wrong with the arguments behind some items, where at most one of these is a path. Only at the end of
the arguments is the path looked at. -/
inductive Violates (isDirectory : Path → Bool) (items : List Item) : List String → OptionError → Prop
  | includeNeedsGlob : Violates isDirectory items ["--include"] .includeNeedsGlob
  | excludeNeedsGlob : Violates isDirectory items ["--exclude"] .excludeNeedsGlob
  | sizeMissing : Violates isDirectory items ["--max-file-size"] .sizeNeedsCount
  | sizeNoCount {text : String} {rest : List String} (h : ∀ n, ¬ IsCount text n) :
      Violates isDirectory items ("--max-file-size" :: text :: rest) .sizeNeedsCount
  | unknownFlag {flag : String} {rest : List String} (dash : flag.toList.head? = some '-') (h : flag ∉ flags) :
      Violates isDirectory items (flag :: rest) (.unknownFlag flag)
  | secondPath {text : String} {rest : List String} (plain : text.toList.head? ≠ some '-')
      (h : paths items ≠ []) : Violates isDirectory items (text :: rest) .secondPath
  | missingPath (h : paths items = []) : Violates isDirectory items [] .missingPath
  | notDirectory {path : Path} (h : paths items = [path]) (hpath : isDirectory path = false) :
      Violates isDirectory items [] (.notDirectory path)

theorem count?_eq_none_iff (text : String) : count? text = none ↔ ∀ n, ¬ IsCount text n := by
  rw [Option.eq_none_iff_forall_ne_some]
  exact forall_congr' fun n => not_congr (count?_eq_some_iff text n)

section Stops

variable {isDirectory : Path → Bool} {items : List Item}

/-- What is wrong behind items is the error of the arguments. -/
theorem ofArgs_of_violates (hpaths : (paths items).length ≤ 1) {rest : List String} {e : OptionError}
    (h : Violates isDirectory items rest e) :
    Options.ofArgs isDirectory (written items ++ rest) = .error e := by
  have hread := readArgs_written {} items rest
  rw [if_pos (by simpa using hpaths), foldl_take] at hread
  rw [Options.ofArgs, hread]
  cases h with
  | includeNeedsGlob => rw [readArgs]
  | excludeNeedsGlob => rw [readArgs]
  | sizeMissing => rw [readArgs]
  | sizeNoCount hcount => rw [readArgs, (count?_eq_none_iff _).2 hcount]
  | unknownFlag dash hflag => rw [readArgs_other hflag, if_pos dash]
  | secondPath plain hpath =>
      rw [readArgs_other (not_mem_flags plain), if_neg plain, if_pos (by simpa using hpath)]
  | missingPath hpath => simp [readArgs, hpath]
  | notDirectory hpath hdirectory => simp [readArgs, hpath, hdirectory]

/-- Where an item is expected, there is one, or the arguments are wrong there. -/
theorem violates_or_exists_item (isDirectory : Path → Bool) (hpaths : (paths items).length ≤ 1) (arg : String)
    (args : List String) :
    (∃ e, Violates isDirectory items (arg :: args) e) ∨
      ∃ item rest, arg :: args = item.args ++ rest ∧ (paths (items ++ [item])).length ≤ 1 := by
  -- An item that is no path leaves the number of paths as it is.
  have hkept : ∀ item : Item, item.path? = none → (paths (items ++ [item])).length ≤ 1 := by
    intro item hpath
    rwa [paths, List.filterMap_append, filterMap_cons_toList, hpath, List.filterMap_nil, Option.toList_none,
      List.append_nil, List.append_nil]
  by_cases hcsv : arg = "--csv"
  · subst hcsv
    exact Or.inr ⟨.csv, args, rfl, hkept _ rfl⟩
  by_cases hinclude : arg = "--include"
  · subst hinclude
    cases args with
    | nil => exact Or.inl ⟨_, .includeNeedsGlob⟩
    | cons glob args => exact Or.inr ⟨.included glob, args, rfl, hkept _ rfl⟩
  by_cases hexclude : arg = "--exclude"
  · subst hexclude
    cases args with
    | nil => exact Or.inl ⟨_, .excludeNeedsGlob⟩
    | cons glob args => exact Or.inr ⟨.excluded glob, args, rfl, hkept _ rfl⟩
  by_cases hsize : arg = "--max-file-size"
  · subst hsize
    cases args with
    | nil => exact Or.inl ⟨_, .sizeMissing⟩
    | cons text args =>
        cases hcount : count? text with
        | none => exact Or.inl ⟨_, .sizeNoCount ((count?_eq_none_iff text).1 hcount)⟩
        | some n => exact Or.inr ⟨.limit text n ((count?_eq_some_iff text n).1 hcount), args, rfl, hkept _ rfl⟩
  by_cases hdash : arg.toList.head? = some '-'
  · exact Or.inl ⟨_, .unknownFlag hdash (by simp [flags, hcsv, hinclude, hexclude, hsize])⟩
  by_cases hfirst : paths items = []
  · refine Or.inr ⟨.path arg hdash, args, rfl, ?_⟩
    rw [paths, List.filterMap_append, ← paths, hfirst]
    exact Nat.le_refl 1
  · exact Or.inl ⟨_, .secondPath hdash hfirst⟩

end Stops

/-- All arguments are items up to some place, where they end or are wrong. -/
theorem exists_items (isDirectory : Path → Bool) :
    ∀ (args : List String) (items : List Item), (paths items).length ≤ 1 →
      ∃ more rest, args = written more ++ rest ∧ (paths (items ++ more)).length ≤ 1 ∧
        (rest = [] ∨ ∃ e, Violates isDirectory (items ++ more) rest e)
  | [], items, hpaths => ⟨[], [], rfl, by rwa [List.append_nil], Or.inl rfl⟩
  | arg :: args, items, hpaths => by
      rcases violates_or_exists_item isDirectory hpaths arg args with hwrong | ⟨item, left, hitem, hpaths'⟩
      · exact ⟨[], arg :: args, rfl, by rwa [List.append_nil], Or.inr (by rwa [List.append_nil])⟩
      · -- An item takes at least one argument, so that fewer are left.
        have hshorter : left.length < args.length + 1 := by
          have hargs : 0 < item.args.length := by
            cases item with
            | _ => exact Nat.succ_pos _
          rw [← List.length_cons, hitem, List.length_append]
          omega
        obtain ⟨more, rest, rfl, hmore, hend⟩ := exists_items isDirectory left (items ++ [item]) hpaths'
        rw [List.append_assoc] at hmore hend
        refine ⟨item :: more, rest, ?_, hmore, hend⟩
        rw [hitem, ← List.append_assoc]
        rfl
termination_by args => args.length

/-- Arguments are either items with one path, which is a directory, or wrong at some place. -/
theorem understood_or_violates (isDirectory : Path → Bool) (args : List String) :
    (∃ items path, args = written items ∧ paths items = [path] ∧ isDirectory path = true) ∨
      ∃ items rest e, args = written items ++ rest ∧ (paths items).length ≤ 1 ∧
        Violates isDirectory items rest e := by
  obtain ⟨items, rest, hargs, hpaths, hend⟩ := exists_items isDirectory args [] (Nat.zero_le 1)
  rw [List.nil_append] at hpaths hend
  rcases hend with rfl | ⟨e, hwrong⟩
  · -- All arguments have been read, and only now is the path looked at.
    match hlist : paths items with
    | [] => exact Or.inr ⟨items, [], _, hargs, by rw [hlist]; simp, .missingPath hlist⟩
    | [path] =>
        cases hdirectory : isDirectory path with
        | true => exact Or.inl ⟨items, path, by rwa [List.append_nil] at hargs, hlist, hdirectory⟩
        | false => exact Or.inr ⟨items, [], _, hargs, hpaths, .notDirectory hlist hdirectory⟩
    | _ :: _ :: _ => simp [hlist] at hpaths
  · exact Or.inr ⟨items, rest, e, hargs, hpaths, hwrong⟩

/-! ## The grammar -/

/-- Whether options are what items stand for: the globs of each kind in order, whether the flag for the format
occurs, the last limit or else the default, and the only path, which is a directory. -/
structure Describes (isDirectory : Path → Bool) (items : List Item) (options : Options) : Prop where
  path : paths items = [options.path]
  directory : isDirectory options.path = true
  csv : options.csv = true ↔ Item.csv ∈ items
  includes : options.includes = items.filterMap Item.included?
  excludes : options.excludes = items.filterMap Item.excluded?
  maxFileSize :
    options.maxFileSize = (items.filterMap Item.size?).getLast?.getD ({} : Settings).maxFileSize

/-- Whether two lists have the same items of each kind in the same order. -/
def SameByKind (items others : List Item) : Prop :=
  ∀ kind, items.filter (·.kind == kind) = others.filter (·.kind == kind)

theorem filterMap_congr_of_kind {β : Type} {f : Item → Option β} (kind : Kind)
    (hf : ∀ item, item.kind ≠ kind → f item = none) {items others : List Item} (h : SameByKind items others) :
    items.filterMap f = others.filterMap f := by
  -- Items of other kinds add nothing.
  have hown : (fun item : Item => if (item.kind == kind) = true then f item else none) = f := by
    funext item
    split
    · rfl
    · rename_i hkind
      exact (hf item (by simpa using hkind)).symm
  rw [← hown, ← List.filterMap_filter, h kind, List.filterMap_filter]

/-- What items come to depends on the order within each kind only. -/
theorem outcome_congr (isDirectory : Path → Bool) {items others : List Item} (h : SameByKind items others) :
    outcome isDirectory items = outcome isDirectory others := by
  have hother : ∀ item : Item, (item.kind ≠ .path → item.path? = none) ∧
      (item.kind ≠ .included → item.included? = none) ∧ (item.kind ≠ .excluded → item.excluded? = none) ∧
      (item.kind ≠ .limit → item.size? = none) := by
    intro item
    cases item with
    | _ => simp [Item.kind, Item.path?, Item.included?, Item.excluded?, Item.size?]
  have hpaths : paths items = paths others := filterMap_congr_of_kind .path (fun item => (hother item).1) h
  have hincludes := filterMap_congr_of_kind .included (fun item => (hother item).2.1) h
  have hexcludes := filterMap_congr_of_kind .excluded (fun item => (hother item).2.2.1) h
  have hsizes := filterMap_congr_of_kind .limit (fun item => (hother item).2.2.2) h
  have hcsv : items.any (·.kind == .csv) = others.any (·.kind == .csv) := by
    have hany : ∀ items : List Item,
        items.any (·.kind == .csv) = (items.filter (·.kind == .csv)).any fun _ => true := by
      simp [List.any_filter]
    rw [hany items, h .csv, ← hany others]
  have hoptions : ∀ path, optionsOf path items = optionsOf path others := fun path => by
    rw [optionsOf, hcsv, hincludes, hexcludes, hsizes, optionsOf]
  simp only [outcome, hpaths, hoptions]

theorem describes_optionsOf {isDirectory : Path → Bool} {items : List Item} {path : Path}
    (hpath : paths items = [path]) (hdirectory : isDirectory path = true) :
    Describes isDirectory items (optionsOf path items) where
  path := hpath
  directory := hdirectory
  csv := by
    have hkind : ∀ item : Item, item.kind = .csv ↔ item = .csv := by
      intro item
      cases item with
      | _ => simp [Item.kind]
    simp [optionsOf, hkind]
  includes := rfl
  excludes := rfl
  maxFileSize := rfl

theorem Describes.unique {isDirectory : Path → Bool} {items : List Item} {o o' : Options}
    (h : Describes isDirectory items o) (h' : Describes isDirectory items o') : o = o' := by
  have hpath : o.path = o'.path := by simpa [h.path] using h'.path
  have hcsv : o.csv = o'.csv := Bool.eq_iff_iff.2 (h.csv.trans h'.csv.symm)
  cases o with
  | mk path csv includes excludes maxFileSize =>
      cases o' with
      | mk path' csv' includes' excludes' maxFileSize' =>
          obtain rfl : path = path' := hpath
          obtain rfl : csv = csv' := hcsv
          rw [show includes = _ from h.includes, show includes' = _ from h'.includes,
            show excludes = _ from h.excludes, show excludes' = _ from h'.excludes,
            show maxFileSize = _ from h.maxFileSize, show maxFileSize' = _ from h'.maxFileSize]

/-- The arguments that are understood are exactly those that items are written as, where one item is a path and this
is a directory, and they are understood as what the items describe. Items of different kinds may change places
without any effect. All other arguments are refused for what is wrong with them at the first place where they cannot
be read on, and for the path only if there is no such place. -/
theorem arguments_follow_grammar (isDirectory : Path → Bool) :
    (∀ args options, Options.ofArgs isDirectory args = .ok options ↔
        ∃ items, args = written items ∧ Describes isDirectory items options) ∧
      (∀ items others, SameByKind items others →
        Options.ofArgs isDirectory (written items) = Options.ofArgs isDirectory (written others)) ∧
      ∀ args e, Options.ofArgs isDirectory args = .error e ↔
        ∃ items rest, args = written items ++ rest ∧ (paths items).length ≤ 1 ∧
          Violates isDirectory items rest e := by
  have hdescribed : ∀ items options, Describes isDirectory items options →
      Options.ofArgs isDirectory (written items) = .ok options := by
    intro items options h
    have hsame := h.unique (describes_optionsOf h.path h.directory)
    rw [ofArgs_written, outcome, h.path]
    simp only [h.directory, if_true, ← hsame]
  -- Arguments are understood or wrong, and not both; so what the result is tells which of the two they are.
  refine ⟨fun args options => ⟨fun h => ?_, ?_⟩, fun items others h => ?_, fun args e => ⟨fun h => ?_, ?_⟩⟩
  · rcases understood_or_violates isDirectory args with
      ⟨items, path, rfl, hpath, hdirectory⟩ | ⟨items, rest, e, rfl, hpaths, hwrong⟩
    · have hdescribes := describes_optionsOf hpath hdirectory
      rw [hdescribed items _ hdescribes] at h
      cases h
      exact ⟨items, rfl, hdescribes⟩
    · rw [ofArgs_of_violates hpaths hwrong] at h
      cases h
  · rintro ⟨items, rfl, h⟩
    exact hdescribed items options h
  · rw [ofArgs_written, ofArgs_written, outcome_congr isDirectory h]
  · rcases understood_or_violates isDirectory args with
      ⟨items, path, rfl, hpath, hdirectory⟩ | ⟨items, rest, e', rfl, hpaths, hwrong⟩
    · rw [hdescribed items _ (describes_optionsOf hpath hdirectory)] at h
      cases h
    · rw [ofArgs_of_violates hpaths hwrong] at h
      cases h
      exact ⟨items, rest, rfl, hpaths, hwrong⟩
  · rintro ⟨items, rest, rfl, hpaths, hwrong⟩
    exact ofArgs_of_violates hpaths hwrong

/-- A flag that is taken as a value is no item, and of two things that are wrong the first counts. -/
theorem arguments_follow_grammar_in_either_order :
    let isDirectory := fun path => path == Path.ofString "src"
    let limit := Item.limit "+64" 64
      ⟨['+'], ['6', '4'], rfl, Or.inr rfl, by simp, by decide, by decide, by decide⟩
    let path := Item.path "src" (by decide)
    let options : Options :=
      { path := Path.ofString "src", csv := false, includes := ["--csv"], excludes := [], maxFileSize := 64 }
    written [.included "--csv", path, limit] = ["--include", "--csv", "src", "--max-file-size", "+64"] ∧
      Options.ofArgs isDirectory (written [.included "--csv", path, limit]) = .ok options ∧
      Options.ofArgs isDirectory (written [limit, .included "--csv", path]) = .ok options ∧
      Options.ofArgs isDirectory ["src", "lib", "-x"] = .error .secondPath := by
  intro isDirectory limit path options
  obtain ⟨hok, hsame, herror⟩ := arguments_follow_grammar isDirectory
  have hread : Options.ofArgs isDirectory (written [.included "--csv", path, limit]) = .ok options :=
    (hok _ _).2 ⟨_, rfl, ⟨rfl, by decide, by simp [options, path, limit], rfl, rfl, rfl⟩⟩
  have horder : SameByKind [limit, .included "--csv", path] [.included "--csv", path, limit] := by
    intro kind
    cases kind with
    | _ => rfl
  have hsecond : Violates isDirectory [path] ["lib", "-x"] .secondPath :=
    .secondPath (by decide) (by simp [paths, path, Item.path?])
  exact ⟨rfl, hread, (hsame _ _ horder).trans hread, (herror _ _).2 ⟨[path], _, rfl, by decide, hsecond⟩⟩

end Stats
end ScriptSymbols
