import ScriptSymbols.Proofs.Disk.Collect
import ScriptSymbols.Proofs.Text.CaseFolding
import ScriptSymbols.Workspace.Basic

/-!
# Which files belong to the workspace

A scan of a folder and a look at a single URI both decide which files belong to the workspace. The
scan builds relative paths from the names that it meets and compares extensions in their normal form;
the look at a URI cuts a path by its components and takes the extensions as they are configured.

* `Settings.IsConfigured` are the settings that a session can have.
* `Walk.hasExtension_normalizeExtensions` and `Walk.joined_decode` compare the two ways.
* `Workspace.isIndexable_ofNames_iff`, `Workspace.exists_names_of_mem_files` and
  `Workspace.mem_files_of_keeps` say what each of them accepts.
* `Workspace.watched_files_match_scan`: a scan finds the files that a look at their URIs accepts, as far
  as they are shown under their own names. On a tree that is all of them.
* `Workspace.mem_files_iff`: on a tree without links a scan finds nothing else.
-/

namespace ScriptSymbols

open Text

/-! ## Extensions -/

namespace Settings

/-- The settings that a session can have: the default ones, or some that a client sent. -/
def IsConfigured (settings : Settings) : Prop :=
  settings = {} ∨ ∃ json, ofJson? json = some settings

/-- Whether an extension has a character, and no dot in front. -/
def isBare (extension : String) : Bool :=
  extension.toList.head?.any (· != '.')

theorem isBare_of_mem_defaultExtensions {e : String} (h : e ∈ Walk.defaultExtensions) :
    isBare e = true := by
  revert e
  decide

theorem isBare_of_mem_extensionsOf {names : List String} {e : String} (h : e ∈ extensionsOf names) :
    isBare e = true := by
  unfold extensionsOf at h
  dsimp only at h
  split at h
  · exact isBare_of_mem_defaultExtensions h
  · rcases List.mem_map.1 h with ⟨cs, hcs, rfl⟩
    rcases List.mem_filter.1 hcs with ⟨hmem, hne⟩
    rcases List.mem_map.1 hmem with ⟨name, -, rfl⟩
    have hhead := List.head?_dropWhile_not (· == '.') name.toList
    rcases hdropped : name.toList.dropWhile (· == '.') with _ | ⟨c, rest⟩
    · simp [hdropped] at hne
    · rw [hdropped] at hhead
      simpa [isBare] using hhead

theorem IsConfigured.isBare {settings : Settings} (h : settings.IsConfigured) {e : String}
    (he : e ∈ settings.extensions) : isBare e = true := by
  rcases h with rfl | ⟨json, hjson⟩
  · exact isBare_of_mem_defaultExtensions he
  · rcases Option.map_eq_some_iff.1 hjson with ⟨own, -, rfl⟩
    exact isBare_of_mem_extensionsOf he

end Settings

namespace Walk

theorem normalizeExtensions_of_isBare {extensions : List String}
    (h : ∀ e ∈ extensions, Settings.isBare e = true) :
    normalizeExtensions extensions = extensions.map fun e => String.ofList (foldCase e.toList) := by
  have hdots : (extensions.map fun e => foldCase (e.toList.dropWhile (· == '.'))) =
      extensions.map fun e => foldCase e.toList := by
    refine List.map_congr_left ?_
    intro e he
    have hbare := h e he
    cases hcs : e.toList with
    | nil => rfl
    | cons c cs =>
        have hc : (c == '.') = false := by
          simpa [Settings.isBare, hcs] using hbare
        rw [List.dropWhile_cons, hc]
        rfl
  have hnonempty : (extensions.map fun e => foldCase e.toList).filter (!·.isEmpty) =
      extensions.map fun e => foldCase e.toList := by
    refine List.filter_eq_self.2 ?_
    intro cs hcs
    rcases List.mem_map.1 hcs with ⟨e, he, rfl⟩
    have hbare := h e he
    cases hcs : e.toList with
    | nil => simp [Settings.isBare, hcs] at hbare
    | cons c cs => rfl
  rw [normalizeExtensions, hdots, hnonempty, List.map_map]
  rfl

/-- The normal form of extensions makes no difference to those that are configured. -/
theorem hasExtension_normalizeExtensions {extensions : List String}
    (h : ∀ e ∈ extensions, Settings.isBare e = true) (p : Path) :
    hasExtension (normalizeExtensions extensions) p = hasExtension extensions p := by
  unfold hasExtension
  rw [normalizeExtensions_of_isBare h]
  cases p.extension? with
  | none => rfl
  | some ending =>
      simp [List.any_map, Function.comp_def, sameFolded, foldCase_foldCase]

end Walk

/-! ## Names and relative paths -/

namespace Path

theorem fileName?_of_names {p : Path} (habs : p.isAbsolute = true) {name : FileName}
    (hlast : p.names.getLast? = some name) (hname : IsEntryName name) :
    p.fileName? = some name := by
  have hcomponents : p.components.getLast? = some name := by
    rw [components_of_isAbsolute habs, List.getLast?_cons, hlast]
    rfl
  simp [fileName?, hcomponents, hname.ne_slash, hname.ne_dot, hname.notParent]

theorem fileName?_of_isEntryName {name : FileName} (hname : IsEntryName name) :
    fileName? ⟨name⟩ = some name := by
  have hrelative := isAbsolute_of_isPiece hname.piece
  have hcomponents : components ⟨name⟩ = [name] := by
    simp [components, hrelative, splitSlash_of_not_mem hname.piece.2, hname.piece.1, hname.ne_dot]
  simp [fileName?, hcomponents, hname.ne_slash, hname.ne_dot, hname.notParent]

theorem dropRoot?_eq_some_iff {root parts rest : List (List UInt8)} :
    dropRoot? root parts = some rest ↔ parts = root ++ rest := by
  induction root generalizing parts with
  | nil => simp [dropRoot?]
  | cons r root ih =>
      cases parts with
      | nil => simp [dropRoot?]
      | cons part parts =>
          by_cases hpart : r = part
          · simp [dropRoot?, hpart, ih]
          · have hne : part ≠ r := fun h => hpart h.symm
            simp [dropRoot?, hpart, hne]

theorem relativeTo?_eq_some_iff {root p : Path} (hroot : root.isAbsolute = true)
    (hp : p.isAbsolute = true) {relative : String} :
    root.relativeTo? p = some relative ↔
      ∃ rest, rest ≠ [] ∧ p.names = root.names ++ rest ∧
        String.ofList (joinNames rest) = relative := by
  have hdrop : ∀ rest, dropRoot? root.components p.components = some rest ↔
      p.names = root.names ++ rest := by
    intro rest
    rw [dropRoot?_eq_some_iff, components_of_isAbsolute hroot, components_of_isAbsolute hp]
    simp
  unfold relativeTo?
  cases hparts : dropRoot? root.components p.components with
  | none =>
      simp only [reduceCtorEq, false_iff]
      rintro ⟨rest, -, hnames, -⟩
      rw [(hdrop rest).2 hnames] at hparts
      cases hparts
  | some parts =>
      have hnames := (hdrop parts).1 hparts
      have hrest : ∀ rest, p.names = root.names ++ rest ↔ rest = parts := by
        intro rest
        rw [hnames, List.append_cancel_left_eq, eq_comm]
      cases parts with
      | nil => simp [hrest]
      | cons part parts => simp [hrest]

end Path

namespace Walk

/-- The names below a folder, joined as a walk does it, are joined with slashes. -/
theorem joined_decode {names : List FileName} (hnames : ∀ name ∈ names, name ≠ []) :
    joined (names.map fun name => String.ofList (decode name)) = String.ofList (Path.joinNames names) := by
  have htexts : ∀ text ∈ names.map fun name => String.ofList (decode name), text ≠ "" := by
    intro text htext hempty
    obtain ⟨name, hname, rfl⟩ := List.mem_map.1 htext
    have hnil : decode name = [] := by simpa [← String.toList_inj] using hempty
    refine hnames name hname (eq_replicate_of_shown (b := Path.dot) (n := 0) (by decide) ?_)
    rw [shown, hnil]
    rfl
  rw [joined_eq_intercalate htexts]
  clear htexts hnames
  induction names with
  | nil => rfl
  | cons name names ih =>
      cases names with
      | nil => simp [Path.joinNames]
      | cons next names =>
          rw [List.map_cons] at ih
          rw [List.map_cons, List.map_cons, String.intercalate_cons_cons, ih]
          simp [← String.toList_inj, Path.joinNames]

/-- Only the name of a file counts for its extension. -/
theorem hasExtension_congr (extensions : List String) {p q : Path}
    (h : p.fileName? = q.fileName?) : hasExtension extensions p = hasExtension extensions q := by
  unfold hasExtension Path.extension?
  rw [h]

end Walk

/-! ## Both ways to decide -/

/-- Whether settings keep a file by its names below a folder: it has a script extension, and the patterns
keep its relative path. -/
def Settings.Keeps (settings : Settings) (names : List FileName) : Prop :=
  ∃ filter name, PathFilter.compile settings.includes settings.excludes = .ok filter ∧
    names.getLast? = some name ∧ Walk.hasExtension settings.extensions ⟨name⟩ = true ∧
    filter.accepts (String.ofList (Path.joinNames names)) = true

theorem Settings.Keeps.ne_nil {settings : Settings} {names : List FileName} (h : settings.Keeps names) :
    names ≠ [] := by
  rintro rfl
  obtain ⟨_, _, _, hlast, _⟩ := h
  cases hlast

/-- Whether a walk from a folder shows a place under its own names: those below the folder are text, and
the walk can list every directory that it comes to. -/
def Disk.Shows (disk : Disk) (folder : Uri) (names : List FileName) : Prop :=
  ∃ root rest, folder.path? = some root ∧ names = root.names ++ rest ∧
    (∀ name ∈ rest, isUtf8 name = true) ∧ Walk.Complete disk.list root

namespace Workspace

theorem isIndexable_iff (w : Workspace) {uri : Uri} {p : Path} (hpath : uri.path? = some p) :
    w.isIndexable uri = true ↔
      Walk.hasExtension w.settings.extensions p = true ∧
        ∃ filter, PathFilter.compile w.settings.includes w.settings.excludes = .ok filter ∧
          ∃ folder ∈ w.folders, ∃ root, folder.path? = some root ∧
            ∃ rest, rest ≠ [] ∧ p.names = root.names ++ rest ∧
              filter.accepts (String.ofList (Path.joinNames rest)) = true := by
  have habs := Uri.isAbsolute_of_path? hpath
  unfold isIndexable
  rw [hpath]
  dsimp only
  rw [Bool.and_eq_true]
  refine and_congr_right fun _ => ?_
  cases hfilter : PathFilter.compile w.settings.includes w.settings.excludes with
  | error e => simp
  | ok filter =>
      simp only [List.any_eq_true, List.mem_filterMap, Except.ok.injEq, exists_eq_left']
      constructor
      · rintro ⟨relative, ⟨root, ⟨folder, hfolder, hroot⟩, hrelative⟩, haccepts⟩
        rcases (Path.relativeTo?_eq_some_iff (Uri.isAbsolute_of_path? hroot) habs).1 hrelative with
          ⟨rest, hne, hnames, rfl⟩
        exact ⟨folder, hfolder, root, hroot, rest, hne, hnames, haccepts⟩
      · rintro ⟨folder, hfolder, root, hroot, rest, hne, hnames, haccepts⟩
        have hrelative := (Path.relativeTo?_eq_some_iff (Uri.isAbsolute_of_path? hroot) habs).2
          ⟨rest, hne, hnames, rfl⟩
        exact ⟨_, ⟨root, ⟨folder, hfolder, hroot⟩, hrelative⟩, haccepts⟩

/-- The URI of a file belongs to the workspace if the settings keep its names below some folder. -/
theorem isIndexable_ofNames_iff (w : Workspace) {names : List FileName}
    (hnames : ∀ name ∈ names, IsEntryName name) :
    w.isIndexable (Uri.ofNames names) = true ↔
      ∃ folder ∈ w.folders, ∃ root rest, folder.path? = some root ∧ names = root.names ++ rest ∧
        w.settings.Keeps rest := by
  -- The path that is read back from the URI has the names that were written.
  have hread := Uri.path?_ofNames names
  have hreadNames := Uri.names_of_path?_ofNames (fun n hn => (hnames n hn).piece) hread
  have hextension : ∀ front rest name, names = front ++ rest → rest.getLast? = some name →
      Walk.hasExtension w.settings.extensions ⟨Uri.closeDrive (Path.ofNames names).bytes⟩ =
        Walk.hasExtension w.settings.extensions ⟨name⟩ := by
    intro front rest name hsplit hlast
    have hlast' : names.getLast? = some name := by
      rw [hsplit, List.getLast?_append, hlast]
      rfl
    have hname := hnames name (List.mem_of_getLast? hlast')
    refine Walk.hasExtension_congr _ (Eq.trans ?_ (Path.fileName?_of_isEntryName hname).symm)
    refine Path.fileName?_of_names (Uri.isAbsolute_of_path? hread) ?_ hname
    rw [hreadNames, hlast']
  rw [isIndexable_iff w hread, hreadNames]
  constructor
  · rintro ⟨hhas, filter, hfilter, folder, hfolder, root, hroot, rest, hne, hsplit, haccepts⟩
    have hlast := List.getLast?_eq_some_getLast hne
    rw [hextension _ rest _ hsplit hlast] at hhas
    exact ⟨folder, hfolder, root, rest, hroot, hsplit, filter, _, hfilter, hlast, hhas, haccepts⟩
  · rintro ⟨folder, hfolder, root, rest, hroot, hsplit, hkeeps⟩
    have hne := hkeeps.ne_nil
    obtain ⟨filter, name, hfilter, hlast, hhas, haccepts⟩ := hkeeps
    rw [← hextension _ rest _ hsplit hlast] at hhas
    exact ⟨hhas, filter, hfilter, folder, hfolder, root, hroot, rest, hne, hsplit, haccepts⟩

/-- Whether a URI belongs to the workspace for the sake of one folder. -/
def Admits (w : Workspace) (folder uri : Uri) : Prop :=
  { w with folders := [folder] }.isIndexable uri = true

theorem admits_ofNames_iff (w : Workspace) (folder : Uri) {names : List FileName}
    (hnames : ∀ name ∈ names, IsEntryName name) :
    w.Admits folder (Uri.ofNames names) ↔
      ∃ root rest, folder.path? = some root ∧ names = root.names ++ rest ∧ w.settings.Keeps rest := by
  rw [Admits, isIndexable_ofNames_iff _ hnames]
  simp

section Scan

variable {disk : Disk} {settings : Settings} {filter : PathFilter} {folders : List Uri}

/-- What a walk wants among names that are text. -/
theorem wantedBy_iff (hsettings : settings.IsConfigured) {names : List FileName} {name : FileName}
    (hnames : ∀ n ∈ names, n ≠ [] ∧ isUtf8 n = true) (hlast : names.getLast? = some name) :
    Walk.wantedBy (Walk.normalizeExtensions settings.extensions) filter (String.ofList (decode name))
        (Walk.joined ([] ++ names.map fun n => String.ofList (decode n))) = true ↔
      Walk.hasExtension settings.extensions ⟨name⟩ = true ∧
        filter.accepts (String.ofList (Path.joinNames names)) = true := by
  have htext := ofString_decode_of_isUtf8 (hnames name (List.mem_of_getLast? hlast)).2
  rw [Walk.wantedBy, List.nil_append, Walk.joined_decode fun n hn => (hnames n hn).1, htext,
    Walk.hasExtension_normalizeExtensions fun e he => hsettings.isBare he, Bool.and_eq_true]

/-- A scan of a folder gives what the walk from it finds, if the walk comes to its end. -/
theorem mem_filesIn_iff (h : disk.IsRooted) {folder : Uri} {p : Path} :
    p ∈ filesIn disk settings folder ↔
      ∃ root filter, folder.path? = some root ∧
        PathFilter.compile settings.includes settings.excludes = .ok filter ∧
        Walk.Complete disk.list root ∧
        Walk.Finds disk.list (Walk.wantedBy (Walk.normalizeExtensions settings.extensions) filter)
          root [] p := by
  unfold filesIn
  cases hpath : folder.path? with
  | none => simp
  | some root =>
      cases hfilter : PathFilter.compile settings.includes settings.excludes with
      | error e => simp [Walk.collect, hfilter]
      | ok filter =>
          have hanswer : Walk.IsAnswer disk.list (Walk.normalizeExtensions settings.extensions) root _ _ _ :=
            Walk.isAnswer_listing h hfilter
          have hfiles := hanswer.exists_files_iff
          simp only [Option.some.injEq, Except.ok.injEq, exists_eq_left', exists_and_left]
          cases hcollect : Walk.collect disk.listing (Walk.normalizeExtensions settings.extensions) root
              settings.includes settings.excludes with
          | error e =>
              rw [hcollect] at hfiles
              simp [← hfiles]
          | ok found =>
              rw [hcollect] at hanswer hfiles
              simp [← hfiles, hanswer.mem_iff hfilter]

/-- What a scan finds has text names below its folder. -/
theorem exists_names_of_mem_files (h : disk.IsRooted) (hsettings : settings.IsConfigured) {p : Path}
    (hp : p ∈ files disk settings folders) :
    ∃ folder ∈ folders, ∃ root rest, folder.path? = some root ∧ p = root.below rest ∧
      (∀ name ∈ rest, IsFileName name) ∧ settings.Keeps rest ∧ Walk.Complete disk.list root := by
  obtain ⟨folder, hfolder, hmem⟩ := List.mem_flatMap.1 hp
  obtain ⟨root, filter, hpath, hfilter, hcomplete, hfinds⟩ := (mem_filesIn_iff h).1 hmem
  obtain ⟨rest, name, hrest, hlast, rfl, hwanted⟩ := h.exists_names_of_finds hfinds
  obtain ⟨hextension, haccepts⟩ :=
    (wantedBy_iff hsettings (fun n hn => ⟨(hrest n hn).ne_nil, (hrest n hn).isText⟩) hlast).1 hwanted
  exact ⟨folder, hfolder, root, rest, hpath, rfl, hrest, ⟨filter, name, hfilter, hlast, hextension, haccepts⟩,
    hcomplete⟩

theorem isAbsolute_of_mem_files (h : disk.IsRooted) (hsettings : settings.IsConfigured) {p : Path}
    (hp : p ∈ files disk settings folders) : p.isAbsolute = true := by
  obtain ⟨folder, -, root, rest, hpath, rfl, -⟩ := exists_names_of_mem_files h hsettings hp
  exact Path.isAbsolute_below (Uri.isAbsolute_of_path? hpath) rest

/-- Files with text names are found if the settings keep them. -/
theorem mem_files_of_keeps (h : disk.IsRooted) (hsettings : settings.IsConfigured) {folder : Uri}
    (hfolder : folder ∈ folders) {root : Path} (hpath : folder.path? = some root)
    (hcomplete : Walk.Complete disk.list root) {rest : List FileName} {contents : List UInt8}
    (hcontents : disk.contents? (root.names ++ rest) = some contents)
    (htexts : ∀ name ∈ rest, isUtf8 name = true) (hkeeps : settings.Keeps rest) :
    root.below rest ∈ files disk settings folders := by
  have habs := Uri.isAbsolute_of_path? hpath
  have hnode := Disk.contents?_eq_some.1 hcontents
  -- The file lies below the folder, which is a directory for that reason.
  have hroot := h.resolve_of_directory habs (h.node?_of_append hnode hkeeps.ne_nil)
  obtain ⟨filter, name, hfilter, hlast, hextension, haccepts⟩ := hkeeps
  have hnames : ∀ n ∈ rest, n ≠ [] ∧ isUtf8 n = true := fun n hn =>
    ⟨(h.isEntryName hnode n (List.mem_append_right _ hn)).ne_nil, htexts n hn⟩
  refine List.mem_flatMap.2 ⟨folder, hfolder, (mem_filesIn_iff h).2 ⟨root, filter, hpath, hfilter, hcomplete, ?_⟩⟩
  exact h.finds_of_contents habs hroot htexts hlast hcontents
    ((wantedBy_iff hsettings hnames hlast).2 ⟨hextension, haccepts⟩)

end Scan

/-! ## Agreement -/

section Agreement

variable {disk : Disk} {w : Workspace} {names : List FileName} {contents : List UInt8}

/-- Whether a scan finds a file is what a look at its URI says, as far as walks show the file. -/
theorem exists_mem_files_iff_shows (h : disk.IsRooted) (hsettings : w.settings.IsConfigured)
    (hcontents : disk.contents? names = some contents) :
    (∃ q ∈ files disk w.settings w.folders, q.names = names) ↔
      ∃ folder ∈ w.folders, w.Admits folder (Uri.ofNames names) ∧ disk.Shows folder names := by
  have hentries := h.isEntryName (Disk.contents?_eq_some.1 hcontents)
  constructor
  · rintro ⟨q, hq, rfl⟩
    obtain ⟨folder, hfolder, root, rest, hpath, rfl, hrest, hkeeps, hcomplete⟩ :=
      exists_names_of_mem_files h hsettings hq
    have hnames := Path.names_below root fun n hn => (hrest n hn).piece
    exact ⟨folder, hfolder, (admits_ofNames_iff w folder hentries).2 ⟨root, rest, hpath, hnames, hkeeps⟩,
      root, rest, hpath, hnames, fun n hn => (hrest n hn).isText, hcomplete⟩
  · -- The folder admits the file by the same names below it as those under which it is shown.
    rintro ⟨folder, hfolder, hadmits, root, rest, hpath, rfl, htexts, hcomplete⟩
    obtain ⟨root', rest', hpath', hsplit, hkeeps⟩ := (admits_ofNames_iff w folder hentries).1 hadmits
    cases hpath.symm.trans hpath'
    obtain rfl := List.append_cancel_left hsplit
    refine ⟨root.below rest, ?_, Path.names_below root fun n hn => ?_⟩
    · exact mem_files_of_keeps h hsettings hfolder hpath hcomplete hcontents htexts hkeeps
    · exact (hentries n (List.mem_append_right _ hn)).piece

theorem isIndexable_ofNames_iff_admits (hnames : ∀ name ∈ names, IsEntryName name) :
    w.isIndexable (Uri.ofNames names) = true ↔
      ∃ folder ∈ w.folders, w.Admits folder (Uri.ofNames names) := by
  simp only [isIndexable_ofNames_iff w hnames, admits_ofNames_iff w _ hnames]

/-- On a tree walks show every file that a folder admits. -/
theorem Admits.shows (h : disk.IsTree) (hcontents : disk.contents? names = some contents) {folder : Uri}
    (hadmits : w.Admits folder (Uri.ofNames names)) : disk.Shows folder names := by
  have hnode := Disk.contents?_eq_some.1 hcontents
  obtain ⟨root, rest, hpath, rfl, hkeeps⟩ := (admits_ofNames_iff w folder (h.isEntryName hnode)).1 hadmits
  have habs := Uri.isAbsolute_of_path? hpath
  have hroot := h.resolve_of_directory habs (h.node?_of_append hnode hkeeps.ne_nil)
  exact ⟨root, rest, hpath, rfl, fun n hn => (h.isFileName hnode n (List.mem_append_right _ hn)).isText,
    h.complete habs hroot⟩

/-- Whether a scan finds a file of a tree is what a look at its URI says. -/
theorem exists_mem_files_iff (h : disk.IsTree) (hsettings : w.settings.IsConfigured)
    (hcontents : disk.contents? names = some contents) :
    (∃ q ∈ files disk w.settings w.folders, q.names = names) ↔ w.isIndexable (Uri.ofNames names) = true := by
  rw [exists_mem_files_iff_shows h.toIsRooted hsettings hcontents,
    isIndexable_ofNames_iff_admits (h.isEntryName (Disk.contents?_eq_some.1 hcontents))]
  exact exists_congr fun folder => and_congr_right fun _ => and_iff_left_of_imp (Admits.shows h hcontents)

end Agreement

/-- Files are looked at one by one as a scan would find them, if walks show them. For a path that leads to
a regular file there is a URI. It belongs to the workspace exactly if some folder admits it, and a scan of
the folders finds the path exactly if some folder admits the URI and the walk from that folder shows the
file under its own names. Both are the same on a tree, where all names are text. Links may stand anywhere,
and the folders may be nested, repeated or missing. -/
theorem watched_files_match_scan {disk : Disk} (h : disk.IsRooted) {w : Workspace}
    (hsettings : w.settings.IsConfigured) {p : Path} (habs : p.isAbsolute = true)
    {contents : List UInt8} (hfile : disk.contents? p.names = some contents) :
    ∃ uri, Uri.ofPath? p = some uri ∧
      (w.isIndexable uri = true ↔ ∃ folder ∈ w.folders, w.Admits folder uri) ∧
      ((∃ q ∈ files disk w.settings w.folders, q.components = p.components) ↔
        ∃ folder ∈ w.folders, w.Admits folder uri ∧ disk.Shows folder p.names) ∧
      (disk.IsTree →
        ((∃ q ∈ files disk w.settings w.folders, q.components = p.components) ↔
          w.isIndexable uri = true)) := by
  -- All paths here start at the root, so that their components differ from their names by the root.
  have hsame : (∃ q ∈ files disk w.settings w.folders, q.components = p.components) ↔
      ∃ q ∈ files disk w.settings w.folders, q.names = p.names := by
    refine exists_congr fun q => and_congr_right fun hq => ?_
    rw [Path.components_of_isAbsolute habs,
      Path.components_of_isAbsolute (isAbsolute_of_mem_files h hsettings hq)]
    exact List.cons_inj_right _
  refine ⟨Uri.ofNames p.names, Uri.ofPath?_of_isAbsolute habs, ?_, ?_, fun htree => ?_⟩
  · exact isIndexable_ofNames_iff_admits (h.isEntryName (Disk.contents?_eq_some.1 hfile))
  · exact hsame.trans (exists_mem_files_iff_shows h hsettings hfile)
  · exact hsame.trans (exists_mem_files_iff htree hsettings hfile)

/-- The outer of two nested folders leaves a file out, the inner one keeps it. The outer folder is
given twice, there is a link beside the inner one, and the path is not in its shortest form. -/
theorem watched_files_match_scan_in_nested_folders :
    let name (text : String) := Text.encode text.toList
    let disk : Disk :=
      (Disk.write {} [name "ws", name "lib", name "a.ahk"] (.file [])).write
        [name "ws", name "link"] (.link (Path.ofString "lib"))
    let w : Workspace :=
      { folders := [⟨"file:///ws"⟩, ⟨"file:///ws/lib"⟩, ⟨"file:///ws"⟩]
        settings := { excludes := ["lib/*"] } }
    let p := Path.ofString "/ws//lib/./a.ahk"
    disk.contents? p.names = some [] ∧ w.isIndexable ⟨"file:///ws/lib/a.ahk"⟩ = true ∧
      ∃ q ∈ files disk w.settings w.folders, q.components = p.components := by
  intro name disk w p
  have hsettings : w.settings.IsConfigured :=
    Or.inr ⟨.object [("hotscope", .object [("exclude", .array [.string "lib/*"])])],
      by decide +kernel⟩
  have htree : disk.IsTree := by decide +kernel
  have hfile : disk.contents? p.names = some [] := by decide +kernel
  have hindexable : w.isIndexable ⟨"file:///ws/lib/a.ahk"⟩ = true := by decide +kernel
  have huri : Uri.ofPath? p = some ⟨"file:///ws/lib/a.ahk"⟩ := by decide +kernel
  rcases watched_files_match_scan htree.toIsRooted hsettings (p := p) (by decide +kernel) hfile with
    ⟨uri, hsome, -, -, hagree⟩
  rw [huri] at hsome
  cases hsome
  exact ⟨hfile, hindexable, (hagree htree).2 hindexable⟩

/-- A file whose name is not text is admitted by its URI, and a scan gives another name in its place. Every
directory can be listed here. -/
theorem bad_name_is_watched_but_not_scanned :
    let name (text : String) := Text.encode text.toList
    let names := [name "ws", 0xFF :: name ".ahk"]
    let disk := Disk.write {} names (.file [])
    let w : Workspace := { folders := [⟨"file:///ws"⟩] }
    let p := Path.ofNames names
    disk.IsRooted ∧ disk.contents? p.names = some [] ∧ Walk.Complete disk.list (Path.ofString "/ws") ∧
      Uri.ofPath? p = some ⟨"file:///ws/%FF.ahk"⟩ ∧ w.isIndexable ⟨"file:///ws/%FF.ahk"⟩ = true ∧
      files disk w.settings w.folders = [Path.ofString "/ws/\uFFFD.ahk"] ∧
      ¬∃ q ∈ files disk w.settings w.folders, q.components = p.components := by
  intro name names disk w p
  have hfiles : files disk w.settings w.folders = [Path.ofString "/ws/\uFFFD.ahk"] := by decide +kernel
  have hwalk : Walk.filesBelow disk.list (fun _ _ => true) 1 (Path.ofString "/ws") [] =
      some (.ok [Path.ofString "/ws/\uFFFD.ahk"]) := by decide +kernel
  refine ⟨by decide +kernel, by decide +kernel, Walk.complete_of_filesBelow hwalk, by decide +kernel,
    by decide +kernel, hfiles, ?_⟩
  rw [hfiles]
  decide +kernel

/-- Folders whose paths never go up. -/
def HasPlainFolders (folders : List Uri) : Prop :=
  ∀ folder ∈ folders, ∀ root, folder.path? = some root → [Path.dot, Path.dot] ∉ root.names

/-- On a tree without links, a scan of all folders finds the files that belong to the workspace. -/
theorem mem_files_iff {disk : Disk} (h : disk.IsTree) (hregular : disk.isRegular = true)
    {w : Workspace} (hsettings : w.settings.IsConfigured) (hfolders : HasPlainFolders w.folders)
    {uri : Uri} :
    uri ∈ (files disk w.settings w.folders).filterMap Uri.ofPath? ↔
      w.isIndexable uri = true ∧
        ∃ names contents, uri = Uri.ofNames names ∧ disk.contents? names = some contents := by
  constructor
  · intro hmem
    rcases List.mem_filterMap.1 hmem with ⟨p, hp, huri⟩
    rw [Uri.ofPath?_of_isAbsolute (isAbsolute_of_mem_files h.toIsRooted hsettings hp)] at huri
    cases huri
    obtain ⟨folder, hfolder, hfound⟩ := List.mem_flatMap.1 hp
    obtain ⟨root, filter, hpath, -, ⟨hlist, -⟩, hfinds⟩ := (mem_filesIn_iff h.toIsRooted).1 hfound
    obtain ⟨place, hroot, -⟩ := Disk.resolve_of_list hlist
    have habs := Uri.isAbsolute_of_path? hpath
    rcases (h.resolve_eq_ok_iff hregular habs (hfolders folder hfolder root hpath)).1 hroot with
      ⟨rfl, -, -⟩
    obtain ⟨rest, -, contents, -, rfl, hcontents, -⟩ := h.exists_contents_of_finds hfinds habs hroot
    have hnames := h.isFileName (Disk.contents?_eq_some.1 hcontents)
    rw [← Path.names_below root fun n hn => (hnames n (List.mem_append_right _ hn)).piece] at hcontents
    exact ⟨(exists_mem_files_iff h hsettings hcontents).1 ⟨_, hp, rfl⟩, _, contents, rfl, hcontents⟩
  · rintro ⟨hindexable, names, contents, rfl, hcontents⟩
    rcases (exists_mem_files_iff h hsettings hcontents).2 hindexable with ⟨q, hq, rfl⟩
    exact List.mem_filterMap.2
      ⟨q, hq, Uri.ofPath?_of_isAbsolute (isAbsolute_of_mem_files h.toIsRooted hsettings hq)⟩

end Workspace
end ScriptSymbols
