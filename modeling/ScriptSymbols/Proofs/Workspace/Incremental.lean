import ScriptSymbols.Proofs.Workspace.Admission
import ScriptSymbols.Proofs.Workspace.Rebuild

/-!
# Following changes on disk

An index that is kept up to date by events about single files is compared with one that is built anew.
Both take the same files, but only a scan leaves out files that are too large.

1. `Workspace.scanned_ofNames` gives the index that a scan builds in terms of single files.
2. `Disk.EventsBetween` are the events that tell one disk from another.
3. `Workspace.script?_followEvents_of_mem` gives the index after the events.
4. `Server.followed_changes_match_rebuild_iff` says for which URIs the two agree.
-/

namespace ScriptSymbols

open Text

/-! ## What a scan builds, file by file -/

/-- The text of the URI of a file is that of the file, unless the URI is read as that of a drive. -/
theorem Disk.IsTree.source_ofNames_eq_ok_iff {disk : Disk} (h : disk.IsTree)
    (hregular : disk.isRegular = true) {names : List FileName}
    (hnames : ∀ name ∈ names, IsFileName name) {text : String} :
    disk.source (Uri.ofNames names) = .ok text ↔
      (stepsOf ⟨Uri.closeDrive (Path.ofNames names).bytes⟩).getLast? ≠ some [Path.dot] ∧
        ∃ contents, disk.contents? names = some contents ∧ decodeFile contents = text := by
  have hpath := Uri.path?_ofNames names
  have hread := Uri.names_of_path?_ofNames (fun name hname => (hnames name hname).piece) hpath
  have hup : [Path.dot, Path.dot] ∉ Path.names ⟨Uri.closeDrive (Path.ofNames names).bytes⟩ := by
    rw [hread]
    intro hmem
    exact (hnames _ hmem).notParent rfl
  rw [h.source_eq_ok_iff hregular hpath hup, hread]

namespace Workspace

section Scan

variable {disk : Disk} {w : Workspace}

theorem scanned_ofNames (h : disk.IsTree) (hregular : disk.isRegular = true)
    (hsettings : w.settings.IsConfigured) (hfolders : HasPlainFolders w.folders)
    {names : List FileName} (hnames : ∀ name ∈ names, IsFileName name) :
    scanned disk w.settings w.folders (Uri.ofNames names) =
      if w.isIndexable (Uri.ofNames names) then
        match disk.source (Uri.ofNames names) with
        | .ok text =>
          if byteSize text.toList ≤ w.settings.maxFileSize then
            some (Script.ofText (Uri.ofNames names) text)
          else none
        | .error _ => none
      else none := by
  unfold scanned
  cases hsource : disk.source (Uri.ofNames names) with
  | error e => simp
  | ok text =>
      rcases (h.source_ofNames_eq_ok_iff hregular hnames).1 hsource with ⟨-, contents, hcontents, -⟩
      have hmem : Uri.ofNames names ∈ (files disk w.settings w.folders).filterMap Uri.ofPath? ↔
          w.isIndexable (Uri.ofNames names) = true := by
        rw [mem_files_iff h hregular hsettings hfolders]
        exact and_iff_left ⟨names, contents, rfl, hcontents⟩
      simp only [hmem]

theorem scanned_eq_none (h : disk.IsTree) (hregular : disk.isRegular = true)
    (hsettings : w.settings.IsConfigured) (hfolders : HasPlainFolders w.folders) {uri : Uri}
    (huri : ∀ names, (∀ name ∈ names, IsFileName name) → uri ≠ Uri.ofNames names) :
    scanned disk w.settings w.folders uri = none := by
  refine if_neg ?_
  intro hmem
  rcases (mem_files_iff h hregular hsettings hfolders).1 hmem with
    ⟨-, names, contents, heq, hcontents⟩
  exact huri names (h.isFileName (Disk.contents?_eq_some.1 hcontents)) heq

/-- A scan gives the URI of a file the same on two disks on which the file has the same contents. -/
theorem scanned_ofNames_congr {before after : Disk} (hbefore : before.IsTree)
    (hafter : after.IsTree) (hregular : before.isRegular = true)
    (hregular' : after.isRegular = true) (hsettings : w.settings.IsConfigured)
    (hfolders : HasPlainFolders w.folders) {names : List FileName}
    (hnames : ∀ name ∈ names, IsFileName name)
    (hsame : before.contents? names = after.contents? names) :
    scanned before w.settings w.folders (Uri.ofNames names) =
      scanned after w.settings w.folders (Uri.ofNames names) := by
  have hsource : ∀ text, before.source (Uri.ofNames names) = .ok text ↔
      after.source (Uri.ofNames names) = .ok text := by
    intro text
    rw [hbefore.source_ofNames_eq_ok_iff hregular hnames,
      hafter.source_ofNames_eq_ok_iff hregular' hnames, hsame]
  rw [scanned_ofNames hbefore hregular hsettings hfolders hnames,
    scanned_ofNames hafter hregular' hsettings hfolders hnames]
  -- Why a file cannot be read may differ between the disks, but not whether it can.
  cases hold : before.source (Uri.ofNames names) with
  | ok text => rw [(hsource text).1 hold]
  | error e =>
      cases hnew : after.source (Uri.ofNames names) with
      | ok text =>
          rw [(hsource text).2 hnew] at hold
          cases hold
      | error e' => rfl

end Scan

end Workspace

/-! ## Events -/

/-- The events that tell one disk from another: one for each file that was created, changed or
deleted. -/
def Disk.EventsBetween (before after : Disk) (events : List FileEvent) : Prop :=
  ∀ e, e ∈ events ↔ ∃ names, before.contents? names ≠ after.contents? names ∧
    Uri.ofPath? (Path.ofNames names) = some e.uri ∧ e.deleted = (after.contents? names).isNone

namespace Disk.EventsBetween

variable {before after : Disk} {events : List FileEvent}

theorem ofPath?_ofNames {names : List FileName} (hnames : ∀ name ∈ names, IsFileName name) :
    Uri.ofPath? (Path.ofNames names) = some (Uri.ofNames names) := by
  rw [Uri.ofPath?_of_isAbsolute (Path.isAbsolute_ofNames names),
    Path.names_ofNames fun name hname => (hnames name hname).piece]

/-- A file that differs between two disks is on one of them, and so has proper names. -/
theorem isFileName (hbefore : before.IsTree) (hafter : after.IsTree) {names : List FileName}
    (hdiffer : before.contents? names ≠ after.contents? names) :
    ∀ name ∈ names, IsFileName name := by
  cases hold : before.contents? names with
  | some contents => exact hbefore.isFileName (contents?_eq_some.1 hold)
  | none =>
      cases hnew : after.contents? names with
      | some contents => exact hafter.isFileName (contents?_eq_some.1 hnew)
      | none => exact absurd (hold.trans hnew.symm) hdiffer

theorem mem_iff (h : EventsBetween before after events) (hbefore : before.IsTree)
    (hafter : after.IsTree) {e : FileEvent} {names : List FileName}
    (hnames : ∀ name ∈ names, IsFileName name) (huri : e.uri = Uri.ofNames names) :
    e ∈ events ↔ before.contents? names ≠ after.contents? names ∧
      e.deleted = (after.contents? names).isNone := by
  rw [h e]
  constructor
  · rintro ⟨other, hdiffer, hother, hdeleted⟩
    have hotherNames := isFileName hbefore hafter hdiffer
    rw [ofPath?_ofNames hotherNames, huri] at hother
    have heq : other = names :=
      Uri.ofNames_injective (fun n hn => (hotherNames n hn).piece) (fun n hn => (hnames n hn).piece)
        (Option.some.inj hother)
    subst heq
    exact ⟨hdiffer, hdeleted⟩
  · rintro ⟨hdiffer, hdeleted⟩
    exact ⟨names, hdiffer, by rw [ofPath?_ofNames hnames, huri], hdeleted⟩

theorem uri_ne (h : EventsBetween before after events) (hbefore : before.IsTree)
    (hafter : after.IsTree) {uri : Uri}
    (huri : ∀ names, (∀ name ∈ names, IsFileName name) → uri ≠ Uri.ofNames names) :
    ∀ e ∈ events, e.uri ≠ uri := by
  rintro e he rfl
  rcases (h e).1 he with ⟨names, hdiffer, hwritten, -⟩
  have hnames := isFileName hbefore hafter hdiffer
  rw [ofPath?_ofNames hnames] at hwritten
  exact huri names hnames (Option.some.inj hwritten).symm

end Disk.EventsBetween

/-- The events between two disks, one for each file that differs, in the order of their nodes. -/
def Disk.changes (before after : Disk) : List FileEvent :=
  ((before.nodes ++ after.nodes).map Prod.fst).eraseDups.filterMap fun names =>
    if before.contents? names = after.contents? names then none
    else
      (Uri.ofPath? (Path.ofNames names)).map fun uri =>
        { uri, deleted := (after.contents? names).isNone }

theorem Disk.mem_map_of_contents? {disk : Disk} {names : List FileName} {contents : List UInt8}
    (h : disk.contents? names = some contents) : names ∈ disk.nodes.map Prod.fst := by
  have hnode := contents?_eq_some.1 h
  refine List.mem_map.2 ⟨_, mem_of_node? hnode ?_, rfl⟩
  rintro rfl
  cases hnode

theorem Disk.eventsBetween_changes (before after : Disk) :
    EventsBetween before after (before.changes after) := by
  rintro ⟨uri, deleted⟩
  unfold changes
  rw [List.mem_filterMap]
  constructor
  · rintro ⟨names, -, hevent⟩
    split at hevent
    · cases hevent
    · rename_i hdiffer
      rcases Option.map_eq_some_iff.1 hevent with ⟨written, hwritten, heq⟩
      cases heq
      exact ⟨names, hdiffer, hwritten, rfl⟩
  · rintro ⟨names, hdiffer, hwritten, hdeleted⟩
    -- A file that differs is among the nodes of the disk that has it.
    have hmem : names ∈ (before.nodes ++ after.nodes).map Prod.fst := by
      rw [List.map_append]
      cases hold : before.contents? names with
      | some contents => exact List.mem_append_left _ (mem_map_of_contents? hold)
      | none =>
          cases hnew : after.contents? names with
          | none => exact absurd (hold.trans hnew.symm) hdiffer
          | some contents => exact List.mem_append_right _ (mem_map_of_contents? hnew)
    refine ⟨names, List.mem_eraseDups.2 hmem, ?_⟩
    dsimp only at hwritten hdeleted
    rw [if_neg hdiffer, hwritten, hdeleted]
    rfl

namespace Workspace

/-! ## The index after events -/

/-- What reading a file anew gives its URI, however large the file is. -/
def readAnew (disk : Disk) (uri : Uri) : Option Script :=
  match disk.source uri with
  | .ok text => some (Script.ofText uri text)
  | .error _ => none

theorem get?_followEvent_self (disk : Disk) (ix : SymbolIndex) (e : FileEvent) :
    (followEvent disk ix e).get? e.uri = if e.deleted then none else readAnew disk e.uri := by
  unfold followEvent readAnew
  split
  · simp [SymbolIndex.get?_remove]
  · rw [refresh_eq]
    cases disk.source e.uri with
    | ok text => simp [SymbolIndex.get?_store]
    | error cause => simp [SymbolIndex.get?_remove]

/-- Where all events about a URI are the same, it does not matter how many there are. -/
theorem get?_foldl_followEvent (disk : Disk) (ix : SymbolIndex) {events : List FileEvent}
    {e : FileEvent} (he : e ∈ events) (hsame : ∀ e' ∈ events, e'.uri = e.uri → e' = e) :
    (events.foldl (followEvent disk) ix).get? e.uri =
      if e.deleted then none else readAnew disk e.uri := by
  induction events generalizing ix with
  | nil => cases he
  | cons first events ih =>
      have hlater : ∀ e' ∈ events, e'.uri = e.uri → e' = e := by
        intro e' he'
        exact hsame e' (List.mem_cons_of_mem first he')
      rw [List.foldl_cons]
      by_cases hagain : e ∈ events
      · exact ih _ hagain hlater
      · have hne : ∀ e' ∈ events, e.uri ≠ e'.uri := by
          intro e' he' huri
          exact hagain (hlater e' he' huri.symm ▸ he')
        rcases List.mem_cons.1 he with rfl | hrest
        · rw [foldl_followEvent_of_forall_ne disk _ hne]
          exact get?_followEvent_self disk ix e
        · exact absurd hrest hagain

theorem script?_followEvents_of_mem (disk : Disk) {w : Workspace} {events : List FileEvent}
    {e : FileEvent} (he : e ∈ events) (hconcerns : w.concerns e = true)
    (hsame : ∀ e' ∈ events, e'.uri = e.uri → e' = e) :
    (w.followEvents disk events).script? e.uri =
      if e.deleted then none else readAnew disk e.uri := by
  refine get?_foldl_followEvent disk w.index (List.mem_filter.2 ⟨he, hconcerns⟩) ?_
  intro e' he'
  exact hsame e' (List.mem_filter.1 he').1

theorem script?_followEvents_of_unconcerned (disk : Disk) {w : Workspace}
    {events : List FileEvent} {uri : Uri}
    (h : ∀ e ∈ events, e.uri = uri → w.concerns e = false) :
    (w.followEvents disk events).script? uri = w.script? uri := by
  refine foldl_followEvent_of_forall_ne disk w.index ?_
  rintro e he rfl
  rcases List.mem_filter.1 he with ⟨hmem, hconcerns⟩
  rw [h e hmem rfl] at hconcerns
  cases hconcerns

theorem readAnew_eq_none {disk : Disk} (h : disk.IsTree) (hregular : disk.isRegular = true)
    {names : List FileName} (hnames : ∀ name ∈ names, IsFileName name)
    (hcontents : disk.contents? names = none) : readAnew disk (Uri.ofNames names) = none := by
  unfold readAnew
  cases hsource : disk.source (Uri.ofNames names) with
  | error e => rfl
  | ok text =>
      rcases (h.source_ofNames_eq_ok_iff hregular hnames).1 hsource with ⟨-, contents, hfile, -⟩
      rw [hcontents] at hfile
      cases hfile

/-- A scan and reading anew give a file of the workspace the same unless it is too large. -/
theorem readAnew_eq_scanned_iff {disk : Disk} (h : disk.IsTree) (hregular : disk.isRegular = true)
    {w : Workspace} (hsettings : w.settings.IsConfigured) (hfolders : HasPlainFolders w.folders)
    {names : List FileName} (hnames : ∀ name ∈ names, IsFileName name)
    (hindexable : w.isIndexable (Uri.ofNames names) = true) :
    readAnew disk (Uri.ofNames names) = scanned disk w.settings w.folders (Uri.ofNames names) ↔
      ¬ ∃ text, disk.source (Uri.ofNames names) = .ok text ∧
        w.settings.maxFileSize < byteSize text.toList := by
  rw [scanned_ofNames h hregular hsettings hfolders hnames, if_pos hindexable]
  unfold readAnew
  cases hsource : disk.source (Uri.ofNames names) with
  | error e => simp
  | ok text =>
      by_cases hsize : byteSize text.toList ≤ w.settings.maxFileSize
      · simp [hsize]
      · simp [hsize, Nat.lt_of_not_le hsize]

/-- The index after the events between two disks has, for a file, what reading anew gives it if it
differs between them and belongs to the workspace, and else what a scan of the second disk gives. -/
theorem script?_followEvents_between {before after : Disk} (hbefore : before.IsTree)
    (hafter : after.IsTree) (hregular : before.isRegular = true)
    (hregular' : after.isRegular = true) {events : List FileEvent}
    (hevents : Disk.EventsBetween before after events) {w : Workspace} (hclosed : w.documents = [])
    (hsettings : w.settings.IsConfigured) (hfolders : HasPlainFolders w.folders)
    (hbuilt : ∀ uri, w.script? uri = scanned before w.settings w.folders uri)
    {names : List FileName} (hnames : ∀ name ∈ names, IsFileName name) :
    (w.followEvents after events).script? (Uri.ofNames names) =
      if before.contents? names ≠ after.contents? names ∧
          w.isIndexable (Uri.ofNames names) = true then
        readAnew after (Uri.ofNames names)
      else scanned after w.settings w.folders (Uri.ofNames names) := by
  have hconcerns : ∀ e, w.concerns e = (e.deleted || w.isIndexable e.uri) := by
    intro e
    simp [concerns, isOpen, document?, hclosed]
  by_cases hdiffer : before.contents? names ≠ after.contents? names
  · -- All events about the file are this one.
    let e : FileEvent := ⟨Uri.ofNames names, (after.contents? names).isNone⟩
    have he : e ∈ events := (hevents.mem_iff hbefore hafter hnames rfl).2 ⟨hdiffer, rfl⟩
    have hsame : ∀ e' ∈ events, e'.uri = e.uri → e' = e := by
      rintro ⟨uri, deleted⟩ he' rfl
      have hdeleted := ((hevents.mem_iff hbefore hafter hnames rfl).1 he').2
      simpa [e] using hdeleted
    by_cases hindexable : w.isIndexable (Uri.ofNames names) = true
    · rw [if_pos ⟨hdiffer, hindexable⟩]
      refine (script?_followEvents_of_mem after he (by simp [hconcerns, e, hindexable]) hsame).trans ?_
      cases hcontents : after.contents? names with
      | some contents => simp [e, hcontents]
      | none =>
          rw [readAnew_eq_none hafter hregular' hnames hcontents]
          split <;> rfl
    · -- A file that does not belong to the workspace has no entry before and after.
      have hleftOut : ∀ {disk : Disk}, disk.IsTree → disk.isRegular = true →
          scanned disk w.settings w.folders (Uri.ofNames names) = none := by
        intro disk h hregular
        rw [scanned_ofNames h hregular hsettings hfolders hnames, if_neg hindexable]
      rw [if_neg fun hboth => hindexable hboth.2, hleftOut hafter hregular']
      cases hdeleted : e.deleted with
      | true =>
          refine (script?_followEvents_of_mem after he (by simp [hconcerns, hdeleted]) hsame).trans ?_
          exact if_pos hdeleted
      | false =>
          have hno : ∀ e' ∈ events, e'.uri = Uri.ofNames names → w.concerns e' = false := by
            intro e' he' huri
            rw [hconcerns, hsame e' he' huri, hdeleted]
            simpa using hindexable
          rw [script?_followEvents_of_unconcerned after hno, hbuilt, hleftOut hbefore hregular]
  · have hsame := Decidable.not_not.1 hdiffer
    have hno : ∀ e ∈ events, e.uri = Uri.ofNames names → w.concerns e = false := by
      intro e he huri
      exact absurd ((hevents.mem_iff hbefore hafter hnames huri).1 he).1 hdiffer
    rw [if_neg fun hboth => hdiffer hboth.1, script?_followEvents_of_unconcerned after hno, hbuilt]
    exact scanned_ofNames_congr hbefore hafter hregular hregular' hsettings hfolders hnames hsame

end Workspace

namespace Server

open Workspace

/-! ## Events against a new scan -/

/-- The session with nothing in its index. -/
def emptied (s : Server) : Server :=
  { s with workspace := { s.workspace with index := {} } }

theorem script?_initialized_emptied {s : Server} (hrunning : s.phase = .running)
    (hclosed : s.workspace.documents = []) (hwanted : s.workspace.settings.indexWorkspace = true)
    (disk : Disk) (uri : Uri) :
    (s.emptied.handle disk .initialized).server.workspace.script? uri =
      scanned disk s.workspace.settings s.workspace.folders uri := by
  let w : Workspace := { s.workspace with index := {} }
  have hhandle : s.emptied.handle disk .initialized = s.emptied.index disk := by
    simp [handle, emptied, hrunning, handleRunning]
  have hnone : ∀ uri, w.document? uri = none := by
    intro uri
    simp [w, document?, hclosed]
  rw [hhandle]
  unfold index
  cases hdone : w.indexFiles disk with
  | none => simp [w, indexFiles, hwanted] at hdone
  | some done =>
      have hscript := script?_indexFiles (fun _ _ => rfl) disk hdone uri
      rw [rebuilt, hnone] at hscript
      simpa [emptied, w, hdone, hwanted] using hscript

/-- Where the index holds what a scan of one disk builds, and the events between that disk and another
one are followed, the index agrees with a scan of the second disk at every URI but these: the URIs of
files that were created or changed, belong to the workspace, and are too large for a scan. -/
theorem followed_changes_match_rebuild_iff {before after : Disk} (hbefore : before.IsTree)
    (hafter : after.IsTree) (hregular : before.isRegular = true)
    (hregular' : after.isRegular = true) {events : List FileEvent}
    (hevents : Disk.EventsBetween before after events) {s : Server} (hrunning : s.phase = .running)
    (hclosed : s.workspace.documents = []) (hwanted : s.workspace.settings.indexWorkspace = true)
    (hsettings : s.workspace.settings.IsConfigured)
    (hfolders : HasPlainFolders s.workspace.folders)
    (hbuilt : ∀ uri, s.workspace.script? uri =
      (s.emptied.handle before .initialized).server.workspace.script? uri) (uri : Uri) :
    (s.handle after (.didChangeFiles events)).server.workspace.script? uri =
        (s.emptied.handle after .initialized).server.workspace.script? uri ↔
      ¬ ((∃ e ∈ events, e.uri = uri) ∧ s.workspace.isIndexable uri = true ∧
        ∃ text, after.source uri = .ok text ∧
          s.workspace.settings.maxFileSize < byteSize text.toList) := by
  have hhandle : (s.handle after (.didChangeFiles events)).server.workspace =
      s.workspace.followEvents after events := by
    simp [handle, hrunning, handleRunning]
  have hstart : ∀ uri, s.workspace.script? uri =
      scanned before s.workspace.settings s.workspace.folders uri := by
    intro uri
    rw [hbuilt, script?_initialized_emptied hrunning hclosed hwanted]
  rw [hhandle, script?_initialized_emptied hrunning hclosed hwanted]
  by_cases hfile : ∃ names, (∀ name ∈ names, IsFileName name) ∧ uri = Uri.ofNames names
  · rcases hfile with ⟨names, hnames, rfl⟩
    have hevent : (∃ e ∈ events, e.uri = Uri.ofNames names) ↔
        before.contents? names ≠ after.contents? names := by
      constructor
      · rintro ⟨e, he, huri⟩
        exact ((hevents.mem_iff hbefore hafter hnames huri).1 he).1
      · intro hdiffer
        exact ⟨⟨_, _⟩, (hevents.mem_iff hbefore hafter hnames rfl).2 ⟨hdiffer, rfl⟩, rfl⟩
    rw [script?_followEvents_between hbefore hafter hregular hregular' hevents hclosed hsettings
      hfolders hstart hnames, hevent]
    by_cases hread : before.contents? names ≠ after.contents? names ∧
        s.workspace.isIndexable (Uri.ofNames names) = true
    · rw [if_pos hread,
        readAnew_eq_scanned_iff hafter hregular' hsettings hfolders hnames hread.2]
      refine not_congr ⟨fun hlarge => ⟨hread.1, hread.2, hlarge⟩, fun hall => hall.2.2⟩
    · rw [if_neg hread]
      refine iff_of_true rfl ?_
      rintro ⟨hdiffer, hindexable, -⟩
      exact hread ⟨hdiffer, hindexable⟩
  · have huri : ∀ names, (∀ name ∈ names, IsFileName name) → uri ≠ Uri.ofNames names := by
      intro names hnames heq
      exact hfile ⟨names, hnames, heq⟩
    have hno := hevents.uri_ne hbefore hafter huri
    rw [script?_followEvents_of_unconcerned after fun e he heq => absurd heq (hno e he), hstart,
      scanned_eq_none hbefore hregular hsettings hfolders huri,
      scanned_eq_none hafter hregular' hsettings hfolders huri]
    refine iff_of_true rfl ?_
    rintro ⟨⟨e, he, heq⟩, -⟩
    exact hno e he heq

/-- A file that shrinks below the limit, one that is created and one that is deleted are followed as a
scan would; one that grows above the limit is not. -/
theorem followed_changes_match_rebuild_of_mixed_changes :
    let name (text : String) := Text.encode text.toList
    let before : Disk :=
      ((Disk.write {} [name "ws", name "less.ahk"] (.file (name "more := 1234567890\n"))).write
        [name "ws", name "more.ahk"] (.file (name "x := 1\n"))).write
        [name "ws", name "gone.ahk"] (.file (name "y := 1\n"))
    let after : Disk :=
      ((Disk.write {} [name "ws", name "less.ahk"] (.file (name "less := 1\n"))).write
        [name "ws", name "more.ahk"] (.file (name "x := 1234567890\n"))).write
        [name "ws", name "lib", name "new.ahk"] (.file (name "z := 1\n"))
    let settings : Settings := { maxFileSize := 10 }
    let s := ((started [⟨"file:///ws"⟩] (some settings)).handle before .initialized).server
    let followed := (s.handle after (.didChangeFiles (before.changes after))).server.workspace.script?
    let rebuilt := (s.emptied.handle after .initialized).server.workspace.script?
    (before.changes after).length = 4 ∧
      followed ⟨"file:///ws/less.ahk"⟩ = rebuilt ⟨"file:///ws/less.ahk"⟩ ∧
      followed ⟨"file:///ws/gone.ahk"⟩ = rebuilt ⟨"file:///ws/gone.ahk"⟩ ∧
      followed ⟨"file:///ws/lib/new.ahk"⟩ = rebuilt ⟨"file:///ws/lib/new.ahk"⟩ ∧
      followed ⟨"file:///ws/more.ahk"⟩ ≠ rebuilt ⟨"file:///ws/more.ahk"⟩ := by
  intro name before after settings s followed rebuilt
  have hsettings : settings.IsConfigured :=
    Or.inr ⟨.object [("hotscope", .object [("maxFileSizeBytes", .number "10")])], by decide +kernel⟩
  have hfolders : HasPlainFolders s.workspace.folders := by
    intro folder hfolder root hroot
    rw [List.mem_singleton.1 hfolder] at hroot
    cases hroot
    decide +kernel
  have hbuilt : ∀ uri, s.workspace.script? uri =
      (s.emptied.handle before .initialized).server.workspace.script? uri := by
    intro uri
    rw [script?_initialized_emptied rfl rfl rfl]
    exact script?_initialized_emptied (s := started [⟨"file:///ws"⟩] (some settings)) rfl rfl rfl
      before uri
  have hagree := followed_changes_match_rebuild_iff (by decide +kernel) (by decide +kernel)
    (by decide +kernel) (by decide +kernel) (before.eventsBetween_changes after) (s := s)
    rfl rfl rfl hsettings hfolders hbuilt
  have hfits : ∀ uri, (after.source uri).toOption.all (byteSize ·.toList ≤ 10) = true →
      followed uri = rebuilt uri := by
    intro uri hsmall
    refine (hagree uri).2 ?_
    rintro ⟨-, -, text, hsource, hlarge⟩
    have hsize : byteSize text.toList ≤ 10 := by
      simpa [hsource, Except.toOption] using hsmall
    exact absurd hlarge (Nat.not_lt.2 hsize)
  refine ⟨by decide +kernel, hfits _ (by decide +kernel), hfits _ (by decide +kernel),
    hfits _ (by decide +kernel), ?_⟩
  intro heq
  have hevent : (before.changes after).any (·.uri = ⟨"file:///ws/more.ahk"⟩) = true := by
    decide +kernel
  refine (hagree _).1 heq ⟨by simpa using hevent, by decide +kernel, "x := 1234567890\n", ?_, ?_⟩
  · decide +kernel
  · decide +kernel

/-- A file of the workspace grows above the limit. The event about it has its new text indexed, though
a scan leaves the file out. -/
theorem grown_file_stays_indexed :
    let name (text : String) := Text.encode text.toList
    let uri : Uri := ⟨"file:///ws/a.ahk"⟩
    let before : Disk :=
      Disk.write {} [name "ws", name "a.ahk"] (.file (name "f() \x7b\n\x7d\n"))
    let after : Disk :=
      before.write [name "ws", name "a.ahk"] (.file (name "longer() \x7b\n\x7d\nlast() \x7b\n\x7d\n"))
    let s := ((started [⟨"file:///ws"⟩] (some { maxFileSize := 16 })).handle before
      .initialized).server
    before.changes after = [{ uri, deleted := false }] ∧
      (s.handle after (.didChangeFiles [{ uri, deleted := false }])).server.workspace.script? uri =
        some (Script.ofText uri "longer() \x7b\n\x7d\nlast() \x7b\n\x7d\n") ∧
      (s.emptied.handle after .initialized).server.workspace.script? uri = none := by
  decide +kernel

end Server
end ScriptSymbols
