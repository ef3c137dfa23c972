import ScriptSymbols.Proofs.Workspace.Sync

/-!
# The index after new settings

New settings have the index built anew: it is cleared, the open buffers are indexed, the files of
the workspace are indexed, and the open buffers are indexed again over them. What comes out depends on
the buffers, the folders, the settings and the disk only.

* `Workspace.scanned` is what indexing the files of a workspace gives each URI.
* `Workspace.rebuilt` adds the open buffers to that.
* `SymbolIndex.get?_indexPaths` and `Workspace.script?_reindexOpen` give the index after each step.
* `Server.new_settings_rebuild_index` puts the steps together.
-/

namespace ScriptSymbols

open Text

/-! ## Many files -/

namespace SymbolIndex

theorem textOf?_eq_some_iff {source : TextSource} {limit : Nat} {path : Path} {uri : Uri}
    {text : String} :
    textOf? source limit path = some (uri, text) ↔
      Uri.ofPath? path = some uri ∧ source uri = .ok text ∧ byteSize text.toList ≤ limit := by
  cases huri : Uri.ofPath? path with
  | none => simp [textOf?, huri]
  | some first =>
      cases hsource : source first with
      | error e =>
          have hnone : textOf? source limit path = none := by
            simp [textOf?, huri, hsource]
          simp only [hnone, reduceCtorEq, Option.some.injEq, false_iff]
          rintro ⟨rfl, htext, -⟩
          rw [hsource] at htext
          cases htext
      | ok found =>
          have hfound : textOf? source limit path =
              if limit < byteSize found.toList then none else some (first, found) := by
            simp [textOf?, huri, hsource]
          rw [hfound]
          by_cases hlimit : limit < byteSize found.toList
          · simp only [if_pos hlimit, reduceCtorEq, Option.some.injEq, false_iff]
            rintro ⟨rfl, htext, hsize⟩
            rw [hsource] at htext
            cases htext
            exact Nat.not_le_of_lt hlimit hsize
          · simp only [if_neg hlimit, Option.some.injEq, Prod.mk.injEq]
            constructor
            · rintro ⟨rfl, rfl⟩
              exact ⟨rfl, hsource, Nat.le_of_not_lt hlimit⟩
            · rintro ⟨rfl, htext, -⟩
              rw [hsource] at htext
              cases htext
              exact ⟨rfl, rfl⟩

/-- A text is read for a URI if some path has that URI, and if the source gives the text and it is not
too large. The number of paths with that URI does not matter. -/
theorem mem_texts_readPaths {source : TextSource} {limit : Nat} {paths : List Path} {uri : Uri}
    {text : String} :
    (uri, text) ∈ (readPaths source limit paths).texts ↔
      uri ∈ paths.filterMap Uri.ofPath? ∧ source uri = .ok text ∧
        byteSize text.toList ≤ limit := by
  simp only [texts_readPaths, List.mem_filterMap, textOf?_eq_some_iff]
  constructor
  · rintro ⟨path, hpath, huri, hrest⟩
    exact ⟨⟨path, hpath, huri⟩, hrest⟩
  · rintro ⟨⟨path, hpath, huri⟩, hrest⟩
    exact ⟨path, hpath, huri, hrest⟩

theorem get?_storeTexts_of_not_mem (ix : SymbolIndex) {texts : List (Uri × String)} {uri : Uri}
    (h : ∀ text, (uri, text) ∉ texts) : (ix.storeTexts texts).get? uri = ix.get? uri := by
  refine List.foldlRecOn (motive := fun ix' : SymbolIndex => ix'.get? uri = ix.get? uri)
    texts _ rfl ?_
  intro ix' hix' t ht
  have hne : uri ≠ t.1 := by
    intro huri
    exact h t.2 (huri ▸ ht)
  simp only [get?_store, if_neg hne, hix']

/-- Where a list has only one text for a URI, that text counts, however often it is stored. -/
theorem get?_storeTexts_of_mem (ix : SymbolIndex) {texts : List (Uri × String)} {uri : Uri}
    {text : String} (hmem : (uri, text) ∈ texts)
    (hsame : ∀ text', (uri, text') ∈ texts → text' = text) :
    (ix.storeTexts texts).get? uri = some (Script.ofText uri text) := by
  induction texts generalizing ix with
  | nil => cases hmem
  | cons t texts ih =>
      have hstep : ix.storeTexts (t :: texts) =
          (ix.store t.1 (Script.ofText t.1 t.2)).storeTexts texts := rfl
      have hlater : ∀ text', (uri, text') ∈ texts → text' = text := by
        intro text' htext'
        exact hsame text' (List.mem_cons_of_mem t htext')
      rw [hstep]
      by_cases hagain : (uri, text) ∈ texts
      · exact ih _ hagain hlater
      · have hnone : ∀ text', (uri, text') ∉ texts := by
          intro text' htext'
          exact hagain (hlater text' htext' ▸ htext')
        rcases List.mem_cons.1 hmem with rfl | hrest
        · rw [get?_storeTexts_of_not_mem _ hnone, get?_store, if_pos rfl]
        · exact absurd hrest hagain

/-- What indexing many files leaves for a URI: the outline of its text if it is the URI of one of the
files, can be read and is not too large, and else what was there before. -/
theorem get?_indexPaths (ix : SymbolIndex) (source : TextSource) (paths : List Path) (limit : Nat)
    (uri : Uri) :
    (ix.indexPaths (some source) paths limit).index.get? uri =
      if uri ∈ paths.filterMap Uri.ofPath? then
        match source uri with
        | .ok text =>
          if byteSize text.toList ≤ limit then some (Script.ofText uri text) else ix.get? uri
        | .error _ => ix.get? uri
      else ix.get? uri := by
  have habsent : (∀ text, ¬ (uri ∈ paths.filterMap Uri.ofPath? ∧ source uri = .ok text ∧
      byteSize text.toList ≤ limit)) →
        (ix.indexPaths (some source) paths limit).index.get? uri = ix.get? uri := by
    intro h
    refine get?_storeTexts_of_not_mem ix ?_
    intro text htext
    exact h text (mem_texts_readPaths.1 htext)
  by_cases hpath : uri ∈ paths.filterMap Uri.ofPath?
  · rw [if_pos hpath]
    cases hsource : source uri with
    | error e =>
        refine habsent ?_
        rintro text ⟨-, htext, -⟩
        rw [hsource] at htext
        cases htext
    | ok text =>
        by_cases hsize : byteSize text.toList ≤ limit
        · simp only [if_pos hsize]
          refine get?_storeTexts_of_mem ix (mem_texts_readPaths.2 ⟨hpath, hsource, hsize⟩) ?_
          intro text' htext'
          have hsource' := (mem_texts_readPaths.1 htext').2.1
          rw [hsource] at hsource'
          cases hsource'
          rfl
        · simp only [if_neg hsize]
          refine habsent ?_
          rintro text' ⟨-, htext', hsize'⟩
          rw [hsource] at htext'
          cases htext'
          exact hsize hsize'
  · rw [if_neg hpath]
    refine habsent ?_
    rintro text ⟨hpath', -⟩
    exact hpath hpath'

end SymbolIndex

namespace Workspace

/-! ## What a scan of the disk and the open buffers give -/

/-- The outline that indexing the files of a workspace gives a URI: that of the text on disk, if the
URI is that of one of the files, and the text can be read and is not too large. -/
def scanned (disk : Disk) (settings : Settings) (folders : List Uri) (uri : Uri) : Option Script :=
  if uri ∈ (files disk settings folders).filterMap Uri.ofPath? then
    match disk.source uri with
    | .ok text =>
      if byteSize text.toList ≤ settings.maxFileSize then some (Script.ofText uri text) else none
    | .error _ => none
  else none

/-- The outline that an index built from nothing has for a URI: that of its buffer if it is open, else
what a scan of the disk gives it, unless that is switched off. -/
def rebuilt (disk : Disk) (settings : Settings) (folders : List Uri)
    (buffer? : Uri → Option Buffer) (uri : Uri) : Option Script :=
  match buffer? uri with
  | some b => some (Script.ofText uri b.text)
  | none => if settings.indexWorkspace then scanned disk settings folders uri else none

/-! ## The steps of building the index -/

/-- Indexing the open buffers over an index replaces the entries of these and no others. -/
theorem script?_reindexOpen (w : Workspace) (ix : SymbolIndex) (uri : Uri) :
    (reindexOpen { w with index := ix }).script? uri =
      match w.document? uri with
      | some b => some (Script.ofText uri b.text)
      | none => ix.get? uri := by
  cases hopen : w.document? uri with
  | some b => exact foldl_indexBuffer_of_mem ix w.unique (Entries.mem_of_lookup hopen)
  | none =>
      refine foldl_indexBuffer_of_not_mem ix ?_
      intro hmem
      rcases List.mem_map.1 hmem with ⟨d, hd, rfl⟩
      have hlookup : w.document? d.1 = some d.2 := Entries.lookup_of_mem w.unique hd
      rw [hopen] at hlookup
      cases hlookup

/-- Indexing the files of a workspace whose index has nothing but open buffers. -/
theorem script?_indexFiles {w : Workspace}
    (hclosed : ∀ uri, w.document? uri = none → w.script? uri = none) (disk : Disk)
    {done : Indexing} (hdone : w.indexFiles disk = some done) (uri : Uri) :
    done.workspace.script? uri = rebuilt disk w.settings w.folders w.document? uri := by
  unfold indexFiles at hdone
  split at hdone
  · rename_i hwanted
    cases hdone
    refine (script?_reindexOpen w _ uri).trans ?_
    unfold rebuilt
    cases hopen : w.document? uri with
    | some b => rfl
    | none =>
        have hempty : w.index.get? uri = none := hclosed uri hopen
        simp only [SymbolIndex.get?_indexPaths, hempty, hwanted, scanned, if_true]
  · cases hdone

/-- No URI has two buffers, so the order in which they are kept does not matter. -/
theorem document?_eq_of_perm {v w : Workspace} (hperm : v.documents.Perm w.documents) (uri : Uri) :
    v.document? uri = w.document? uri := by
  refine Option.ext ?_
  intro b
  constructor
  · intro hopen
    exact Entries.lookup_of_mem w.unique (hperm.mem_iff.1 (Entries.mem_of_lookup hopen))
  · intro hopen
    exact Entries.lookup_of_mem v.unique (hperm.mem_iff.2 (Entries.mem_of_lookup hopen))

end Workspace

namespace Server

open Workspace

theorem script?_changeSettings {s : Server} (disk : Disk) {settings : Settings}
    (hchanged : s.workspace.settings ≠ settings) (uri : Uri) :
    (s.changeSettings disk settings).server.workspace.script? uri =
      rebuilt disk settings s.workspace.folders s.workspace.document? uri := by
  let w : Workspace := Workspace.clearIndex { s.workspace with settings }
  have hclear : ∀ uri, w.script? uri =
      match s.workspace.document? uri with
      | some b => some (Script.ofText uri b.text)
      | none => none :=
    script?_reindexOpen { s.workspace with settings } s.workspace.index.clear
  unfold changeSettings
  rw [if_neg hchanged]
  unfold index
  cases hdone : w.indexFiles disk with
  | none =>
      -- Only a workspace that is not to be indexed keeps the cleared index.
      have hoff : settings.indexWorkspace = false := by
        cases hwanted : settings.indexWorkspace with
        | false => rfl
        | true => simp [indexFiles, clearIndex, reindexOpen, w, hwanted] at hdone
      refine (hclear uri).trans ?_
      simp [rebuilt, hoff]
  | some done =>
      have hclosed : ∀ uri, w.document? uri = none → w.script? uri = none := by
        intro uri hopen
        have hclosed' : s.workspace.document? uri = none := hopen
        rw [hclear uri, hclosed']
      exact script?_indexFiles (w := w) hclosed disk hdone uri

/-- New settings build the index anew. A URI that is open has the outline of its buffer; any other has
the outline of its text on disk if the workspace is indexed, the URI is that of a file found in it,
and the text can be read and is not too large; else it has none. So neither what the index held
before nor the order of the open buffers matters. -/
theorem new_settings_rebuild_index (disk : Disk) (s : Server) (settings : Settings)
    (hrunning : s.phase = .running) (hchanged : s.workspace.settings ≠ settings) :
    (∀ uri, (s.handle disk (.didChangeSettings (some settings))).server.workspace.script? uri =
        rebuilt disk settings s.workspace.folders s.workspace.document? uri) ∧
      ∀ t : Server, t.phase = .running → t.workspace.settings ≠ settings →
        t.workspace.folders = s.workspace.folders →
        t.workspace.documents.Perm s.workspace.documents →
          ∀ uri, (t.handle disk (.didChangeSettings (some settings))).server.workspace.script? uri =
            (s.handle disk (.didChangeSettings (some settings))).server.workspace.script? uri := by
  have hclosedForm : ∀ {t : Server}, t.phase = .running → t.workspace.settings ≠ settings →
      ∀ uri, (t.handle disk (.didChangeSettings (some settings))).server.workspace.script? uri =
          rebuilt disk settings t.workspace.folders t.workspace.document? uri := by
    intro t hrunning' hchanged' uri
    have hhandle : t.handle disk (.didChangeSettings (some settings)) =
        t.changeSettings disk settings := by
      simp [handle, hrunning', handleRunning]
    rw [hhandle]
    exact script?_changeSettings disk hchanged' uri
  refine ⟨hclosedForm hrunning hchanged, ?_⟩
  intro t hrunning' hchanged' hfolders hperm uri
  have hbuffers : t.workspace.document? = s.workspace.document? :=
    funext (document?_eq_of_perm hperm)
  rw [hclosedForm hrunning' hchanged' uri, hclosedForm hrunning hchanged uri, hfolders, hbuffers]

/-- The open buffer wins over its file, a file that is too large and one that is excluded are left out,
and an entry whose file is gone is dropped. -/
theorem new_settings_rebuild_index_of_mixed_workspace :
    let name (text : String) := Text.encode text.toList
    let main : Uri := ⟨"file:///ws/main.ahk"⟩
    let disk : Disk :=
      (((Disk.write {} [name "ws", name "main.ahk"] (.file (name "saved() \x7b\n\x7d\n"))).write
        [name "ws", name "small.ahk"] (.file (name "x := 1\n"))).write
        [name "ws", name "large.ahk"] (.file (name "y := 1234567890\n"))).write
        [name "ws", name "lib", name "far.ahk"] (.file (name "z := 1\n"))
    let settings : Settings := { excludes := ["lib/*"], maxFileSize := 10 }
    let s : Server :=
      { started [⟨"file:///ws"⟩] none with
        workspace := (((started [⟨"file:///ws"⟩] none).workspace.openDocument
          ⟨"file:///ws/gone.ahk"⟩ "old() \x7b\n\x7d\n" none).closeDocument
          ⟨"file:///ws/gone.ahk"⟩).openDocument main "f() \x7b\n\x7d\n" (some 1) }
    let script? := (s.handle disk (.didChangeSettings (some settings))).server.workspace.script?
    s.workspace.script? ⟨"file:///ws/gone.ahk"⟩ ≠ none ∧
      script? main = some (Script.ofText main "f() \x7b\n\x7d\n") ∧
      script? ⟨"file:///ws/small.ahk"⟩ =
        some (Script.ofText ⟨"file:///ws/small.ahk"⟩ "x := 1\n") ∧
      script? ⟨"file:///ws/large.ahk"⟩ = none ∧ script? ⟨"file:///ws/lib/far.ahk"⟩ = none ∧
      script? ⟨"file:///ws/gone.ahk"⟩ = none := by
  intro name main disk settings s script?
  have hscript : ∀ uri, script? uri =
      rebuilt disk settings s.workspace.folders s.workspace.document? uri :=
    (new_settings_rebuild_index disk s settings rfl (by decide)).1
  simp only [hscript]
  decide +kernel

end Server
end ScriptSymbols
