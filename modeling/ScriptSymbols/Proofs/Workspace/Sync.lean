import ScriptSymbols.Proofs.Index.Store
import ScriptSymbols.Proofs.Outline.Extent
import ScriptSymbols.Server.Basic

/-!
# Buffers and the index in step

Whatever a client tells the server, the index holds the outline of every open buffer, and nothing
but outlines of texts under their own URIs. The index is written by several routes: from a buffer,
from the disk, by indexing all files, and by clearing it. Each of them restores the invariant.

1. `Workspace.Synced` is the invariant.
2. One lemma for each change of a workspace says that it keeps it.
3. `Server.run` follows notifications one after another, each over its own disk, and
   `Server.editsInOrder` excludes edits that end before they start.
-/

namespace ScriptSymbols

/-! ## Changes that can be applied -/

namespace Buffer

/-- Whether a change asks for a range whose end lies before its start. -/
def isReversed (b : Buffer) (change : Change) : Bool :=
  match change.range with
  | none => false
  | some range =>
    match indexOf? b.lines range.start, indexOf? b.lines range.stop with
    | some i, some j => j < i
    | _, _ => false

/-- Whether no change of a list is reversed where it is applied, behind those before it. -/
def inOrder (b : Buffer) : List Change → Bool
  | [] => true
  | change :: changes =>
    !b.isReversed change && (b.apply change).toOption.all fun b => b.inOrder changes

theorem apply_of_not_isReversed {b : Buffer} {change : Change}
    (h : b.isReversed change = false) : ∃ b', b.apply change = .ok b' := by
  cases hrange : change.range with
  | none => exact ⟨b.withContents change.text.toList, by simp [apply, hrange]⟩
  | some range =>
      simp only [isReversed, hrange] at h
      simp only [apply, hrange]
      cases hstart : indexOf? b.lines range.start with
      | none => exact ⟨b, rfl⟩
      | some i =>
          cases hstop : indexOf? b.lines range.stop with
          | none => exact ⟨b, rfl⟩
          | some j =>
              have hle : ¬ j < i := by
                simpa [hstart, hstop] using h
              simp [hle]

theorem applyAll_of_inOrder {b : Buffer} {changes : List Change}
    (h : b.inOrder changes = true) : (b.applyAll changes).2 = .ok () := by
  induction changes generalizing b with
  | nil => rfl
  | cons change changes ih =>
      rw [inOrder, Bool.and_eq_true, Bool.not_eq_true'] at h
      rcases apply_of_not_isReversed h.1 with ⟨b', hb'⟩
      have hrest : b'.inOrder changes = true := by
        simpa [hb', Except.toOption] using h.2
      simp only [applyAll, hb']
      exact ih hrest

end Buffer

namespace Workspace

/-! ## The invariant -/

/-- A workspace whose index follows its buffers: the outline of each buffer is in the index, and all that
is in the index is an outline under its own URI. -/
structure Synced (w : Workspace) : Prop where
  indexed : ∀ d ∈ w.documents, w.index.get? d.1 = some (Script.ofText d.1 d.2.text)
  genuine : w.index.Genuine

theorem Synced.script?_of_document? {w : Workspace} (h : w.Synced) {uri : Uri} {b : Buffer}
    (hopen : w.document? uri = some b) : w.script? uri = some (Script.ofText uri b.text) :=
  h.indexed (uri, b) (Entries.mem_of_lookup hopen)

/-! ## One buffer -/

/-- Putting a buffer in and indexing it, as opening and changing a document do. -/
theorem Synced.putBuffer {w : Workspace} (h : w.Synced) (uri : Uri) (b : Buffer) :
    Synced { w.putDocument uri b with index := indexBuffer w.index (uri, b) } := by
  refine ⟨?_, h.genuine.store uri b.text⟩
  intro d hd
  simp only [indexBuffer, SymbolIndex.get?_store]
  by_cases huri : d.1 = uri
  · -- The new buffer is the only one under its URI.
    have hlookup := Entries.lookup_of_mem (w.putDocument uri b).unique hd
    rw [putDocument, Entries.lookup_put, if_pos huri] at hlookup
    rw [if_pos huri, huri, ← Option.some.inj hlookup]
  · rw [if_neg huri]
    rcases Entries.eq_or_mem_of_mem_put hd with rfl | hold
    · exact absurd rfl huri
    · exact h.indexed d hold

theorem Synced.openDocument {w : Workspace} (h : w.Synced) (uri : Uri) (text : String)
    (version : Option Int) : (w.openDocument uri text version).Synced :=
  h.putBuffer uri (Buffer.ofText text version)

/-- A batch of changes that can be applied leaves buffer and index in step. -/
theorem Synced.changeDocument {w : Workspace} (h : w.Synced) {uri : Uri} {changes : List Change}
    (version : Option Int) (horder : (w.document? uri).all (·.inOrder changes) = true) :
    (w.changeDocument uri changes version).1.Synced := by
  unfold Workspace.changeDocument
  cases hopen : w.document? uri with
  | none => exact h
  | some b =>
      have hok : (b.applyAll changes).2 = .ok () := by
        refine Buffer.applyAll_of_inOrder ?_
        simpa [hopen] using horder
      rcases hresult : b.applyAll changes with ⟨b', outcome⟩
      rw [hresult] at hok
      cases hok
      simp only [hresult]
      exact h.putBuffer uri { b' with version }

/-- Closing a document drops its buffer and touches no entry but its own. -/
theorem Synced.closeAndRefresh {w : Workspace} (h : w.Synced) (disk : Disk) (uri : Uri) :
    (w.closeAndRefresh disk uri).Synced := by
  refine ⟨?_, genuine_refresh disk h.genuine uri⟩
  intro d hd
  rcases List.mem_filter.1 hd with ⟨hold, hkept⟩
  have hne : d.1 ≠ uri := by
    simpa using hkept
  exact (get?_refresh_of_ne disk w.index hne).trans (h.indexed d hold)

/-! ## Files that change on disk -/

theorem followEvent_of_ne (disk : Disk) (ix : SymbolIndex) {e : FileEvent} {uri : Uri}
    (h : uri ≠ e.uri) : (followEvent disk ix e).get? uri = ix.get? uri := by
  unfold followEvent
  split
  · simp [SymbolIndex.get?_remove, h]
  · exact get?_refresh_of_ne disk ix h

theorem genuine_followEvent (disk : Disk) {ix : SymbolIndex} (h : ix.Genuine) (e : FileEvent) :
    (followEvent disk ix e).Genuine := by
  unfold followEvent
  split
  · exact h.remove e.uri
  · exact genuine_refresh disk h e.uri

theorem foldl_followEvent_of_forall_ne (disk : Disk) (ix : SymbolIndex) {events : List FileEvent}
    {uri : Uri} (h : ∀ e ∈ events, uri ≠ e.uri) :
    (events.foldl (followEvent disk) ix).get? uri = ix.get? uri := by
  refine List.foldlRecOn (motive := fun ix' : SymbolIndex => ix'.get? uri = ix.get? uri)
    events _ rfl ?_
  intro ix' hix' e he
  exact (followEvent_of_ne disk ix' (h e he)).trans hix'

theorem genuine_foldl_followEvent (disk : Disk) {ix : SymbolIndex} (h : ix.Genuine)
    (events : List FileEvent) : (events.foldl (followEvent disk) ix).Genuine := by
  refine List.foldlRecOn events _ h ?_
  intro ix' h' e _he
  exact genuine_followEvent disk h' e

/-- Events about open documents are dropped before any of them is followed. -/
theorem Synced.followEvents {w : Workspace} (h : w.Synced) (disk : Disk)
    (events : List FileEvent) : (w.followEvents disk events).Synced := by
  refine ⟨?_, genuine_foldl_followEvent disk h.genuine _⟩
  intro d hd
  have hopen : w.isOpen d.1 = true := by
    simp [isOpen, document?, Entries.lookup_of_mem w.unique hd]
  -- What is left of the events concerns other URIs, and each of them writes its own entry only.
  have hne : ∀ e ∈ events.filter w.concerns, d.1 ≠ e.uri := by
    intro e he heq
    have hconcerns := (List.mem_filter.1 he).2
    rw [concerns, ← heq, hopen] at hconcerns
    simp at hconcerns
  exact (foldl_followEvent_of_forall_ne disk w.index hne).trans (h.indexed d hd)

/-! ## Indexing everything again -/

theorem foldl_indexBuffer_of_not_mem (ix : SymbolIndex) {ds : List (Uri × Buffer)} {uri : Uri}
    (h : uri ∉ ds.map Prod.fst) : (ds.foldl indexBuffer ix).get? uri = ix.get? uri := by
  refine List.foldlRecOn (motive := fun ix' : SymbolIndex => ix'.get? uri = ix.get? uri) ds _ rfl ?_
  intro ix' hix' d hd
  have hne : uri ≠ d.1 := by
    intro huri
    exact h (List.mem_map.2 ⟨d, hd, huri.symm⟩)
  rw [indexBuffer, SymbolIndex.get?_store, if_neg hne]
  exact hix'

theorem foldl_indexBuffer_of_mem (ix : SymbolIndex) {ds : List (Uri × Buffer)}
    (hunique : (ds.map Prod.fst).Nodup) {d : Uri × Buffer} (hd : d ∈ ds) :
    (ds.foldl indexBuffer ix).get? d.1 = some (Script.ofText d.1 d.2.text) := by
  induction ds generalizing ix with
  | nil => cases hd
  | cons d' ds ih =>
      rw [List.map_cons, List.nodup_cons] at hunique
      rw [List.foldl_cons]
      rcases List.mem_cons.1 hd with rfl | hrest
      · -- No later buffer has this URI, so none overwrites the entry.
        rw [foldl_indexBuffer_of_not_mem _ hunique.1]
        simp [indexBuffer, SymbolIndex.get?_store]
      · exact ih _ hunique.2 hrest

theorem genuine_foldl_indexBuffer {ix : SymbolIndex} (h : ix.Genuine)
    (ds : List (Uri × Buffer)) : (ds.foldl indexBuffer ix).Genuine := by
  refine List.foldlRecOn ds _ h ?_
  intro ix' h' d _hd
  exact h'.store d.1 d.2.text

/-- Indexing the open buffers again brings any index into step, whatever it held for them. -/
theorem synced_reindexOpen {w : Workspace} (hgenuine : w.index.Genuine) : w.reindexOpen.Synced := by
  refine ⟨?_, genuine_foldl_indexBuffer hgenuine w.documents⟩
  intro d hd
  exact foldl_indexBuffer_of_mem w.index w.unique hd

theorem synced_clearIndex (w : Workspace) : w.clearIndex.Synced :=
  synced_reindexOpen (SymbolIndex.Genuine.clear w.index)

/-- Files may overwrite the entries of open buffers, but these are indexed again at once. -/
theorem Synced.indexFiles {w : Workspace} (h : w.Synced) (disk : Disk) {done : Indexing}
    (hdone : w.indexFiles disk = some done) : done.workspace.Synced := by
  unfold Workspace.indexFiles at hdone
  split at hdone
  · cases hdone
    exact synced_reindexOpen (h.genuine.indexPaths _ _ _)
  · cases hdone

theorem Synced.withSettings {w : Workspace} (h : w.Synced) (settings : Settings) :
    Synced { w with settings } :=
  ⟨h.indexed, h.genuine⟩

/-- Whether a notification brings no edit that ends before it starts. -/
def editsInOrder (w : Workspace) : Notification → Bool
  | .didChange uri changes _ => (w.document? uri).all (·.inOrder changes)
  | _ => true

end Workspace

namespace Server

/-! ## Notifications -/

theorem index_synced {s : Server} (h : s.workspace.Synced) (disk : Disk) :
    (s.index disk).server.workspace.Synced := by
  unfold index
  cases hdone : s.workspace.indexFiles disk with
  | none => exact h
  | some done => exact h.indexFiles disk hdone

theorem changeSettings_synced {s : Server} (h : s.workspace.Synced) (disk : Disk)
    (settings : Settings) : (s.changeSettings disk settings).server.workspace.Synced := by
  unfold changeSettings
  split
  · exact h.withSettings settings
  · refine index_synced ?_ disk
    exact Workspace.synced_clearIndex _

theorem handle_synced {s : Server} (h : s.workspace.Synced) (disk : Disk) {n : Notification}
    (horder : s.workspace.editsInOrder n = true) :
    (s.handle disk n).server.workspace.Synced := by
  unfold handle
  split
  · cases n with
    | initialized => exact index_synced h disk
    | didOpen uri text version => exact h.openDocument uri text version
    | didChange uri changes version => exact h.changeDocument version horder
    | didClose uri => exact h.closeAndRefresh disk uri
    | didChangeSettings settings =>
        cases settings with
        | none => exact h
        | some settings => exact changeSettings_synced h disk settings
    | didChangeFiles events => exact h.followEvents disk events
  · exact h

/-! ## Sessions -/

/-- The server after notifications that it follows one after another, each with the disk as it is
then. -/
def run (s : Server) (events : List (Disk × Notification)) : Server :=
  events.foldl (fun s e => (s.handle e.1 e.2).server) s

/-- Whether no notification of a session brings an edit that ends before it starts. -/
def editsInOrder (s : Server) : List (Disk × Notification) → Bool
  | [] => true
  | e :: events =>
    s.workspace.editsInOrder e.2 && (s.handle e.1 e.2).server.editsInOrder events

theorem run_synced {s : Server} (h : s.workspace.Synced) {events : List (Disk × Notification)}
    (horder : s.editsInOrder events = true) : (s.run events).workspace.Synced := by
  induction events generalizing s with
  | nil => exact h
  | cons e events ih =>
      rw [editsInOrder, Bool.and_eq_true] at horder
      exact ih (handle_synced h e.1 horder.1) horder.2

/-- The server that a client has just started. -/
def started (folders : List Uri) (settings : Option Settings) : Server :=
  (answer {} (.start folders settings)).1

theorem started_synced (folders : List Uri) (settings : Option Settings) :
    (started folders settings).workspace.Synced := by
  refine ⟨?_, SymbolIndex.genuine_empty⟩
  intro d hd
  exact absurd hd List.not_mem_nil

/-- In every session the index holds the outline of every open buffer, whatever the disks held and
in whatever order documents, files and settings changed. Every entry of the index is the outline of
a text under its own URI, which is the URI of all its methods too. -/
theorem open_buffers_are_indexed (folders : List Uri) (settings : Option Settings)
    (events : List (Disk × Notification))
    (horder : (started folders settings).editsInOrder events = true) :
    let w := ((started folders settings).run events).workspace
    (∀ uri b, w.document? uri = some b → w.script? uri = some (Script.ofText uri b.text)) ∧
      ∀ e ∈ w.index.entries,
        (∃ text, e.2 = Script.ofText e.1 text) ∧ e.2.uri = e.1 ∧
          ∀ m ∈ e.2.methods, m.uri = e.1 := by
  intro w
  have hsynced : w.Synced := run_synced (started_synced folders settings) horder
  refine ⟨?_, ?_⟩
  · intro uri b hopen
    exact hsynced.script?_of_document? hopen
  · intro e he
    rcases hsynced.genuine e he with ⟨text, htext⟩
    refine ⟨⟨text, htext⟩, ?_, ?_⟩
    · rw [htext]
      rfl
    · intro m hm
      rw [htext] at hm
      exact Script.uri_of_mem_methods hm


/-- A buffer wins over the copy of its file on disk, also when new settings have the workspace
indexed again and when the file is said to be gone. -/
theorem open_buffers_are_indexed_over_stale_file :
    let uri : Uri := ⟨"file:///ws/main.ahk"⟩
    let disk : Disk :=
      Disk.write {} (["ws", "main.ahk"].map fun name => Text.encode name.toList)
        (.file (Text.encode "stale() \x7b\n\x7d\n".toList))
    let edit : Change := { range := some ⟨⟨0, 0⟩, ⟨0, 1⟩⟩, text := "g" }
    let events : List (Disk × Notification) :=
      [(disk, .didOpen uri "f() \x7b\n\x7d\n" (some 1)),
       (disk, .didChangeSettings (some { maxFileSize := 64 })),
       (disk, .didChange uri [edit] (some 2)),
       (disk, .didChangeFiles [{ uri, deleted := true }])]
    (started [⟨"file:///ws"⟩] none).editsInOrder events = true ∧
      ((started [⟨"file:///ws"⟩] none).run events).workspace.script? uri =
        some (Script.ofText uri "g() \x7b\n\x7d\n") := by
  intro uri disk edit events
  have horder : (started [⟨"file:///ws"⟩] none).editsInOrder events = true := by decide
  refine ⟨horder, ?_⟩
  have hbuffer :
      (((started [⟨"file:///ws"⟩] none).run events).workspace.document? uri).map Buffer.text =
        some "g() \x7b\n\x7d\n" := by decide
  rcases Option.map_eq_some_iff.1 hbuffer with ⟨b, hopen, htext⟩
  have hscript := (open_buffers_are_indexed [⟨"file:///ws"⟩] none events horder).1 uri b hopen
  rw [htext] at hscript
  exact hscript

end Server
end ScriptSymbols
