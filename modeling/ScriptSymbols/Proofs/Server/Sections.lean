import ScriptSymbols.Proofs.Workspace.Sync

/-!
# Handlers in sections

A server follows several notifications at once. Each is followed by a handler, which gives way to the
others wherever it waits: for the lock on the workspace, for an answer of the disk, or for texts to be
outlined. What it does between two such places is a section, which nothing interrupts.

1. `Handler` is what a handler in flight has still to do, by its next section.
2. `Handler.advance` takes that section.
3. `Session.run` interleaves the sections of any number of handlers, over a disk that may be another
   one at each section.
4. `Session.runs_alone` says that a handler that nothing interrupts does what the server does for its
   notification.
-/

namespace ScriptSymbols

open Workspace

/-- A handler in flight, named for its next section, with what it carries there from those before. -/
inductive Handler
  | opening (uri : Uri) (text : String) (version : Option Int)
  | changing (uri : Uri) (changes : List Change) (version : Option Int)
  | closing (uri : Uri)
  | filtering (events : List FileEvent)
  | following (event : FileEvent) (rest : List FileEvent)
  | reading (uri : Uri) (rest : List FileEvent)
  | storing (uri : Uri) (text : String) (rest : List FileEvent)
  | removing (uri : Uri) (rest : List FileEvent)
  | configuring (settings : Settings)
  | clearing
  | scanning
  | listing (settings : Settings) (folders : List Uri) (found : List Path)
  | loading (limit : Nat) (paths : List Path) (texts : List (Uri × String))
  | storingAll (texts : List (Uri × String))
  | reapplying

namespace Handler

/-- The handler of a notification before its first section, if it has anything to do. -/
def ofNotification : Notification → Option Handler
  | .initialized => some .scanning
  | .didOpen uri text version => some (.opening uri text version)
  | .didChange uri changes version => some (.changing uri changes version)
  | .didClose uri => some (.closing uri)
  | .didChangeSettings settings => settings.map .configuring
  | .didChangeFiles events => some (.filtering events)

/-- What is left to do with some events. -/
def followNext : List FileEvent → Option Handler
  | [] => none
  | event :: rest => some (.following event rest)

/-- Takes the next section of a handler: the workspace after it, and what the handler has still to do.
The events of a list are decided on in one section, but each of them is followed in sections of its
own. -/
def advance (disk : Disk) (w : Workspace) : Handler → Workspace × Option Handler
  | .opening uri text version => (w.openDocument uri text version, none)
  | .changing uri changes version => ((w.changeDocument uri changes version).1, none)
  | .closing uri => (w.closeDocument uri, some (.following { uri, deleted := false } []))
  | .filtering events => (w, followNext (events.filter w.concerns))
  -- From here on the workspace is not looked at again: the document may be opened meanwhile.
  | .following event rest =>
    if event.deleted then ({ w with index := w.index.remove event.uri }, followNext rest)
    else if event.uri.path?.any disk.isPresent then (w, some (.reading event.uri rest))
    else (w, some (.removing event.uri rest))
  | .reading uri rest =>
    match disk.source uri with
    | .ok text => (w, some (.storing uri text rest))
    | .error _ => (w, some (.removing uri rest))
  | .storing uri text rest =>
    ({ w with index := w.index.store uri (Script.ofText uri text) }, followNext rest)
  | .removing uri rest => ({ w with index := w.index.remove uri }, followNext rest)
  | .configuring settings =>
    ({ w with settings }, if w.settings = settings then none else some .clearing)
  | .clearing => (w.clearIndex, some .scanning)
  | .scanning =>
    (w, if w.settings.indexWorkspace then some (.listing w.settings w.folders []) else none)
  | .listing settings [] found => (w, some (.loading settings.maxFileSize found []))
  | .listing settings (folder :: folders) found =>
    (w, some (.listing settings folders (found ++ filesIn disk settings folder)))
  | .loading _ [] texts => (w, some (.storingAll texts))
  | .loading limit (path :: paths) texts =>
    (w, some (.loading limit paths
      (texts ++ (SymbolIndex.readPaths disk.source limit [path]).texts)))
  | .storingAll texts => ({ w with index := w.index.storeTexts texts }, some .reapplying)
  | .reapplying => (w.reindexOpen, none)

end Handler

/-! ## Sessions -/

/-- A workspace and the handlers in flight. -/
structure Session where
  workspace : Workspace
  handlers : List Handler := []

/-- What may happen next: a notification comes in, or one of the handlers takes its next section, with
the disk as it is then. -/
inductive Move
  | receive (n : Notification)
  | advance (i : Nat) (disk : Disk)

namespace Session

/-- Puts what a handler has still to do in its place. -/
def replace (handlers : List Handler) (i : Nat) : Option Handler → List Handler
  | some h => handlers.set i h
  | none => handlers.eraseIdx i

/-- The session after a move. There is no move of a handler that is not there. -/
def step (s : Session) : Move → Session
  | .receive n => { s with handlers := s.handlers ++ (Handler.ofNotification n).toList }
  | .advance i disk =>
    match s.handlers[i]? with
    | none => s
    | some h =>
      let next := h.advance disk s.workspace
      { workspace := next.1, handlers := replace s.handlers i next.2 }

/-- The session after moves one after another. -/
def run (s : Session) (moves : List Move) : Session :=
  moves.foldl step s

/-! ## A handler that nothing interrupts -/

/-- The session after `n` moves of its first handler, all over the same disk. -/
def alone (disk : Disk) (n : Nat) (s : Session) : Session :=
  s.run (List.replicate n (.advance 0 disk))

theorem alone_succ (disk : Disk) (n : Nat) (s : Session) :
    alone disk (n + 1) s = alone disk n (s.step (.advance 0 disk)) := rfl

/-- The first handler comes to its end with this workspace, if nothing interrupts it. -/
def Finishes (disk : Disk) (w : Workspace) (handler : Option Handler) (w' : Workspace) : Prop :=
  ∃ n, alone disk n { workspace := w, handlers := handler.toList } = { workspace := w' }

theorem finishes_none (disk : Disk) (w : Workspace) : Finishes disk w none w := ⟨0, rfl⟩

/-- A section may be taken first. -/
theorem Finishes.advance {disk : Disk} {w w' : Workspace} {h : Handler}
    (hrest : Finishes disk (h.advance disk w).1 (h.advance disk w).2 w') :
    Finishes disk w (some h) w' := by
  rcases hrest with ⟨n, hn⟩
  refine ⟨n + 1, ?_⟩
  have hstep : Session.step { workspace := w, handlers := [h] } (.advance 0 disk) =
      { workspace := (h.advance disk w).1, handlers := (h.advance disk w).2.toList } := by
    cases hnext : (h.advance disk w).2 with
    | none => simp [step, replace, hnext]
    | some h' => simp [step, replace, hnext]
  rw [alone_succ]
  change alone disk n (Session.step { workspace := w, handlers := [h] } (.advance 0 disk)) = _
  rw [hstep]
  exact hn

/-- A file that is not there cannot be read. -/
theorem source_of_absent {disk : Disk} {uri : Uri}
    (habsent : ¬ uri.path?.any disk.isPresent = true) : ∃ e, disk.source uri = .error e := by
  unfold Disk.source
  cases hpath : uri.path? with
  | none => exact ⟨_, rfl⟩
  | some path =>
      have hpresent : disk.isPresent path = false := by
        simpa [hpath] using habsent
      cases hplace : disk.resolve path with
      | error cause => exact ⟨.unreadable uri cause, by simp [Disk.read, hplace]⟩
      | ok found => simp [Disk.isPresent, hplace] at hpresent

/-- Following one event and then the others. -/
theorem finishes_following {disk : Disk} {w w' : Workspace} {event : FileEvent}
    {rest : List FileEvent}
    (hrest : Finishes disk { w with index := followEvent disk w.index event }
      (Handler.followNext rest) w') :
    Finishes disk w (some (.following event rest)) w' := by
  refine Finishes.advance ?_
  unfold followEvent at hrest
  by_cases hdeleted : event.deleted = true
  · simpa [Handler.advance, hdeleted] using hrest
  · rw [if_neg hdeleted, refresh_eq] at hrest
    -- A file that is not there and one that cannot be read both end with the entry removed.
    have hremove : (∃ e, disk.source event.uri = .error e) →
        Finishes disk w (some (.removing event.uri rest)) w' := by
      rintro ⟨e, he⟩
      refine Finishes.advance ?_
      simpa [Handler.advance, he] using hrest
    by_cases hpresent : event.uri.path?.any disk.isPresent = true
    · simp only [Handler.advance, hdeleted, hpresent, if_true]
      refine Finishes.advance ?_
      cases hsource : disk.source event.uri with
      | error e =>
          simp only [Handler.advance, hsource]
          exact hremove ⟨e, hsource⟩
      | ok text =>
          simp only [Handler.advance, hsource]
          refine Finishes.advance ?_
          simpa [Handler.advance, hsource] using hrest
    · simp only [Handler.advance, hdeleted, hpresent]
      exact hremove (source_of_absent hpresent)

theorem finishes_followNext (disk : Disk) (w : Workspace) (events : List FileEvent) :
    Finishes disk w (Handler.followNext events)
      { w with index := events.foldl (followEvent disk) w.index } := by
  induction events generalizing w with
  | nil => exact finishes_none disk w
  | cons event rest ih =>
      exact finishes_following (ih { w with index := followEvent disk w.index event })

theorem texts_readPaths_cons (source : TextSource) (limit : Nat) (path : Path)
    (paths : List Path) :
    (SymbolIndex.readPaths source limit (path :: paths)).texts =
      (SymbolIndex.readPaths source limit [path]).texts ++
        (SymbolIndex.readPaths source limit paths).texts := by
  simp only [SymbolIndex.texts_readPaths, ← List.filterMap_append, List.singleton_append]

/-- The files that are still to be read are read one by one, and all of them are stored at once. -/
theorem finishes_loading (disk : Disk) (w : Workspace) (limit : Nat) (paths : List Path)
    (texts : List (Uri × String)) :
    Finishes disk w (some (.loading limit paths texts))
      (reindexOpen { w with
        index := w.index.storeTexts
          (texts ++ (SymbolIndex.readPaths disk.source limit paths).texts) }) := by
  induction paths generalizing texts with
  | nil =>
      -- The texts are stored, and the open buffers are indexed again over them.
      refine Finishes.advance (Finishes.advance (Finishes.advance ?_))
      simpa [Handler.advance, SymbolIndex.readPaths] using finishes_none disk _
  | cons path paths ih =>
      refine Finishes.advance ?_
      have hrest := ih (texts ++ (SymbolIndex.readPaths disk.source limit [path]).texts)
      rw [List.append_assoc, ← texts_readPaths_cons] at hrest
      exact hrest

theorem finishes_listing (disk : Disk) (w : Workspace) (settings : Settings) (folders : List Uri)
    (found : List Path) :
    Finishes disk w (some (.listing settings folders found))
      (reindexOpen { w with
        index := w.index.storeTexts (SymbolIndex.readPaths disk.source settings.maxFileSize
          (found ++ files disk settings folders)).texts }) := by
  induction folders generalizing found with
  | nil =>
      refine Finishes.advance ?_
      simpa [Handler.advance, files] using
        finishes_loading disk w settings.maxFileSize found []
  | cons folder folders ih =>
      refine Finishes.advance ?_
      have hrest := ih (found ++ filesIn disk settings folder)
      rw [List.append_assoc] at hrest
      exact hrest

/-- Indexing the files of a workspace, unless that is switched off. -/
theorem finishes_scanning (disk : Disk) (s : Server) :
    Finishes disk s.workspace (some .scanning) (s.index disk).server.workspace := by
  refine Finishes.advance ?_
  by_cases hwanted : s.workspace.settings.indexWorkspace = true
  · simpa [Handler.advance, hwanted, Server.index, indexFiles, SymbolIndex.indexPaths] using
      finishes_listing disk s.workspace s.workspace.settings s.workspace.folders []
  · simpa [Handler.advance, hwanted, Server.index, indexFiles] using
      finishes_none disk s.workspace

/-- A handler that nothing interrupts does to the workspace what the server does for its notification
at once. -/
theorem runs_alone (disk : Disk) (s : Server) (n : Notification) :
    Finishes disk s.workspace (Handler.ofNotification n)
      (s.handleRunning disk n).server.workspace := by
  cases n with
  | initialized => exact finishes_scanning disk s
  | didOpen uri text version => exact Finishes.advance (finishes_none disk _)
  | didChange uri changes version => exact Finishes.advance (finishes_none disk _)
  | didClose uri =>
      -- Once the buffer is gone, closing goes on as a change of the file would.
      refine Finishes.advance ?_
      exact finishes_followNext disk (s.workspace.closeDocument uri) [{ uri, deleted := false }]
  | didChangeSettings settings =>
      cases settings with
      | none => exact finishes_none disk s.workspace
      | some settings =>
          refine Finishes.advance ?_
          by_cases hsame : s.workspace.settings = settings
          · simpa [Handler.advance, hsame, Server.handleRunning, Server.changeSettings] using
              finishes_none disk _
          · simp only [Handler.advance, if_neg hsame, Server.handleRunning, Server.changeSettings]
            refine Finishes.advance ?_
            exact finishes_scanning disk
              { s with workspace := clearIndex { s.workspace with settings } }
  | didChangeFiles events =>
      refine Finishes.advance ?_
      exact finishes_followNext disk s.workspace (events.filter s.workspace.concerns)

end Session
end ScriptSymbols
