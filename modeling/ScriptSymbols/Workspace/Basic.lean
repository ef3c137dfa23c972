import ScriptSymbols.Buffer
import ScriptSymbols.Disk
import ScriptSymbols.Settings
import ScriptSymbols.SymbolIndex

/-!
# The workspace

The state of a session: open buffers, workspace folders, settings and the symbol index. The text of an
open buffer counts for its URI, whatever the disk holds.

- `Workspace.openDocument`, `Workspace.changeDocument` and `Workspace.closeDocument` follow the editor.
- `Workspace.isIndexable` says whether a file belongs to the workspace.
- `Workspace.files` finds the files of the workspace on disk.
-/

namespace ScriptSymbols

open Text

/-- The state of a session, with one buffer at most for each URI. -/
structure Workspace where
  documents : List (Uri × Buffer) := []
  folders : List Uri := []
  settings : Settings := {}
  index : SymbolIndex := {}
  unique : (documents.map Prod.fst).Nodup := by
    first | exact List.nodup_nil | exact List.pairwise_singleton _ _

/-- The texts of files on disk. -/
def Disk.source (disk : Disk) : TextSource := fun uri =>
  match uri.path? with
  | none => .error (.notLocal uri)
  | some path =>
    match disk.read path with
    | .error cause => .error (.unreadable uri cause)
    | .ok bytes => .ok (decodeFile bytes)

namespace Workspace

/-! ## Documents -/

/-- The open buffer of a URI. -/
def document? (w : Workspace) (uri : Uri) : Option Buffer :=
  w.documents.lookup uri

/-- Whether a URI has an open buffer. -/
def isOpen (w : Workspace) (uri : Uri) : Bool :=
  (w.document? uri).isSome

/-- The indexed script of a URI. -/
def script? (w : Workspace) (uri : Uri) : Option Script :=
  w.index.get? uri

/-- Keeps a buffer for a URI, in place of one that was open. -/
def putDocument (w : Workspace) (uri : Uri) (b : Buffer) : Workspace :=
  { w with
    documents := Entries.put uri b w.documents
    unique := Entries.nodup_put uri b w.unique }

/-- Stores the outline of an open buffer. -/
def indexBuffer (ix : SymbolIndex) (document : Uri × Buffer) : SymbolIndex :=
  ix.store document.1 (Script.ofText document.1 document.2.text)

/-- Stores the outlines of all open buffers. -/
def reindexOpen (w : Workspace) : Workspace :=
  { w with index := w.documents.foldl indexBuffer w.index }

/-- Opens a buffer, in place of one that was open, and indexes it. -/
def openDocument (w : Workspace) (uri : Uri) (text : String) (version : Option Int) : Workspace :=
  let b := Buffer.ofText text version
  { w.putDocument uri b with index := indexBuffer w.index (uri, b) }

/-- Applies changes to an open buffer and then indexes it once. If a change fails, those before it
stay, but neither the version nor the index follows. A buffer that is not open is left alone. -/
def changeDocument (w : Workspace) (uri : Uri) (changes : List Change) (version : Option Int) :
    Workspace × Except ChangeError Unit :=
  match w.document? uri with
  | none => (w, .ok ())
  | some b =>
    match b.applyAll changes with
    | (b, .error e) => (w.putDocument uri b, .error e)
    | (b, .ok ()) =>
      let b := { b with version }
      ({ w.putDocument uri b with index := indexBuffer w.index (uri, b) }, .ok ())

/-- Forgets the buffer of a URI. The index keeps its entry until something else replaces it. -/
def closeDocument (w : Workspace) (uri : Uri) : Workspace :=
  { w with
    documents := w.documents.filter (·.1 != uri)
    unique := Entries.nodup_filter uri w.unique }

/-! ## Files -/

/-- Whether the workspace has a place for a file: it has a script extension, lies in a folder, and the
patterns keep its path relative to that folder. -/
def isIndexable (w : Workspace) (uri : Uri) : Bool :=
  match uri.path? with
  | none => false
  | some path =>
    Walk.hasExtension w.settings.extensions path &&
      match PathFilter.compile w.settings.includes w.settings.excludes with
      | .error _ => false
      | .ok filter =>
        ((w.folders.filterMap Uri.path?).filterMap fun root => root.relativeTo? path).any
          filter.accepts

/-- The script files in one folder; a folder that cannot be walked has none. -/
def filesIn (disk : Disk) (settings : Settings) (folder : Uri) : List Path :=
  match folder.path? with
  | none => []
  | some root =>
    let extensions := Walk.normalizeExtensions settings.extensions
    match Walk.collect disk.listing extensions root settings.includes settings.excludes with
    | .error _ => []
    | .ok found => found

/-- The script files in all folders, folder by folder. -/
def files (disk : Disk) (settings : Settings) (folders : List Uri) : List Path :=
  folders.flatMap (filesIn disk settings)

/-- Reads the script of a URI anew, or removes it if there is no file or it cannot be read. -/
def refresh (disk : Disk) (ix : SymbolIndex) (uri : Uri) : SymbolIndex :=
  match uri.path? with
  | none => ix.remove uri
  | some path =>
    if disk.isPresent path then
      let lookup := ix.fetch (some disk.source) uri false
      match lookup.result with
      | .ok _ => lookup.index
      | .error _ => lookup.index.remove uri
    else ix.remove uri

end Workspace
end ScriptSymbols
