import ScriptSymbols.Fault
import ScriptSymbols.Script.Outline
import ScriptSymbols.Text.Units
import ScriptSymbols.Total

/-!
# The symbol index

The index holds one script for each URI, in the order in which the URIs were first stored, and counts
how often it was changed.

- `Entries.put` puts a value in for a URI, in the index and among the open buffers.
- `SymbolIndex.store` puts a script in; a script that replaces another one keeps its place.
- `SymbolIndex.fetch` gets a script from the index or from a source of texts.
- `SymbolIndex.indexPaths` reads and stores many files.
-/

namespace ScriptSymbols

open Text

/-! ## Values under URIs -/

namespace Entries

variable {α : Type}

/-- The pairs with a value put in for a URI, in its place if it has one, else at the end. -/
def put (uri : Uri) (value : α) : List (Uri × α) → List (Uri × α)
  | [] => [(uri, value)]
  | e :: es => if e.1 = uri then (uri, value) :: es else e :: put uri value es

/-- A URI that has a pair keeps its place, and any other goes to the end. -/
theorem keys_put (uri : Uri) (value : α) (es : List (Uri × α)) :
    (put uri value es).map Prod.fst =
      if uri ∈ es.map Prod.fst then es.map Prod.fst else es.map Prod.fst ++ [uri] := by
  induction es with
  | nil => simp [put]
  | cons d es ih =>
      rw [put]
      by_cases hd : d.1 = uri
      · simp [hd]
      · have hne : uri ≠ d.1 := fun h => hd h.symm
        rw [if_neg hd, List.map_cons, ih]
        by_cases hmem : uri ∈ es.map Prod.fst
        · simp [hmem]
        · rw [if_neg hmem, if_neg (by simpa [hne] using hmem)]
          simp

/-- No URI gets a second pair. -/
theorem nodup_put (uri : Uri) (value : α) {es : List (Uri × α)}
    (h : (es.map Prod.fst).Nodup) : ((put uri value es).map Prod.fst).Nodup := by
  rw [keys_put]
  split
  · exact h
  · rename_i hmem
    refine List.nodup_append.2 ⟨h, by simp, ?_⟩
    rintro other hother _ hlast rfl
    exact hmem (List.mem_singleton.1 hlast ▸ hother)

theorem nodup_filter (uri : Uri) {es : List (Uri × α)} (h : (es.map Prod.fst).Nodup) :
    ((es.filter (·.1 != uri)).map Prod.fst).Nodup :=
  h.sublist (List.filter_sublist.map Prod.fst)

end Entries

/-- One script for each URI, and the number of changes. -/
structure SymbolIndex where
  entries : List (Uri × Script) := []
  version : Nat := 0
  unique : (entries.map Prod.fst).Nodup := by
    first | exact List.nodup_nil | exact List.pairwise_singleton _ _

/-- A source of texts: the text of a script, or why there is none. -/
abbrev TextSource := Uri → Except IndexError String

namespace SymbolIndex

/-! ## Reading -/

/-- The script stored for a URI. -/
def get? (ix : SymbolIndex) (uri : Uri) : Option Script :=
  ix.entries.lookup uri

/-- Whether a script is stored for a URI. -/
def contains (ix : SymbolIndex) (uri : Uri) : Bool :=
  (ix.get? uri).isSome

/-- The URIs with a script, in order. -/
def uris (ix : SymbolIndex) : List Uri :=
  ix.entries.map Prod.fst

/-- The number of scripts. -/
def size (ix : SymbolIndex) : Nat :=
  ix.entries.length

/-- The methods of all scripts, script by script. -/
def methods (ix : SymbolIndex) : List Method :=
  ix.entries.flatMap fun e => e.2.methods

/-- The variables of all scripts at file scope, script by script. -/
def globals (ix : SymbolIndex) : List Variable :=
  ix.entries.flatMap fun e => e.2.globals

/-- The methods of a name, up to case. -/
def findMethods (ix : SymbolIndex) (name : String) : List Method :=
  ix.methods.filter fun m => sameName m.name name

/-! ## Changing -/

/-- Stores a script for a URI. -/
def store (ix : SymbolIndex) (uri : Uri) (script : Script) : SymbolIndex :=
  { entries := Entries.put uri script ix.entries
    version := ix.version + 1
    unique := Entries.nodup_put uri script ix.unique }

/-- Removes the script of a URI, if there is one. -/
def remove (ix : SymbolIndex) (uri : Uri) : SymbolIndex :=
  if ix.contains uri then
    { entries := ix.entries.filter (·.1 != uri)
      version := ix.version + 1
      unique := Entries.nodup_filter uri ix.unique }
  else ix

/-- Removes all scripts. -/
def clear (ix : SymbolIndex) : SymbolIndex :=
  { entries := [], version := ix.version + 1 }

/-! ## Texts from a source -/

/-- The outcome of a request for a script: the script or the error, the index afterwards, and the URIs
that the source was asked for. -/
structure Lookup where
  result : Except IndexError Script
  index : SymbolIndex
  fetched : List Uri

/-- The script of a URI. It is taken from the index if it is there and `usingCache` is set; else its
text is fetched, outlined and stored. -/
def fetch (ix : SymbolIndex) (source : Option TextSource) (uri : Uri) (usingCache : Bool) : Lookup :=
  match if usingCache then ix.get? uri else none with
  | some script => { result := .ok script, index := ix, fetched := [] }
  | none =>
    match source with
    | none => { result := .error (.noTextSource uri), index := ix, fetched := [] }
    | some source =>
      match source uri with
      | .error e => { result := .error e, index := ix, fetched := [uri] }
      | .ok text =>
        let script := Script.ofText uri text
        { result := .ok script, index := ix.store uri script, fetched := [uri] }

/-! ## Many files -/

/-- How many files of a list were indexed, were too large, or could not be read, and how many symbols
the indexed ones hold. -/
structure Summary where
  indexed : Nat := 0
  skipped : Nat := 0
  failed : Nat := 0
  methods : Nat := 0
  globals : Nat := 0
  deriving DecidableEq

/-- What reading a list of files gives: the texts, the URIs asked for, and how many files were too
large or failed. -/
structure Batch where
  texts : List (Uri × String) := []
  fetched : List Uri := []
  skipped : Nat := 0
  failed : Nat := 0

/-- Reads files one after another. A text of more than `limit` bytes is skipped. -/
def readPaths (source : TextSource) (limit : Nat) : List Path → Batch
  | [] => {}
  | path :: paths =>
    let batch := readPaths source limit paths
    match Uri.ofPath? path with
    | none => { batch with failed := batch.failed + 1 }
    | some uri =>
      let batch := { batch with fetched := uri :: batch.fetched }
      match source uri with
      | .error _ => { batch with failed := batch.failed + 1 }
      | .ok text =>
        if limit < byteSize text.toList then { batch with skipped := batch.skipped + 1 }
        else { batch with texts := (uri, text) :: batch.texts }

/-- Stores the outline of each text. -/
def storeTexts (ix : SymbolIndex) (texts : List (Uri × String)) : SymbolIndex :=
  texts.foldl (fun ix (uri, text) => ix.store uri (Script.ofText uri text)) ix

/-- The outcome of indexing many files. -/
structure BulkResult where
  summary : Summary
  index : SymbolIndex
  fetched : List Uri

/-- Reads, outlines and stores files in order. Without a source every file fails. -/
def indexPaths (ix : SymbolIndex) (source : Option TextSource) (paths : List Path) (limit : Nat) :
    BulkResult :=
  match source with
  | none => { summary := { failed := paths.length }, index := ix, fetched := [] }
  | some source =>
    let batch := readPaths source limit paths
    let scripts := batch.texts.map fun (uri, text) => Script.ofText uri text
    { summary :=
        { indexed := batch.texts.length
          skipped := batch.skipped
          failed := batch.failed
          methods := total (·.methods.length) scripts
          globals := total (·.globals.length) scripts }
      index := ix.storeTexts batch.texts
      fetched := batch.fetched }

end SymbolIndex
end ScriptSymbols
