import ScriptSymbols.Proofs.Index.Store

/-!
# Many files and one file at a time

Many files are indexed in three rounds: all of them are read, all texts are outlined, and all scripts are
stored. This comes to the same as fetching one script after another, if files that are not indexed are left
out.

1. `SymbolIndex.fits` says which URIs are fetched then, and `SymbolIndex.fetchEach` fetches them in order.
2. `SymbolIndex.fetchEach_of_texts`: texts that were read before are stored as if each were read when it is
   its turn.
3. `SymbolIndex.covers_readPaths` accounts for every file that is read.
4. `SymbolIndex.filter_entries_storeTexts`: what other URIs have stays, in its order.
5. `SymbolIndex.bulk_equals_one_by_one` puts them together.
-/

namespace ScriptSymbols
namespace SymbolIndex

open Text

/-! ## One file at a time -/

/-- Whether a source has a text for a URI that is not too large. -/
def fits (source : TextSource) (limit : Nat) (uri : Uri) : Bool :=
  match source uri with
  | .ok text => byteSize text.toList ≤ limit
  | .error _ => false

/-- Whether a source has a text for a URI, but one that is too large. -/
def exceeds (source : TextSource) (limit : Nat) (uri : Uri) : Bool :=
  match source uri with
  | .ok text => limit < byteSize text.toList
  | .error _ => false

/-- Fetches the scripts of some URIs, each into the index that the one before it leaves. Gives the last
index and all the results. -/
def fetchEach (source : Option TextSource) (ix : SymbolIndex) :
    List Uri → SymbolIndex × List (Except IndexError Script)
  | [] => (ix, [])
  | uri :: uris =>
    let lookup := ix.fetch source uri false
    let rest := fetchEach source lookup.index uris
    (rest.1, lookup.result :: rest.2)

theorem fetch_of_ok {source : TextSource} {uri : Uri} {text : String} (h : source uri = .ok text)
    (ix : SymbolIndex) :
    ix.fetch (some source) uri false =
      { result := .ok (Script.ofText uri text), index := ix.store uri (Script.ofText uri text),
        fetched := [uri] } := by
  simp [fetch, h]

/-- Texts that were all read before are stored as if each were read when it is its turn. -/
theorem fetchEach_of_texts {source : TextSource} {texts : List (Uri × String)}
    (h : ∀ t ∈ texts, source t.1 = .ok t.2) (ix : SymbolIndex) :
    fetchEach (some source) ix (texts.map Prod.fst) =
      (ix.storeTexts texts, texts.map fun t => .ok (Script.ofText t.1 t.2)) := by
  induction texts generalizing ix with
  | nil => rfl
  | cons t texts ih =>
      have hrest := ih (fun t' ht' => h t' (List.mem_cons_of_mem t ht')) (ix.store t.1 (Script.ofText t.1 t.2))
      rw [List.map_cons, fetchEach]
      simp only [fetch_of_ok (h t List.mem_cons_self), hrest]
      rfl

/-! ## Files that are read -/

/-- Whether a batch is what reading some files should give: the texts that fit, in the order of their files,
and every other file counted as too large or as failed. -/
structure Batch.Covers (batch : Batch) (source : TextSource) (limit : Nat) (paths : List Path) : Prop where
  uris : batch.texts.map Prod.fst = (paths.filterMap Uri.ofPath?).filter (fits source limit)
  texts : ∀ t ∈ batch.texts, source t.1 = .ok t.2
  skipped : batch.skipped = (paths.filterMap Uri.ofPath?).countP (exceeds source limit)
  counted : batch.texts.length + batch.skipped + batch.failed = paths.length

namespace Batch.Covers

variable {batch : Batch} {source : TextSource} {limit : Nat} {path : Path} {paths : List Path} {uri : Uri}
  {text : String}

/-- One more file that has no URI or cannot be read. -/
theorem failed (h : batch.Covers source limit paths) (fetched : List Uri)
    (hnone : ∀ uri ∈ Uri.ofPath? path, ∃ cause, source uri = .error cause) :
    Covers { batch with fetched, failed := batch.failed + 1 } source limit (path :: paths) := by
  have hleft : ∀ uri ∈ Uri.ofPath? path, fits source limit uri = false ∧ exceeds source limit uri = false := by
    intro uri huri
    obtain ⟨cause, hsource⟩ := hnone uri huri
    simp [fits, exceeds, hsource]
  obtain ⟨huris, htexts, hskipped, hcounted⟩ := h
  refine ⟨?_, htexts, ?_, congrArg (· + 1) hcounted⟩
  · cases huri : Uri.ofPath? path with
    | none => simpa [huri] using huris
    | some uri => simpa [huri, hleft uri huri] using huris
  · cases huri : Uri.ofPath? path with
    | none => simpa [huri] using hskipped
    | some uri => simpa [huri, hleft uri huri] using hskipped

/-- One more file whose text is too large. -/
theorem tooLarge (h : batch.Covers source limit paths) (fetched : List Uri) (huri : Uri.ofPath? path = some uri)
    (hsource : source uri = .ok text) (hlimit : limit < byteSize text.toList) :
    Covers { batch with fetched, skipped := batch.skipped + 1 } source limit (path :: paths) := by
  have hfits : fits source limit uri = false := by simpa [fits, hsource] using hlimit
  have hexceeds : exceeds source limit uri = true := by simpa [exceeds, hsource] using hlimit
  obtain ⟨huris, htexts, hskipped, hcounted⟩ := h
  refine ⟨by simpa [huri, hfits] using huris, htexts, by simpa [huri, hexceeds] using hskipped, ?_⟩
  rw [List.length_cons, ← hcounted]
  dsimp only
  omega

/-- One more file whose text is kept. -/
theorem kept (h : batch.Covers source limit paths) (fetched : List Uri) (huri : Uri.ofPath? path = some uri)
    (hsource : source uri = .ok text) (hlimit : byteSize text.toList ≤ limit) :
    Covers { batch with fetched, texts := (uri, text) :: batch.texts } source limit (path :: paths) := by
  have hfits : fits source limit uri = true := by simpa [fits, hsource] using hlimit
  have hexceeds : exceeds source limit uri = false := by simpa [exceeds, hsource] using hlimit
  obtain ⟨huris, htexts, hskipped, hcounted⟩ := h
  refine ⟨by simpa [huri, hfits] using huris, ?_, by simpa [huri, hexceeds] using hskipped, ?_⟩
  · intro t ht
    rcases List.mem_cons.1 ht with rfl | ht
    · exact hsource
    · exact htexts t ht
  · rw [List.length_cons, List.length_cons, ← hcounted]
    dsimp only
    omega

end Batch.Covers

/-- No file is lost where many are read, and none counts twice. -/
theorem covers_readPaths (source : TextSource) (limit : Nat) (paths : List Path) :
    (readPaths source limit paths).Covers source limit paths := by
  induction paths with
  | nil => exact ⟨rfl, by simp [readPaths], rfl, rfl⟩
  | cons path paths ih =>
      rw [readPaths]
      cases huri : Uri.ofPath? path with
      | none => exact ih.failed _ (by simp [huri])
      | some uri =>
          cases hsource : source uri with
          | error cause =>
              have hnone : ∀ other ∈ Uri.ofPath? path, ∃ cause, source other = .error cause := by
                intro other hother
                rw [huri] at hother
                cases hother
                exact ⟨cause, hsource⟩
              simpa only [hsource] using ih.failed _ hnone
          | ok text =>
              simp only [hsource]
              split
              · rename_i hlimit
                exact ih.tooLarge _ huri hsource hlimit
              · rename_i hlimit
                exact ih.kept _ huri hsource (Nat.le_of_not_lt hlimit)

/-! ## Entries of other URIs -/

theorem filter_entries_store {uris : List Uri} {uri : Uri} (h : uri ∈ uris) (ix : SymbolIndex)
    (script : Script) :
    ((ix.store uri script).entries.filter fun e => e.1 ∉ uris) = ix.entries.filter fun e => e.1 ∉ uris := by
  show ((Entries.put uri script ix.entries).filter fun e => e.1 ∉ uris) = _
  generalize ix.entries = es
  induction es with
  | nil => simp [Entries.put, h]
  | cons e es ih =>
      rw [Entries.put]
      split
      · rename_i hkey
        simp [h, hkey]
      · rw [List.filter_cons, List.filter_cons]
        simp only [ih]

theorem filter_entries_storeTexts (ix : SymbolIndex) (texts : List (Uri × String)) :
    ((ix.storeTexts texts).entries.filter fun e => e.1 ∉ texts.map Prod.fst) =
      ix.entries.filter fun e => e.1 ∉ texts.map Prod.fst := by
  -- The induction is on the texts that are stored, while the URIs of all the texts stay left out.
  have hkept : ∀ (ix : SymbolIndex) (part : List (Uri × String)), part ⊆ texts →
      ((ix.storeTexts part).entries.filter fun e => e.1 ∉ texts.map Prod.fst) =
        ix.entries.filter fun e => e.1 ∉ texts.map Prod.fst := by
    intro ix part hpart
    induction part generalizing ix with
    | nil => rfl
    | cons t part ih =>
        obtain ⟨ht, hpart⟩ := List.cons_subset.1 hpart
        exact (ih (ix.store t.1 (Script.ofText t.1 t.2)) hpart).trans
          (filter_entries_store (List.mem_map_of_mem ht) ix _)
  exact hkept ix texts (List.Subset.refl _)

/-! ## Many files -/

/-- Indexing many files accounts for every one of them and comes to the same as fetching one script after
another. Each file counts once, as indexed, too large or failed. The index is the one that fetching anew
leaves, for the files with a URI whose text can be read and is not too large, in the order of the files and
as often as they are listed. All these fetches give a script, and the methods and variables that are counted
are those of these scripts. What other URIs have stays, in its order. Without a source of texts every file
fails, and the index stays. -/
theorem bulk_equals_one_by_one (ix : SymbolIndex) (source : TextSource) (paths : List Path) (limit : Nat) :
    let bulk := ix.indexPaths (some source) paths limit
    let uris := (paths.filterMap Uri.ofPath?).filter (fits source limit)
    let one := fetchEach (some source) ix uris
    bulk.summary.indexed + bulk.summary.skipped + bulk.summary.failed = paths.length ∧
      bulk.summary.indexed = uris.length ∧
      bulk.summary.skipped = (paths.filterMap Uri.ofPath?).countP (exceeds source limit) ∧
      (∃ scripts, one.2 = scripts.map .ok ∧ bulk.summary.methods = total (·.methods.length) scripts ∧
        bulk.summary.globals = total (·.globals.length) scripts) ∧
      bulk.index = one.1 ∧
      ((bulk.index.entries.filter fun e => e.1 ∉ uris) = ix.entries.filter fun e => e.1 ∉ uris) ∧
      ix.indexPaths none paths limit =
        { summary := { failed := paths.length }, index := ix, fetched := [] } := by
  intro bulk uris one
  have hcovers := covers_readPaths source limit paths
  have huris : (readPaths source limit paths).texts.map Prod.fst = uris := hcovers.uris
  -- One file at a time takes the same texts, each at its turn.
  have hone : one = (bulk.index,
      (readPaths source limit paths).texts.map fun t => .ok (Script.ofText t.1 t.2)) := by
    have hfetched := fetchEach_of_texts hcovers.texts ix
    rw [huris] at hfetched
    exact hfetched
  refine ⟨hcovers.counted, ?_, hcovers.skipped, ?_, ?_, ?_, rfl⟩
  · rw [← huris, List.length_map]
    rfl
  · refine ⟨(readPaths source limit paths).texts.map fun t => Script.ofText t.1 t.2, ?_, rfl, rfl⟩
    rw [hone, List.map_map]
    rfl
  · rw [hone]
  · rw [← huris]
    exact filter_entries_storeTexts ix _

end SymbolIndex
end ScriptSymbols
