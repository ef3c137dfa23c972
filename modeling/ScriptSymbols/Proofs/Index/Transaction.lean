import ScriptSymbols.Proofs.Index.Bulk
import ScriptSymbols.Proofs.Index.History

/-!
# Requests as transactions

A request for a script, or to read its file anew, concerns one URI. It either does all that it should do or
leaves the index as it was, and it never touches what other URIs have.

1. `SymbolIndex.AgreeBut` says that two indexes differ at one URI at most, in the order of their entries too.
2. `SymbolIndex.Takes` and `SymbolIndex.Loses` are the two changes that a request can make, and
   `SymbolIndex.takes_store` and `SymbolIndex.loses_remove` are where they come from.
3. `Disk.text?` is the text of a file at this moment, and `Disk.text?_eq` ties it to the source of texts.
4. `SymbolIndex.of_fetch_ok` and `SymbolIndex.of_fetch_error` say what a request that gives a script, or an
   error, has done.
5. `Workspace.requests_are_transactions` puts them together.
-/

namespace ScriptSymbols

/-! ## Changes at one URI -/

namespace SymbolIndex

/-- Whether two indexes have the same entries but for one URI, in the same order. -/
def AgreeBut (uri : Uri) (a b : SymbolIndex) : Prop :=
  a.entries.filter (·.1 != uri) = b.entries.filter (·.1 != uri)

/-- Whether an index becomes another one by taking a script for a URI. The URI keeps its place, or it goes to
the end. -/
structure Takes (before after : SymbolIndex) (uri : Uri) (script : Script) : Prop where
  get : after.get? uri = some script
  version : after.version = before.version + 1
  others : AgreeBut uri before after
  uris : after.uris = if uri ∈ before.uris then before.uris else before.uris ++ [uri]

/-- Whether an index becomes another one by losing what it has for a URI, if it has anything. -/
structure Loses (before after : SymbolIndex) (uri : Uri) : Prop where
  get : after.get? uri = none
  version : after.version = before.version + if before.contains uri then 1 else 0
  others : AgreeBut uri before after
  same : before.contains uri = false → after = before

/-- What agrees in the entries agrees in the look-up. -/
theorem AgreeBut.get?_eq {uri other : Uri} {a b : SymbolIndex} (h : AgreeBut uri a b) (hne : other ≠ uri) :
    a.get? other = b.get? other := by
  have hlookup : ∀ ix : SymbolIndex, ix.get? other = (ix.entries.filter (·.1 != uri)).lookup other := by
    intro ix
    rw [Entries.lookup_filter_ne, if_neg hne, get?]
  rw [hlookup a, hlookup b, h]

theorem takes_store (ix : SymbolIndex) (uri : Uri) (script : Script) :
    Takes ix (ix.store uri script) uri script where
  get := by rw [get?_store, if_pos rfl]
  version := rfl
  others := by
    have hother : (fun e : Uri × Script => decide (e.1 ∉ [uri])) = (·.1 != uri) := by
      funext e
      rw [Bool.eq_iff_iff]
      simp
    have hkept := filter_entries_store (List.mem_singleton_self uri) ix script
    rw [hother] at hkept
    exact hkept.symm
  uris := uris_store ix uri script

theorem loses_remove (ix : SymbolIndex) (uri : Uri) : Loses ix (ix.remove uri) uri := by
  have hget : (ix.remove uri).get? uri = none := by
    rw [get?_remove, if_pos rfl]
  -- A URI that has no script is not removed, and this does not count as a change.
  unfold remove at hget ⊢
  split at hget
  · rename_i hpresent
    rw [if_pos hpresent]
    refine ⟨hget, by rw [if_pos hpresent], ?_, ?_⟩
    · simp [AgreeBut, List.filter_filter]
    · intro habsent
      rw [habsent] at hpresent
      cases hpresent
  · rename_i habsent
    rw [if_neg habsent]
    exact ⟨hget, by rw [if_neg habsent]; rfl, rfl, fun _ => rfl⟩

end SymbolIndex

/-! ## Texts on disk -/

/-- The text that the file of a URI has at this moment, if the file exists and can be read. -/
def Disk.text? (disk : Disk) (uri : Uri) : Option String :=
  match uri.path? with
  | none => none
  | some path =>
    if disk.isPresent path then
      match disk.read path with
      | .ok bytes => some (Text.decodeFile bytes)
      | .error _ => none
    else none

/-- What can be read exists. -/
theorem Disk.isPresent_of_read {disk : Disk} {path : Path} {bytes : List UInt8}
    (h : disk.read path = .ok bytes) : disk.isPresent path = true := by
  unfold Disk.read at h
  unfold Disk.isPresent
  cases hplace : disk.resolve path with
  | error cause =>
      rw [hplace] at h
      cases h
  | ok found => rfl

theorem Disk.text?_eq (disk : Disk) (uri : Uri) : disk.text? uri = (disk.source uri).toOption := by
  unfold Disk.text? Disk.source
  cases uri.path? with
  | none => rfl
  | some path =>
      dsimp only
      cases hread : disk.read path with
      | error cause => split <;> rfl
      | ok bytes =>
          rw [if_pos (Disk.isPresent_of_read hread)]
          rfl

/-! ## Requests for a script -/

namespace SymbolIndex

section Requests

variable {ix : SymbolIndex} {source : Option TextSource} {uri : Uri} {usingCache : Bool}

/-- A request that finds a script in the index asks no source of texts, whatever there is. -/
theorem fetch_of_cached {script : Script} (hcache : usingCache = true) (hget : ix.get? uri = some script)
    (source : Option TextSource) :
    ix.fetch source uri usingCache = { result := .ok script, index := ix, fetched := [] } := by
  simp [fetch, hcache, hget]

/-- A request that may not or cannot use the index is settled by the source of texts. -/
theorem fetch_of_not_cached (h : usingCache = false ∨ ix.get? uri = none) :
    ix.fetch source uri usingCache = ix.fetch source uri false := by
  rcases h with hcache | hget
  · rw [hcache]
  · simp [fetch, hget]

theorem fetch_of_error {texts : TextSource} {e : IndexError} (h : texts uri = .error e) (ix : SymbolIndex) :
    ix.fetch (some texts) uri false = { result := .error e, index := ix, fetched := [uri] } := by
  simp [fetch, h]

theorem cached_or_not (ix : SymbolIndex) (uri : Uri) (usingCache : Bool) :
    (usingCache = true ∧ ∃ script, ix.get? uri = some script) ∨ usingCache = false ∨ ix.get? uri = none := by
  cases usingCache with
  | false => exact Or.inr (Or.inl rfl)
  | true =>
      cases hget : ix.get? uri with
      | none => exact Or.inr (Or.inr rfl)
      | some script => exact Or.inl ⟨rfl, script, rfl⟩

/-- A request that gives a script found it in the index and changed nothing, or it stored the outline of the
text that it asked for. -/
theorem of_fetch_ok {script : Script} (h : (ix.fetch source uri usingCache).result = .ok script) :
    (usingCache = true ∧ ix.get? uri = some script ∧ (ix.fetch source uri usingCache).index = ix ∧
        (ix.fetch source uri usingCache).fetched = [] ∧
        ∀ other, ix.fetch other uri usingCache = ix.fetch source uri usingCache) ∨
      ((usingCache = false ∨ ix.get? uri = none) ∧
        ∃ texts text, source = some texts ∧ texts uri = .ok text ∧ script = Script.ofText uri text ∧
          (ix.fetch source uri usingCache).fetched = [uri] ∧
          Takes ix (ix.fetch source uri usingCache).index uri script) := by
  rcases cached_or_not ix uri usingCache with ⟨hcache, found, hget⟩ | hnot
  · -- The same outcome with any source means that no source was asked.
    have hfetch := fetch_of_cached hcache hget
    rw [hfetch source] at h ⊢
    cases h
    exact Or.inl ⟨hcache, hget, rfl, rfl, hfetch⟩
  · rw [fetch_of_not_cached hnot] at h ⊢
    refine Or.inr ⟨hnot, ?_⟩
    cases source with
    | none => cases h
    | some texts =>
        cases htext : texts uri with
        | error e =>
            rw [fetch_of_error htext] at h
            cases h
        | ok text =>
            rw [fetch_of_ok htext] at h ⊢
            cases h
            exact ⟨texts, text, rfl, htext, rfl, rfl, takes_store ix uri _⟩

/-- A request that gives an error could not use the index, found no text, and changed nothing. -/
theorem of_fetch_error {e : IndexError} (h : (ix.fetch source uri usingCache).result = .error e) :
    (ix.fetch source uri usingCache).index = ix ∧ (usingCache = false ∨ ix.get? uri = none) ∧
      (source = none ∧ e = .noTextSource uri ∨ ∃ texts, source = some texts ∧ texts uri = .error e) := by
  rcases cached_or_not ix uri usingCache with ⟨hcache, found, hget⟩ | hnot
  · rw [fetch_of_cached hcache hget] at h
    cases h
  · rw [fetch_of_not_cached hnot] at h ⊢
    cases source with
    | none =>
        cases h
        exact ⟨rfl, hnot, Or.inl ⟨rfl, rfl⟩⟩
    | some texts =>
        cases htext : texts uri with
        | error cause =>
            rw [fetch_of_error htext] at h ⊢
            cases h
            exact ⟨rfl, hnot, Or.inr ⟨texts, rfl, htext⟩⟩
        | ok text =>
            rw [fetch_of_ok htext] at h
            cases h

end Requests
end SymbolIndex

/-! ## Transactions -/

namespace Workspace

open SymbolIndex

/-- A request for a script, and reading a file anew, are transactions of the index.

A request that fails leaves the entries, their order and the version as they were; it fails only where the
index may not or cannot answer and no text is to be had. A request that succeeds either has its script from the
index, changes nothing and does not ask for a text, or it gives the outline of the text that it asked for and
stores it, which counts as one change and leaves all other entries in their places.

After a file is read anew, its URI has the outline of the text that is in the file at this moment, if the file
exists and can be read, and nothing otherwise. All other entries stay in their places then, too. -/
theorem requests_are_transactions (ix : SymbolIndex) (uri : Uri) :
    (∀ (source : Option TextSource) (usingCache : Bool),
      let lookup := ix.fetch source uri usingCache
      (∀ e, lookup.result = .error e →
        lookup.index = ix ∧ (usingCache = false ∨ ix.get? uri = none) ∧
          (source = none ∧ e = .noTextSource uri ∨ ∃ texts, source = some texts ∧ texts uri = .error e)) ∧
      ∀ script, lookup.result = .ok script →
        (usingCache = true ∧ ix.get? uri = some script ∧ lookup.index = ix ∧ lookup.fetched = [] ∧
            ∀ other, ix.fetch other uri usingCache = lookup) ∨
          ((usingCache = false ∨ ix.get? uri = none) ∧
            ∃ texts text, source = some texts ∧ texts uri = .ok text ∧ script = Script.ofText uri text ∧
              lookup.fetched = [uri] ∧ Takes ix lookup.index uri script)) ∧
      ∀ disk : Disk,
        let after := refresh disk ix uri
        after.get? uri = (disk.text? uri).map (Script.ofText uri) ∧ AgreeBut uri ix after ∧
          (∀ text, disk.text? uri = some text → Takes ix after uri (Script.ofText uri text)) ∧
          (disk.text? uri = none → Loses ix after uri) := by
  refine ⟨fun source usingCache => ⟨fun e => of_fetch_error, fun script => of_fetch_ok⟩, ?_⟩
  intro disk after
  have hafter : after = _ := refresh_eq disk ix uri
  rw [Disk.text?_eq]
  cases hsource : disk.source uri with
  | ok text =>
      rw [hsource] at hafter
      have htakes : Takes ix after uri (Script.ofText uri text) := hafter ▸ takes_store ix uri _
      refine ⟨htakes.get, htakes.others, ?_, by rintro ⟨⟩⟩
      rintro _ ⟨⟩
      exact htakes
  | error cause =>
      rw [hsource] at hafter
      have hloses : Loses ix after uri := hafter ▸ loses_remove ix uri
      exact ⟨hloses.get, hloses.others, by rintro _ ⟨⟩, fun _ => hloses⟩

/-- Where a file is gone, a request that has to fetch its text fails and keeps the old script, which a request
that may use the index still gives. Reading the file anew takes the script away, and no other. -/
theorem requests_are_transactions_over_gone_file :
    let a : Uri := ⟨"file:///ws/a.ahk"⟩
    let b : Uri := ⟨"file:///ws/b.ahk"⟩
    let old (uri : Uri) : Script := { uri, methods := [], globals := [] }
    let ix := (SymbolIndex.store {} a (old a)).store b (old b)
    let disk : Disk := {}
    (ix.fetch (some disk.source) a false).result = .error (.unreadable a .notFound) ∧
      (ix.fetch (some disk.source) a false).index = ix ∧
      (ix.fetch none a true).result = .ok (old a) ∧ (ix.fetch none a true).fetched = [] ∧
      disk.text? a = none ∧ (refresh disk ix a).get? a = none ∧ (refresh disk ix a).version = 3 ∧
      (refresh disk ix a).get? b = some (old b) := by
  intro a b old ix disk
  have hsource : disk.source a = .error (.unreadable a .notFound) := by
    decide +kernel
  have hmissing : (ix.fetch (some disk.source) a false).result = .error (.unreadable a .notFound) := by
    simp [fetch, hsource]
  have hcached : (ix.fetch none a true).result = .ok (old a) := by
    rfl
  have htext : disk.text? a = none := by
    decide +kernel
  obtain ⟨hrequest, hrefresh⟩ := requests_are_transactions ix a
  obtain ⟨hget, hothers, -, hloses⟩ := hrefresh disk
  refine ⟨hmissing, ((hrequest _ false).1 _ hmissing).1, hcached, ?_, htext, (hloses htext).get,
    (hloses htext).version, (hothers.get?_eq (by decide)).symm.trans (by rfl)⟩
  rcases (hrequest none true).2 _ hcached with ⟨-, -, -, hfetched, -⟩ | ⟨-, texts, -, hnone, -⟩
  · exact hfetched
  · cases hnone

end Workspace
end ScriptSymbols
