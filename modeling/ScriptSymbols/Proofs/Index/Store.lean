import ScriptSymbols.Workspace.Basic

/-!
# Storing and removing under a URI

The index and the open buffers are kept as lists of pairs, in which the first pair of a URI counts.
Every change is seen through the look-up: it concerns one URI and leaves all others as they are.

* `Entries.lookup_put` says what is found in either list once a value is put in.
* `SymbolIndex.get?_store`, `SymbolIndex.get?_remove` and `SymbolIndex.get?_clear` give the index
  after each change.
* `SymbolIndex.texts_readPaths` says which texts are stored when many files are indexed.
* `SymbolIndex.Genuine` says that every entry is the outline of a text under its own URI.
* `Workspace.refresh_eq` says what reading a file anew does to the index.
-/

namespace ScriptSymbols

/-! ## Lists of pairs -/

namespace Entries

variable {α : Type}

theorem lookup_pair (key other : Uri) (value : α) (es : List (Uri × α)) :
    ((key, value) :: es).lookup other = if other = key then some value else es.lookup other := by
  rw [List.lookup_cons]
  by_cases h : other = key
  · simp [h]
  · have hne : (other == key) = false := by
      simpa using h
    simp [h, hne]

theorem lookup_put (uri other : Uri) (value : α) (es : List (Uri × α)) :
    (put uri value es).lookup other = if other = uri then some value else es.lookup other := by
  induction es with
  | nil => rw [put, lookup_pair]
  | cons e es ih =>
      rcases e with ⟨key, old⟩
      rw [put, lookup_pair]
      by_cases hkey : key = uri
      · rw [if_pos hkey, lookup_pair, hkey]
        split <;> rfl
      · rw [if_neg hkey, lookup_pair, ih]
        by_cases h : other = uri
        · have hne : other ≠ key := fun hother => hkey (hother.symm.trans h)
          rw [if_neg hne, if_pos h, if_pos h]
        · rw [if_neg h, if_neg h]

/-- Putting a value in replaces the pair of its URI at most. -/
theorem eq_or_mem_of_mem_put {uri : Uri} {value : α} {es : List (Uri × α)} {e : Uri × α}
    (h : e ∈ put uri value es) : e = (uri, value) ∨ e ∈ es := by
  induction es with
  | nil => exact Or.inl (by simpa [put] using h)
  | cons d es ih =>
      rw [put] at h
      split at h
      · rcases List.mem_cons.1 h with hhere | hrest
        · exact Or.inl hhere
        · exact Or.inr (List.mem_cons_of_mem d hrest)
      · rcases List.mem_cons.1 h with rfl | hrest
        · exact Or.inr List.mem_cons_self
        · rcases ih hrest with hnew | hold
          · exact Or.inl hnew
          · exact Or.inr (List.mem_cons_of_mem d hold)

theorem lookup_filter_ne (uri other : Uri) (es : List (Uri × α)) :
    (es.filter (·.1 != uri)).lookup other = if other = uri then none else es.lookup other := by
  induction es with
  | nil => simp
  | cons e es ih =>
      rcases e with ⟨key, value⟩
      rw [List.filter_cons, lookup_pair]
      by_cases hkey : key = uri
      · simp only [hkey, bne_self_eq_false, Bool.false_eq_true, if_false, ih]
        by_cases h : other = uri
        · rw [if_pos h, if_pos h]
        · rw [if_neg h, if_neg h, if_neg h]
      · have hkeep : (key != uri) = true := by
          simpa using hkey
        rw [if_pos hkeep, lookup_pair, ih]
        by_cases h : other = uri
        · have hne : other ≠ key := fun hother => hkey (hother.symm.trans h)
          rw [if_neg hne, if_pos h, if_pos h]
        · rw [if_neg h, if_neg h]

/-- Where no key has two pairs, the look-up finds every pair. -/
theorem lookup_of_mem {κ : Type} [BEq κ] [LawfulBEq κ] {es : List (κ × α)}
    (h : (es.map Prod.fst).Nodup) {e : κ × α} (he : e ∈ es) : es.lookup e.1 = some e.2 := by
  induction es with
  | nil => cases he
  | cons d es ih =>
      rw [List.map_cons, List.nodup_cons] at h
      rcases d with ⟨key, value⟩
      rw [List.lookup_cons]
      rcases List.mem_cons.1 he with rfl | hrest
      · simp
      · have hne : (e.1 == key) = false := by
          refine beq_eq_false_iff_ne.2 ?_
          intro hkey
          exact h.1 (List.mem_map.2 ⟨e, hrest, hkey⟩)
        simp only [hne]
        exact ih h.2 hrest

theorem mem_of_lookup {κ : Type} [BEq κ] [LawfulBEq κ] {es : List (κ × α)} {key : κ} {value : α}
    (h : es.lookup key = some value) : (key, value) ∈ es := by
  rcases List.lookup_eq_some_iff.1 h with ⟨l₁, l₂, rfl, _hfront⟩
  simp

end Entries

/-! ## The index -/

namespace SymbolIndex

theorem get?_store (ix : SymbolIndex) (uri other : Uri) (script : Script) :
    (ix.store uri script).get? other = if other = uri then some script else ix.get? other := by
  exact Entries.lookup_put uri other script ix.entries

theorem get?_remove (ix : SymbolIndex) (uri other : Uri) :
    (ix.remove uri).get? other = if other = uri then none else ix.get? other := by
  unfold remove
  by_cases h : ix.contains uri = true
  · rw [if_pos h]
    exact Entries.lookup_filter_ne uri other ix.entries
  · have habsent : ix.get? uri = none := by
      simpa [contains] using h
    rw [if_neg h]
    by_cases hother : other = uri
    · rw [if_pos hother, hother, habsent]
    · rw [if_neg hother]

@[simp]
theorem get?_clear (ix : SymbolIndex) (uri : Uri) : ix.clear.get? uri = none := rfl

/-! ### Many files -/

/-- What is stored of a file when many are indexed: its URI and its text, if there is a URI, the text
can be read and is not too large. -/
def textOf? (source : TextSource) (limit : Nat) (path : Path) : Option (Uri × String) :=
  match Uri.ofPath? path with
  | none => none
  | some uri =>
    match source uri with
    | .error _ => none
    | .ok text => if limit < Text.byteSize text.toList then none else some (uri, text)

theorem texts_readPaths (source : TextSource) (limit : Nat) (paths : List Path) :
    (readPaths source limit paths).texts = paths.filterMap (textOf? source limit) := by
  induction paths with
  | nil => rfl
  | cons path paths ih =>
      cases huri : Uri.ofPath? path with
      | none => simp [readPaths, textOf?, huri, ih]
      | some uri =>
          cases hsource : source uri with
          | error e => simp [readPaths, textOf?, huri, hsource, ih]
          | ok text =>
              by_cases hlimit : limit < Text.byteSize text.toList
              · simp [readPaths, textOf?, huri, hsource, hlimit, ih]
              · simp [readPaths, textOf?, huri, hsource, hlimit, ih]

/-! ### Outlines in the index -/

/-- Whether every script in the index is the outline of a text under the URI that it has there. -/
def Genuine (ix : SymbolIndex) : Prop :=
  ∀ e ∈ ix.entries, ∃ text : String, e.2 = Script.ofText e.1 text

theorem genuine_empty : Genuine {} := by
  intro e he
  cases he

namespace Genuine

variable {ix : SymbolIndex}

theorem store (h : ix.Genuine) (uri : Uri) (text : String) :
    (ix.store uri (Script.ofText uri text)).Genuine := by
  intro e he
  rcases Entries.eq_or_mem_of_mem_put he with rfl | hold
  · exact ⟨text, rfl⟩
  · exact h e hold

theorem remove (h : ix.Genuine) (uri : Uri) : (ix.remove uri).Genuine := by
  intro e he
  unfold SymbolIndex.remove at he
  split at he
  · exact h e (List.mem_filter.1 he).1
  · exact h e he

theorem clear (ix : SymbolIndex) : ix.clear.Genuine := by
  intro e he
  cases he

theorem storeTexts (h : ix.Genuine) (texts : List (Uri × String)) :
    (ix.storeTexts texts).Genuine := by
  refine List.foldlRecOn texts _ h ?_
  intro ix' h' t _ht
  exact h'.store t.1 t.2

theorem indexPaths (h : ix.Genuine) (source : Option TextSource) (paths : List Path)
    (limit : Nat) : (ix.indexPaths source paths limit).index.Genuine := by
  cases source with
  | none => exact h
  | some source => exact h.storeTexts _

end Genuine
end SymbolIndex

/-! ## Files read anew -/

namespace Workspace

/-- A file that can be read replaces what is stored for its URI; else nothing is kept for it. -/
theorem refresh_eq (disk : Disk) (ix : SymbolIndex) (uri : Uri) :
    refresh disk ix uri =
      match disk.source uri with
      | .ok text => ix.store uri (Script.ofText uri text)
      | .error _ => ix.remove uri := by
  unfold refresh Disk.source
  cases hpath : uri.path? with
  | none => rfl
  | some path =>
      cases hplace : disk.resolve path with
      | error cause => simp [Disk.isPresent, Disk.read, hplace]
      | ok found =>
          rcases found with ⟨names, node⟩
          cases node with
          | file contents => simp [Disk.isPresent, Disk.read, hplace, SymbolIndex.fetch, hpath]
          | directory => simp [Disk.isPresent, Disk.read, hplace, SymbolIndex.fetch, hpath]
          | link target => simp [Disk.isPresent, Disk.read, hplace, SymbolIndex.fetch, hpath]

theorem get?_refresh_of_ne (disk : Disk) (ix : SymbolIndex) {uri other : Uri}
    (h : other ≠ uri) : (refresh disk ix uri).get? other = ix.get? other := by
  rw [refresh_eq]
  cases disk.source uri with
  | ok text => simp [SymbolIndex.get?_store, h]
  | error e => simp [SymbolIndex.get?_remove, h]

theorem genuine_refresh (disk : Disk) {ix : SymbolIndex} (h : ix.Genuine) (uri : Uri) :
    (refresh disk ix uri).Genuine := by
  rw [refresh_eq]
  cases disk.source uri with
  | ok text => exact h.store uri text
  | error e => exact h.remove uri

end Workspace
end ScriptSymbols
