import Mathlib.Data.List.DropRight
import ScriptSymbols.Proofs.Index.Store

/-!
# The index as a record of its history

The index is a list that is edited in place: a script that replaces another one keeps its place, a
removed one leaves no gap, and one that is stored again goes to the end. What it answers is settled by
the changes that were made, in their order.

1. `SymbolIndex.Operation` are the requests to an index, and `SymbolIndex.run` carries them out.
2. `SymbolIndex.history` lists the changes that a run makes. It knows nothing of the index.
3. `SymbolIndex.Reflects` says that an index answers as a history demands, with one lemma for each kind
   of change.
4. `SymbolIndex.run_reflects_history` says so of every run.
-/

namespace ScriptSymbols
namespace SymbolIndex

open Text

/-! ## Requests -/

/-- A request to the index. The source of texts is the one of that moment, since files change. -/
inductive Operation
  | store (uri : Uri) (script : Script)
  | remove (uri : Uri)
  | clear
  | fetch (source : Option TextSource) (uri : Uri) (usingCache : Bool)
  | indexPaths (source : Option TextSource) (paths : List Path) (limit : Nat)

/-- The index after a request. -/
def perform (ix : SymbolIndex) : Operation → SymbolIndex
  | .store uri script => ix.store uri script
  | .remove uri => ix.remove uri
  | .clear => ix.clear
  | .fetch source uri usingCache => (ix.fetch source uri usingCache).index
  | .indexPaths source paths limit => (ix.indexPaths source paths limit).index

/-- The index after some requests to an empty one. -/
def run (ops : List Operation) : SymbolIndex :=
  ops.foldl perform {}

/-! ## Histories -/

/-- A change of the index. -/
inductive Event
  | stored (uri : Uri) (script : Script)
  | removed (uri : Uri)
  | cleared

namespace Event

/-- Whether a change takes the script of a URI away. -/
def removes (uri : Uri) : Event → Bool
  | stored _ _ => false
  | removed other => other = uri
  | cleared => true

/-- The script that a change stores for a URI. -/
def script? (uri : Uri) : Event → Option Script
  | stored other script => if other = uri then some script else none
  | removed _ => none
  | cleared => none

def isStored : Event → Bool
  | stored _ _ => true
  | _ => false

def isRemoved : Event → Bool
  | removed _ => true
  | _ => false

def isCleared : Event → Bool
  | cleared => true
  | _ => false

end Event

namespace History

/-- The changes since the script of a URI was last taken away. -/
def sinceRemoval (uri : Uri) (past : List Event) : List Event :=
  past.rtakeWhile (!·.removes uri)

/-- The scripts stored for a URI since it was last taken away, from the first to the last. -/
def scripts (uri : Uri) (past : List Event) : List Script :=
  (sinceRemoval uri past).filterMap (Event.script? uri)

/-- The number of changes before the one that first stored a script for a URI since it was last taken
away. -/
def firstStore (uri : Uri) (past : List Event) : Nat :=
  (past.rdropWhile (!·.removes uri)).length +
    (sinceRemoval uri past).findIdx fun e => (e.script? uri).isSome

/-! ### One more change -/

variable {uri : Uri} {past : List Event} {e : Event}

theorem scripts_concat_of_removes (past : List Event) (h : e.removes uri = true) :
    scripts uri (past ++ [e]) = [] := by
  have hsince : sinceRemoval uri (past ++ [e]) = [] :=
    List.rtakeWhile_concat_neg _ _ e (by simp [h])
  simp [scripts, hsince]

theorem sinceRemoval_concat (past : List Event) (h : e.removes uri = false) :
    sinceRemoval uri (past ++ [e]) = sinceRemoval uri past ++ [e] :=
  List.rtakeWhile_concat_pos _ _ e (by simp [h])

theorem scripts_concat (past : List Event) (h : e.removes uri = false) :
    scripts uri (past ++ [e]) = scripts uri past ++ (e.script? uri).toList := by
  rw [scripts, sinceRemoval_concat past h, List.filterMap_append, scripts]
  cases hscript : e.script? uri with
  | none => simp [hscript]
  | some script => simp [hscript]

/-- Where nothing is stored for a URI, no change since the last removal stores anything for it. -/
theorem scripts_eq_nil_iff :
    scripts uri past = [] ↔ ∀ e ∈ sinceRemoval uri past, (e.script? uri).isSome = false := by
  simp [scripts, List.filterMap_eq_nil_iff]

theorem length_split (uri : Uri) (past : List Event) :
    (past.rdropWhile (!·.removes uri)).length + (sinceRemoval uri past).length = past.length := by
  rw [sinceRemoval, ← List.length_append, List.rdropWhile_append_rtakeWhile]

theorem exists_of_scripts_ne_nil (h : scripts uri past ≠ []) :
    ∃ e ∈ sinceRemoval uri past, (e.script? uri).isSome = true := by
  by_contra hnone
  refine h (scripts_eq_nil_iff.2 ?_)
  intro e he
  exact Bool.eq_false_iff.2 fun hsome => hnone ⟨e, he, hsome⟩

theorem firstStore_lt (h : scripts uri past ≠ []) : firstStore uri past < past.length := by
  have hfound := List.findIdx_lt_length.2 (exists_of_scripts_ne_nil h)
  rw [← length_split uri past]
  exact Nat.add_lt_add_left hfound _

/-- What is stored keeps its place in the order. -/
theorem firstStore_concat (h : scripts uri past ≠ []) (hkeep : e.removes uri = false) :
    firstStore uri (past ++ [e]) = firstStore uri past := by
  have hfound := List.findIdx_lt_length.2 (exists_of_scripts_ne_nil h)
  unfold firstStore
  rw [sinceRemoval_concat past hkeep, List.findIdx_append, if_pos hfound,
    List.rdropWhile_concat_pos _ _ e (by simp [hkeep])]

/-- What is stored anew comes behind everything else. -/
theorem firstStore_concat_stored (h : scripts uri past = []) (script : Script) :
    firstStore uri (past ++ [.stored uri script]) = past.length := by
  have hkeep : (Event.stored uri script).removes uri = false := rfl
  -- None of the changes since the removal is a store, so that the search goes on to the new one.
  have hnone : ¬ (sinceRemoval uri past).findIdx (fun e => (e.script? uri).isSome) <
      (sinceRemoval uri past).length := by
    intro hlt
    rcases List.findIdx_lt_length.1 hlt with ⟨e, he, hsome⟩
    simp [scripts_eq_nil_iff.1 h e he] at hsome
  have hhere : [Event.stored uri script].findIdx (fun e => (e.script? uri).isSome) = 0 := by
    simp [Event.script?, List.findIdx_cons]
  unfold firstStore
  rw [sinceRemoval_concat past hkeep, List.findIdx_append, if_neg hnone, hhere, Nat.zero_add,
    List.rdropWhile_concat_pos _ _ _ (by simp [hkeep]), length_split]

end History

open History

/-- The changes that a request makes after others. A script is removed only if there is one, and
fetched only if it is not at hand or must be read anew. -/
def Operation.events (past : List Event) : Operation → List Event
  | .store uri script => [.stored uri script]
  | .remove uri => if scripts uri past = [] then [] else [.removed uri]
  | .clear => [.cleared]
  | .fetch source uri usingCache =>
    if usingCache = true ∧ scripts uri past ≠ [] then []
    else
      match source with
      | none => []
      | some source =>
        match source uri with
        | .error _ => []
        | .ok text => [.stored uri (Script.ofText uri text)]
  | .indexPaths none _ _ => []
  | .indexPaths (some source) paths limit =>
    (paths.filterMap (textOf? source limit)).map fun (uri, text) =>
      .stored uri (Script.ofText uri text)

/-- The changes that some requests to an empty index make, from the first to the last. -/
def history (ops : List Operation) : List Event :=
  ops.foldl (fun past op => past ++ op.events past) []

/-! ## Keys of the index -/

theorem mem_uris_iff (ix : SymbolIndex) (uri : Uri) :
    uri ∈ ix.uris ↔ ix.get? uri ≠ none := by
  simp [uris, get?, List.lookup_eq_none_iff]

theorem uris_store (ix : SymbolIndex) (uri : Uri) (script : Script) :
    (ix.store uri script).uris = if uri ∈ ix.uris then ix.uris else ix.uris ++ [uri] := by
  exact Entries.keys_put uri script ix.entries

theorem uris_remove (ix : SymbolIndex) (uri : Uri) :
    (ix.remove uri).uris = ix.uris.filter (· != uri) := by
  unfold remove
  split
  · simp [uris, List.filter_map, Function.comp_def]
  · rename_i habsent
    have hnot : uri ∉ ix.uris := by
      rw [mem_uris_iff]
      simpa [contains] using habsent
    refine (List.filter_eq_self.2 ?_).symm
    intro other hother
    simpa using fun heq : other = uri => hnot (heq ▸ hother)

/-! ## The index follows the history -/

/-- Whether an index answers as a history demands: it has the last script stored for each URI, the
URIs are in the order in which they were first stored, and every change is counted. -/
structure Reflects (ix : SymbolIndex) (past : List Event) : Prop where
  get : ∀ uri, ix.get? uri = (scripts uri past).getLast?
  ordered : ix.uris.Pairwise fun a b => firstStore a past < firstStore b past
  version : ix.version = past.length

theorem reflects_empty : Reflects {} [] := by
  constructor <;> simp [get?, uris, scripts, sinceRemoval]

namespace Reflects

variable {ix : SymbolIndex} {past : List Event}

theorem mem_uris_iff (h : ix.Reflects past) (uri : Uri) :
    uri ∈ ix.uris ↔ scripts uri past ≠ [] := by
  rw [SymbolIndex.mem_uris_iff, h.get]
  simp

theorem store (h : ix.Reflects past) (uri : Uri) (script : Script) :
    (ix.store uri script).Reflects (past ++ [.stored uri script]) := by
  have hkeep : ∀ other, (Event.stored uri script).removes other = false := fun _ => rfl
  have hsame : ∀ other ∈ ix.uris,
      firstStore other (past ++ [.stored uri script]) = firstStore other past := by
    intro other hother
    exact firstStore_concat ((h.mem_uris_iff other).1 hother) (hkeep other)
  have hold : ix.uris.Pairwise fun a b => firstStore a (past ++ [.stored uri script]) <
      firstStore b (past ++ [.stored uri script]) := by
    refine h.ordered.imp_of_mem ?_
    intro a b ha hb hlt
    rw [hsame a ha, hsame b hb]
    exact hlt
  refine ⟨?_, ?_, ?_⟩
  · intro other
    rw [get?_store, scripts_concat past (hkeep other), h.get]
    by_cases hother : other = uri
    · simp [hother, Event.script?]
    · have hne : uri ≠ other := fun heq => hother heq.symm
      simp [hother, hne, Event.script?]
  · rw [uris_store]
    split
    · exact hold
    · rename_i hnew
      -- A URI that is new goes to the end, and its first store is the last change of all.
      have hnone : scripts uri past = [] := by
        simpa [h.mem_uris_iff] using hnew
      refine List.pairwise_append.2 ⟨hold, List.pairwise_singleton _ _, ?_⟩
      intro a ha b hb
      cases List.mem_singleton.1 hb
      rw [hsame a ha, firstStore_concat_stored hnone]
      exact firstStore_lt ((h.mem_uris_iff a).1 ha)
  · simp [SymbolIndex.store, h.version]

theorem remove (h : ix.Reflects past) {uri : Uri} (hpresent : scripts uri past ≠ []) :
    (ix.remove uri).Reflects (past ++ [.removed uri]) := by
  have hkeep : ∀ other, other ≠ uri → (Event.removed uri).removes other = false := by
    intro other hother
    simpa [Event.removes] using fun heq : uri = other => hother heq.symm
  refine ⟨?_, ?_, ?_⟩
  · intro other
    rw [get?_remove]
    by_cases hother : other = uri
    · rw [if_pos hother, scripts_concat_of_removes past (by simp [Event.removes, hother])]
      rfl
    · rw [if_neg hother, scripts_concat past (hkeep other hother), h.get]
      simp [Event.script?]
  · rw [uris_remove]
    refine (h.ordered.sublist List.filter_sublist).imp_of_mem ?_
    intro a b ha hb hlt
    rcases List.mem_filter.1 ha with ⟨ha, hane⟩
    rcases List.mem_filter.1 hb with ⟨hb, hbne⟩
    rw [firstStore_concat ((h.mem_uris_iff a).1 ha) (hkeep a (by simpa using hane)),
      firstStore_concat ((h.mem_uris_iff b).1 hb) (hkeep b (by simpa using hbne))]
    exact hlt
  · have hcontains : ix.contains uri = true := by
      rw [contains, h.get]
      simpa using hpresent
    simp [SymbolIndex.remove, hcontains, h.version]

theorem clear (h : ix.Reflects past) : ix.clear.Reflects (past ++ [.cleared]) := by
  refine ⟨?_, ?_, ?_⟩
  · intro uri
    rw [get?_clear, scripts_concat_of_removes past rfl]
    rfl
  · exact List.Pairwise.nil
  · simp [SymbolIndex.clear, h.version]

theorem storeTexts (h : ix.Reflects past) (texts : List (Uri × String)) :
    (ix.storeTexts texts).Reflects
      (past ++ texts.map fun (uri, text) => .stored uri (Script.ofText uri text)) := by
  induction texts generalizing ix past with
  | nil => simpa [SymbolIndex.storeTexts] using h
  | cons t texts ih =>
      have hrest := ih (h.store t.1 (Script.ofText t.1 t.2))
      rw [List.append_assoc] at hrest
      exact hrest

/-- A request makes the changes that it should make after the ones before it. -/
theorem perform (h : ix.Reflects past) (op : Operation) :
    (ix.perform op).Reflects (past ++ op.events past) := by
  cases op with
  | store uri script => exact h.store uri script
  | remove uri =>
      by_cases hpresent : scripts uri past = []
      · have habsent : ix.contains uri = false := by
          simp [contains, h.get, hpresent]
        simpa [SymbolIndex.perform, SymbolIndex.remove, Operation.events, hpresent, habsent] using h
      · simpa [SymbolIndex.perform, Operation.events, hpresent] using h.remove hpresent
  | clear => exact h.clear
  | fetch source uri usingCache =>
      -- The history knows whether a script is at hand, so that it need not ask the index.
      by_cases hcached : usingCache = true ∧ scripts uri past ≠ []
      · have hhit : ix.get? uri = some ((scripts uri past).getLast hcached.2) := by
          rw [h.get, List.getLast?_eq_some_getLast hcached.2]
        simpa [SymbolIndex.perform, SymbolIndex.fetch, Operation.events, hcached, hhit] using h
      · have hmiss : (if usingCache then ix.get? uri else none) = none := by
          cases usingCache with
          | false => rfl
          | true =>
              have hnone : scripts uri past = [] := by
                simpa using hcached
              simp [h.get, hnone]
        simp only [SymbolIndex.perform, SymbolIndex.fetch, Operation.events, hmiss, if_neg hcached]
        cases source with
        | none => simpa using h
        | some source =>
            cases hsource : source uri with
            | error e => simpa [hsource] using h
            | ok text => simpa [hsource] using h.store uri (Script.ofText uri text)
  | indexPaths source paths limit =>
      cases source with
      | none => simpa [SymbolIndex.perform, SymbolIndex.indexPaths, Operation.events] using h
      | some source =>
          have hstored := h.storeTexts (readPaths source limit paths).texts
          rw [texts_readPaths] at hstored
          simpa [SymbolIndex.perform, SymbolIndex.indexPaths, Operation.events, texts_readPaths]
            using hstored

end Reflects

theorem run_reflects (ops : List Operation) : (run ops).Reflects (history ops) := by
  have hfrom : ∀ (ix : SymbolIndex) (past : List Event), ix.Reflects past →
      (ops.foldl perform ix).Reflects (ops.foldl (fun past op => past ++ op.events past) past) := by
    induction ops with
    | nil =>
        intro ix past h
        exact h
    | cons op ops ih =>
        intro ix past h
        exact ih _ _ (h.perform op)
  exact hfrom {} [] reflects_empty

/-! ## Equal versions -/

theorem version_storeTexts (ix : SymbolIndex) (texts : List (Uri × String)) :
    (ix.storeTexts texts).version = ix.version + texts.length := by
  induction texts generalizing ix with
  | nil => rfl
  | cons t texts ih =>
      have hrest := ih (ix.store t.1 (Script.ofText t.1 t.2))
      simp only [store] at hrest
      rw [List.length_cons, ← Nat.add_assoc, Nat.add_right_comm]
      exact hrest

/-- A request leaves the index as it is, or it is counted. -/
theorem perform_eq_or_lt (ix : SymbolIndex) (op : Operation) :
    ix.perform op = ix ∨ ix.version < (ix.perform op).version := by
  cases op with
  | store uri script => exact Or.inr (Nat.lt_succ_self _)
  | remove uri =>
      by_cases hpresent : ix.contains uri = true
      · right
        simp [perform, remove, hpresent]
      · left
        simp [perform, remove, hpresent]
  | clear => exact Or.inr (Nat.lt_succ_self _)
  | fetch source uri usingCache =>
      simp only [perform, fetch]
      split
      · exact Or.inl rfl
      · split
        · exact Or.inl rfl
        · split
          · exact Or.inl rfl
          · exact Or.inr (Nat.lt_succ_self _)
  | indexPaths source paths limit =>
      cases source with
      | none => exact Or.inl rfl
      | some source =>
          simp only [perform, indexPaths]
          cases htexts : (readPaths source limit paths).texts with
          | nil => exact Or.inl rfl
          | cons t texts =>
              right
              simp [version_storeTexts]

theorem version_le_foldl_perform (ix : SymbolIndex) (ops : List Operation) :
    ix.version ≤ (ops.foldl perform ix).version := by
  refine List.foldlRecOn (motive := fun ix' : SymbolIndex => ix.version ≤ ix'.version) ops perform
    (Nat.le_refl _) ?_
  intro ix' hle op _hop
  rcases perform_eq_or_lt ix' op with hsame | hlt
  · rw [hsame]
    exact hle
  · exact Nat.le_trans hle (Nat.le_of_lt hlt)

/-- As long as the version stays the same, so does the index. -/
theorem foldl_perform_eq_of_version_eq {ix : SymbolIndex} {ops : List Operation}
    (h : (ops.foldl perform ix).version = ix.version) : ops.foldl perform ix = ix := by
  induction ops with
  | nil => rfl
  | cons op ops ih =>
      rw [List.foldl_cons] at h ⊢
      rcases perform_eq_or_lt ix op with hsame | hlt
      · rw [hsame] at h ⊢
        exact ih h
      · -- A request that is counted is never taken back.
        have hle := version_le_foldl_perform (ix.perform op) ops
        rw [h] at hle
        exact absurd hlt (Nat.not_lt_of_le hle)

theorem run_append_eq_of_version_eq {ops more : List Operation}
    (h : (run (ops ++ more)).version = (run ops).version) : run (ops ++ more) = run ops := by
  unfold run at h ⊢
  rw [List.foldl_append] at h ⊢
  exact foldl_perform_eq_of_version_eq h

/-! ## Every run -/

/-- Every change is of one of three kinds. -/
theorem length_eq_counts (past : List Event) :
    past.length =
      past.countP Event.isStored + past.countP Event.isRemoved + past.countP Event.isCleared := by
  induction past with
  | nil => rfl
  | cons e past ih =>
      have hone : 1 = (if e.isStored then 1 else 0) + (if e.isRemoved then 1 else 0) +
          (if e.isCleared then 1 else 0) := by
        cases e <;> rfl
      rw [List.length_cons, ih, List.countP_cons, List.countP_cons, List.countP_cons]
      omega

/-- What is read entry by entry is read URI by URI. -/
theorem flatMap_entries (ix : SymbolIndex) {α : Type} (f : Script → List α) :
    (ix.entries.flatMap fun e => f e.2) =
      ix.uris.flatMap fun uri => ((ix.get? uri).map f).getD [] := by
  rw [uris, List.flatMap_map]
  refine List.flatMap_congr ?_
  intro e he
  rw [get?, Entries.lookup_of_mem ix.unique he]
  rfl

/-- The answers of an index after any requests are those that the history of its changes demands. No URI
is listed twice; the URIs listed are those with a script, in the order in which they were first stored
since they were last removed; each has the script that was stored last. The methods, the variables and
the size are those of the listed scripts in that order. The version is the number of scripts stored, of
scripts removed and of times that all were removed, and at two moments of a run with the same version
the index is the same. -/
theorem run_reflects_history (ops : List Operation) :
    let ix := run ops
    let past := history ops
    ix.uris.Nodup ∧
      (∀ uri, uri ∈ ix.uris ↔ scripts uri past ≠ []) ∧
      (ix.uris.Pairwise fun a b => firstStore a past < firstStore b past) ∧
      (∀ uri, ix.get? uri = (scripts uri past).getLast?) ∧
      (∀ uri, ix.contains uri = true ↔ uri ∈ ix.uris) ∧
      ix.methods = (ix.uris.flatMap fun uri => ((ix.get? uri).map Script.methods).getD []) ∧
      ix.globals = (ix.uris.flatMap fun uri => ((ix.get? uri).map Script.globals).getD []) ∧
      ix.size = ix.uris.length ∧
      ix.version =
        past.countP Event.isStored + past.countP Event.isRemoved + past.countP Event.isCleared ∧
      ∀ early late, early <+: ops → late <+: ops →
        (run early).version = (run late).version → run early = run late := by
  intro ix past
  have h : ix.Reflects past := run_reflects ops
  refine ⟨ix.unique, h.mem_uris_iff, h.ordered, h.get, ?_, flatMap_entries ix Script.methods,
    flatMap_entries ix Script.globals, ?_, ?_, ?_⟩
  · intro uri
    rw [mem_uris_iff, contains, Option.isSome_iff_ne_none]
  · simp [size, uris]
  · rw [h.version, length_eq_counts]
  · intro early late hearly hlate hversion
    rcases List.prefix_or_prefix_of_prefix hearly hlate with ⟨more, rfl⟩ | ⟨more, rfl⟩
    · exact (run_append_eq_of_version_eq hversion.symm).symm
    · exact run_append_eq_of_version_eq hversion

/-- A script that is removed and stored again goes behind the others. A look for it in between that finds
no source of texts is not counted. -/
theorem run_reflects_history_of_script_stored_again :
    let a : Uri := ⟨"file:///a.ahk"⟩
    let b : Uri := ⟨"file:///b.ahk"⟩
    let script (uri : Uri) : Script := { uri, methods := [], globals := [] }
    let ops : List Operation :=
      [.store a (script a), .store b (script b), .remove a, .fetch none a true, .store a (script a)]
    (run ops).uris = [b, a] ∧ firstStore b (history ops) < firstStore a (history ops) ∧
      (run ops).version = 4 ∧ run (ops.take 3) = run (ops.take 4) := by
  intro a b script ops
  have huris : (run ops).uris = [b, a] := by decide +kernel
  rcases run_reflects_history ops with ⟨-, -, hordered, -, -, -, -, -, -, hsame⟩
  rw [huris] at hordered
  refine ⟨huris, List.rel_of_pairwise_cons hordered List.mem_cons_self, by decide +kernel, ?_⟩
  exact hsame _ _ (List.take_prefix 3 ops) (List.take_prefix 4 ops) (by decide +kernel)

end SymbolIndex
end ScriptSymbols
