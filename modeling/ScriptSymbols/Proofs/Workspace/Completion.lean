import ScriptSymbols.Proofs.Index.Store
import ScriptSymbols.Proofs.Outline.Extent
import ScriptSymbols.Workspace.Query

/-!
# Suggestions of one scope

Suggestions are composed by asking each method of every script whether it holds the line. A script answers
the same question with the first of its methods that does. Both give the same, for three reasons that lie
in three places.

1. `Script.methodAt?_eq_some`: the extents of a script's methods are disjoint, so that one at most holds
   a line.
2. `SymbolIndex.methods_of_get?` and `SymbolIndex.uri_ne_of_get?`: the methods of a script have its URI, and
   the index has one script for a URI.
3. `Workspace.completion_offers_one_scope` puts them together.
-/

namespace ScriptSymbols

/-! ## One method for a line -/

/-- The method at a line is the only one of its script that holds the line. -/
theorem Script.methodAt?_eq_some {uri : Uri} {text : String} {line : Nat} {m : Method}
    (h : (Script.ofText uri text).methodAt? line = some m) :
    ∃ front back, (Script.ofText uri text).methods = front ++ m :: back ∧
      m.containsLine line = true ∧ (∀ a ∈ front, a.containsLine line = false) ∧
      ∀ a ∈ back, a.containsLine line = false := by
  obtain ⟨hholds, front, back, hsplit, hfront⟩ := List.find?_eq_some_iff_append.1 h
  refine ⟨front, back, hsplit, hholds, fun a ha => by simpa using hfront a ha, ?_⟩
  have hdisjoint : (Script.ofText uri text).methods.Pairwise fun a b => a.endLine < b.line :=
    (finished_ordered uri (Source.ofText text.toList)).disjoint
  rw [hsplit, List.pairwise_append, List.pairwise_cons] at hdisjoint
  intro a ha
  have hbehind : m.endLine < a.line := hdisjoint.2.1.1 a ha
  simp only [Method.containsLine, Bool.and_eq_true, decide_eq_true_eq] at hholds
  simp only [Method.containsLine, Bool.and_eq_false_iff, decide_eq_false_iff_not]
  omega

/-! ## One script for a URI -/

namespace SymbolIndex

variable {ix : SymbolIndex} {uri : Uri}

theorem Genuine.uri_of_mem (h : ix.Genuine) {e : Uri × Script} (he : e ∈ ix.entries) {m : Method}
    (hm : m ∈ e.2.methods) : m.uri = e.1 := by
  obtain ⟨text, hscript⟩ := h e he
  rw [hscript] at hm
  exact Script.uri_of_mem_methods hm

theorem uri_ne_of_get? (hgenuine : ix.Genuine) (h : ix.get? uri = none) :
    ∀ m ∈ ix.methods, m.uri ≠ uri := by
  intro m hm
  obtain ⟨e, he, hm⟩ := List.mem_flatMap.1 hm
  rw [hgenuine.uri_of_mem he hm]
  exact fun hkey => absurd hkey.symm (by simpa using List.lookup_eq_none_iff.1 h e he)

/-- The methods of a script stand together, between those of scripts with other URIs. -/
theorem methods_of_get? (hgenuine : ix.Genuine) {s : Script}
    (h : ix.get? uri = some s) :
    ∃ front back, ix.methods = front ++ (s.methods ++ back) ∧ (∀ m ∈ front, m.uri ≠ uri) ∧
      ∀ m ∈ back, m.uri ≠ uri := by
  obtain ⟨before, behind, hentries, -⟩ := List.lookup_eq_some_iff.1 h
  have hother : ∀ e ∈ before ++ behind, e.1 ≠ uri := by
    have hkeys : (before.map Prod.fst ++ uri :: behind.map Prod.fst).Nodup := by
      simpa [hentries] using ix.unique
    have hnot := (List.nodup_cons.1 (List.perm_middle.nodup hkeys)).1
    rintro e he rfl
    refine hnot ?_
    rw [← List.map_append]
    exact List.mem_map_of_mem he
  have hne : ∀ es : List (Uri × Script), (∀ e ∈ es, e ∈ before ++ behind) →
      ∀ m ∈ es.flatMap fun e => e.2.methods, m.uri ≠ uri := by
    intro es hes m hm
    obtain ⟨e, he, hm⟩ := List.mem_flatMap.1 hm
    have hmem : e ∈ ix.entries := by
      rcases List.mem_append.1 (hes e he) with hleft | hright
      · simp [hentries, hleft]
      · simp [hentries, hright]
    rw [hgenuine.uri_of_mem hmem hm]
    exact hother e (hes e he)
  refine ⟨before.flatMap fun e => e.2.methods, behind.flatMap fun e => e.2.methods, ?_,
    hne before fun e he => List.mem_append_left behind he,
    hne behind fun e he => List.mem_append_right before he⟩
  simp [methods, hentries]

end SymbolIndex

/-! ## Suggestions -/

namespace Suggestion

variable {methods : List Method} {uri : Uri} {line : Nat}

/-- Methods that do not hold the line come without their local names. -/
theorem flatMap_methods_eq (h : ∀ m ∈ methods, ¬ (m.uri = uri ∧ m.containsLine line = true)) :
    (methods.flatMap fun m => ofMethod m ::
      (if m.uri = uri ∧ m.containsLine line then m.localNames.map ofName else [])) =
      methods.map ofMethod := by
  induction methods with
  | nil => rfl
  | cons m methods ih =>
      have hrest := ih fun a ha => h a (List.mem_cons_of_mem m ha)
      rw [List.flatMap_cons, hrest, if_neg (h m List.mem_cons_self)]
      rfl

end Suggestion

namespace Workspace

open Suggestion

variable {w : Workspace} {uri : Uri} {line : Nat}

theorem suggestions_of_none (hgenuine : w.index.Genuine)
    (h : (w.script? uri).bind (·.methodAt? line) = none) :
    w.suggestions uri line =
      w.index.methods.map ofMethod ++
        (((w.script? uri).map (·.globals)).getD []).map fun v => ofName v.name := by
  have hnone : ∀ m ∈ w.index.methods, ¬ (m.uri = uri ∧ m.containsLine line = true) := by
    rintro m hm ⟨huri, hholds⟩
    cases hscript : w.index.get? uri with
    | none => exact SymbolIndex.uri_ne_of_get? hgenuine hscript m hm huri
    | some s =>
        obtain ⟨front, back, hsplit, hfront, hback⟩ :=
          SymbolIndex.methods_of_get? hgenuine hscript
        have hfree : ∀ a ∈ s.methods, a.containsLine line = false := by
          have hat : s.methodAt? line = none := by
            simpa [script?, hscript] using h
          simpa [Script.methodAt?] using hat
        rw [hsplit, List.mem_append, List.mem_append] at hm
        rcases hm with hm | hm | hm
        · exact hfront m hm huri
        · simp [hfree m hm] at hholds
        · exact hback m hm huri
  rw [suggestions, compose, flatMap_methods_eq hnone]

theorem suggestions_of_some (hgenuine : w.index.Genuine) {m : Method}
    (h : (w.script? uri).bind (·.methodAt? line) = some m) :
    ∃ front back, w.index.methods = front ++ m :: back ∧ m ∉ front ∧ m ∉ back ∧
      w.suggestions uri line =
        front.map ofMethod ++ (ofMethod m :: m.localNames.map ofName) ++ back.map ofMethod ++
          (((w.script? uri).map (·.globals)).getD []).map fun v => ofName v.name := by
  obtain ⟨s, hscript, hat⟩ := Option.bind_eq_some_iff.1 h
  obtain ⟨front, back, hsplit, hfront, hback⟩ :=
    SymbolIndex.methods_of_get? hgenuine hscript
  obtain ⟨text, htext⟩ := hgenuine _ (Entries.mem_of_lookup hscript)
  obtain rfl : s = Script.ofText uri text := htext
  obtain ⟨before, behind, hmethods, hholds, hbefore, hbehind⟩ := Script.methodAt?_eq_some hat
  have huri : m.uri = uri := Script.uri_of_mem_methods (List.mem_of_find?_eq_some hat)
  -- On both sides of the method, another URI or another extent keeps local names out.
  have hleft : ∀ a ∈ front ++ before, ¬ (a.uri = uri ∧ a.containsLine line = true) := by
    rintro a ha ⟨hsame, hline⟩
    rcases List.mem_append.1 ha with ha | ha
    · exact hfront a ha hsame
    · simp [hbefore a ha] at hline
  have hright : ∀ a ∈ behind ++ back, ¬ (a.uri = uri ∧ a.containsLine line = true) := by
    rintro a ha ⟨hsame, hline⟩
    rcases List.mem_append.1 ha with ha | ha
    · simp [hbehind a ha] at hline
    · exact hback a ha hsame
  have hall : w.index.methods = (front ++ before) ++ m :: (behind ++ back) := by
    rw [hsplit, hmethods]
    simp
  refine ⟨front ++ before, behind ++ back, hall, fun hm => hleft m hm ⟨huri, hholds⟩,
    fun hm => hright m hm ⟨huri, hholds⟩, ?_⟩
  rw [suggestions, compose, hall, List.flatMap_append, List.flatMap_cons, flatMap_methods_eq hleft,
    flatMap_methods_eq hright, if_pos ⟨huri, hholds⟩]
  simp

/-- Where no member of an object is being typed, suggestions are those of one scope. There is one for each
method of all scripts, in order; right behind the method of this script that holds the line, if there is
one, come its parameters and then its variables, and no other local names; at the end come the variables
of the script. -/
theorem completion_offers_one_scope (w : Workspace) (uri : Uri) (p : Position)
    (hgenuine : ∀ e ∈ w.index.entries, ∃ text, e.2 = Script.ofText e.1 text)
    (hmember : (w.lineText? uri p.line).any (isMemberAccess · p.column) = false) :
    let globals := ((w.script? uri).map (·.globals)).getD []
    match (w.script? uri).bind (·.methodAt? p.line) with
    | none =>
        w.complete? uri p =
          some (w.index.methods.map ofMethod ++ globals.map fun v => ofName v.name)
    | some m =>
        ∃ front back, w.index.methods = front ++ m :: back ∧ m ∉ front ∧ m ∉ back ∧
          w.complete? uri p =
            some (front.map ofMethod ++
              (ofMethod m :: (m.params ++ m.locals.map Variable.name).map ofName) ++
              back.map ofMethod ++ globals.map fun v => ofName v.name) := by
  intro globals
  have hcomplete : w.complete? uri p = some (w.suggestions uri p.line) := by
    simp [complete?, hmember]
  rw [hcomplete]
  split
  · rename_i hnone
    rw [suggestions_of_none hgenuine hnone]
  · rename_i m hsome
    obtain ⟨front, back, hall, hfront, hback, hlist⟩ := suggestions_of_some hgenuine hsome
    exact ⟨front, back, hall, hfront, hback, by rw [hlist]; rfl⟩

/-- Two scripts have a method that holds line 2; the local names of one of them are offered. -/
theorem completion_in_overlapping_scripts :
    let uri : Uri := ⟨"file:///ws/a.ahk"⟩
    let other : Uri := ⟨"file:///ws/b.ahk"⟩
    let here := Script.ofText uri "total := 1\nadd(x) \x7b\n  sum := x\n\x7d\n"
    let there := Script.ofText other "show(text) \x7b\n  width := 1\n  height := 2\n\x7d\n"
    let w : Workspace := { index := (SymbolIndex.store {} other there).store uri here }
    (∀ e ∈ w.index.entries, ∃ text, e.2 = Script.ofText e.1 text) ∧
      (w.lineText? uri 2).any (isMemberAccess · 2) = false ∧
      (w.script? other).any (fun s => (s.methodAt? 2).isSome) = true ∧
      (w.complete? uri ⟨2, 2⟩).map (·.map fun s => (s.kind, s.label)) =
        some [(.method, "show(text)"), (.method, "add(x)"), (.variable, "x"), (.variable, "sum"),
          (.variable, "total")] := by
  intro uri other here there w
  have hgenuine : ∀ e ∈ w.index.entries, ∃ text, e.2 = Script.ofText e.1 text :=
    (SymbolIndex.genuine_empty.store other _).store uri _
  have hmember : (w.lineText? uri 2).any (isMemberAccess · 2) = false := by decide +kernel
  have hscript : w.script? uri = some here := by
    simp [w, script?, SymbolIndex.get?_store]
  let shown (s : Suggestion) := (s.kind, s.label)
  have hat : ((w.script? uri).bind (·.methodAt? 2)).map (fun m => (shown (ofMethod m), m.localNames)) =
      some ((.method, "add(x)"), ["x", "sum"]) := by
    decide +kernel
  obtain ⟨m, hm, hparts⟩ := Option.map_eq_some_iff.1 hat
  obtain ⟨hlabel, hlocals⟩ := Prod.mk.inj hparts
  have hlist := completion_offers_one_scope w uri ⟨2, 2⟩ hgenuine hmember
  rw [hm] at hlist
  obtain ⟨front, back, hmethods, -, -, hlist⟩ := hlist
  -- The method that holds the line is the second of two.
  have hsides : front.map (shown ∘ ofMethod) = [(.method, "show(text)")] ∧
      back.map (shown ∘ ofMethod) = [] := by
    have hall : w.index.methods.map (shown ∘ ofMethod) = [(.method, "show(text)"), (.method, "add(x)")] := by
      decide +kernel
    rw [hmethods, List.map_append, List.map_cons, Function.comp_apply, hlabel] at hall
    generalize front.map (shown ∘ ofMethod) = left at hall ⊢
    rcases left with _ | ⟨first, _ | ⟨second, left⟩⟩
    · simp at hall
    · simpa using hall
    · simp at hall
  have hglobals : here.globals.map Variable.name = ["total"] := by decide +kernel
  have hnames : m.params ++ m.locals.map Variable.name = ["x", "sum"] := hlocals
  refine ⟨hgenuine, hmember, by decide +kernel, ?_⟩
  have hvariables : here.globals.map (shown ∘ fun v => ofName v.name) = [(.variable, "total")] := by
    simpa [Function.comp_def, shown, ofName] using
      congrArg (List.map fun name => (SuggestionKind.variable, name)) hglobals
  show (w.complete? uri ⟨2, 2⟩).map (·.map shown) = _
  rw [hlist, hscript, hnames]
  simp only [Option.map_some, Option.getD_some, List.map_append, List.map_cons, List.map_map, hsides.1,
    hsides.2, hlabel, hvariables]
  rfl

end Workspace
end ScriptSymbols
