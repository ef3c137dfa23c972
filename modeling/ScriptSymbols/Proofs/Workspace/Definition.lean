import ScriptSymbols.Proofs.Workspace.Completion

/-!
# Definitions and suggestions share a scope

The declaration of a name is looked for by a search with priorities, suggestions are written down in one
list. What is in scope is the same for both.

1. `Workspace.namesInScope` are the names of variables that are in scope at a line.
2. `Workspace.variables_suggested`: these names, and no others, are suggested as variables.
3. `Workspace.isSome_defineInScript?`: a declaration in the script is found for these names, and no others.
4. `Workspace.defined_iff_suggested` puts them together.
-/

namespace ScriptSymbols

open Text

/-! ## Kinds of suggestions -/

namespace Suggestion

@[simp]
theorem kind_ofMethod (m : Method) : (ofMethod m).kind = .method := by
  unfold ofMethod
  split <;> rfl

@[simp]
theorem kind_ofName (name : String) : (ofName name).kind = .variable := rfl

theorem filter_map_ofMethod (methods : List Method) :
    (methods.map ofMethod).filter (·.kind = .variable) = [] := by
  simp [List.filter_eq_nil_iff]

theorem filter_map_ofName (names : List String) :
    (names.map ofName).filter (·.kind = .variable) = names.map ofName := by
  simp [List.filter_eq_self]

theorem ofMethod_mem_compose {methods : List Method} {m : Method} (h : m ∈ methods) (uri : Uri)
    (line : Nat) (globals : List Variable) : ofMethod m ∈ compose methods uri line globals := by
  refine List.mem_append_left _ (List.mem_flatMap.2 ⟨m, h, ?_⟩)
  exact List.mem_cons_self

end Suggestion

/-! ## Names in scope -/

/-- The names of variables that are in scope at a line of a script: those of the method that holds the
line, and those of the file. -/
def Script.namesInScope (s : Script) (line : Nat) : List String :=
  ((s.methodAt? line).map Method.localNames).getD [] ++ s.globals.map Variable.name

namespace Workspace

open Suggestion

variable {w : Workspace} {uri : Uri} {line : Nat}

/-- The names of variables that are in scope at a line of a script, if there is such a script. -/
def namesInScope (w : Workspace) (uri : Uri) (line : Nat) : List String :=
  ((w.script? uri).map (·.namesInScope line)).getD []

/-- The variables among the suggestions are the names in scope. -/
theorem variables_suggested (hgenuine : w.index.Genuine) :
    (w.suggestions uri line).filter (·.kind = .variable) = (w.namesInScope uri line).map ofName := by
  have hglobals : ∀ globals : List Variable,
      (globals.map fun v => ofName v.name) = (globals.map Variable.name).map ofName := by
    simp
  -- The list has another shape where a method holds the line; its methods go, and the names stay in order.
  cases hat : (w.script? uri).bind (·.methodAt? line) with
  | none =>
      rw [suggestions_of_none hgenuine hat, hglobals, List.filter_append,
        filter_map_ofMethod, filter_map_ofName, List.nil_append]
      cases hscript : w.script? uri with
      | none => simp [namesInScope, hscript]
      | some s =>
          have hnone : s.methodAt? line = none := by
            simpa [hscript] using hat
          simp [namesInScope, Script.namesInScope, hscript, hnone]
  | some m =>
      obtain ⟨front, back, -, -, -, hlist⟩ := suggestions_of_some hgenuine hat
      obtain ⟨s, hscript, hsome⟩ := Option.bind_eq_some_iff.1 hat
      rw [hlist, hglobals, List.filter_append, List.filter_append, List.filter_append,
        List.filter_cons_of_neg (by simp), filter_map_ofMethod, filter_map_ofMethod,
        filter_map_ofName, filter_map_ofName]
      simp [namesInScope, Script.namesInScope, hscript, hsome]

theorem exists_variable_suggested_iff (hgenuine : w.index.Genuine) (name : String) :
    (∃ s ∈ w.suggestions uri line, s.kind = .variable ∧ sameName s.label name = true) ↔
      (w.namesInScope uri line).any (sameName · name) = true := by
  have hmem : ∀ s, s ∈ w.suggestions uri line ∧ s.kind = .variable ↔
      s ∈ (w.namesInScope uri line).map ofName := by
    intro s
    rw [← variables_suggested hgenuine, List.mem_filter, decide_eq_true_iff]
  constructor
  · rintro ⟨s, hs, hkind, hsame⟩
    obtain ⟨n, hn, rfl⟩ := List.mem_map.1 ((hmem s).1 ⟨hs, hkind⟩)
    exact List.any_eq_true.2 ⟨n, hn, hsame⟩
  · intro hany
    obtain ⟨n, hn, hsame⟩ := List.any_eq_true.1 hany
    obtain ⟨hs, hkind⟩ := (hmem (ofName n)).2 (List.mem_map_of_mem hn)
    exact ⟨ofName n, hs, hkind, hsame⟩

/-! ## Declarations -/

/-- A declaration is found in a script for the names in scope. -/
theorem isSome_defineInScript? (w : Workspace) (uri : Uri) (line : Nat) (name : String) (s : Script) :
    (w.defineInScript? uri line name s).isSome = (s.namesInScope line).any (sameName · name) := by
  rw [defineInScript?, Script.namesInScope, List.any_append, Option.isSome_or]
  congr 1
  · cases s.methodAt? line with
    | none => rfl
    | some m =>
        -- Parameters come first in the search as they do in the list of local names.
        simp only [Option.bind_some, Option.map_some, Option.getD_some, Method.localNames,
          List.any_append, List.any_map]
        cases hparams : m.params.any (sameName · name) with
        | true => rfl
        | false => simp [Function.comp_def, List.isSome_find?]
  · simp [Function.comp_def, List.isSome_find?]

theorem isSome_bind_defineInScript? (w : Workspace) (uri : Uri) (line : Nat) (name : String) :
    ((w.script? uri).bind (w.defineInScript? uri line name)).isSome =
      (w.namesInScope uri line).any (sameName · name) := by
  cases hscript : w.script? uri with
  | none => simp [namesInScope, hscript]
  | some s => simp [namesInScope, hscript, isSome_defineInScript?]

theorem methodLocations_ne_nil_iff (w : Workspace) (name : String) :
    w.methodLocations name ≠ [] ↔ ∃ m ∈ w.index.methods, sameName m.name name = true := by
  simp [methodLocations, SymbolIndex.findMethods]

/-- The outcome of a search: a declaration in the script counts first, then methods of any script. -/
theorem define?_of_wordAt? {p : Position} {name : String} {range : Range}
    (h : w.wordAt? uri p = some (name, range)) :
    (∀ found, (w.script? uri).bind (w.defineInScript? uri p.line name) = some found →
        w.define? uri p = some (.single ⟨uri, found⟩)) ∧
      ((w.script? uri).bind (w.defineInScript? uri p.line name) = none →
        ((w.define? uri p).isSome = true ↔ w.methodLocations name ≠ [])) := by
  refine ⟨fun found hfound => by simp [define?, h, hfound], fun hnone => ?_⟩
  simp only [define?, h, hnone]
  match w.methodLocations name with
  | [] => simp
  | [_] => simp
  | _ :: _ :: _ => simp

/-- Where an identifier stands, its declaration is found exactly if it is suggested there, up to case: as
a variable, or as a method. If it is suggested as a variable, the declaration is a single place in the same
script. -/
theorem defined_iff_suggested (w : Workspace) (uri : Uri) (p : Position)
    (hgenuine : ∀ e ∈ w.index.entries, ∃ text, e.2 = Script.ofText e.1 text)
    (text : List Char) (htext : w.lineText? uri p.line = some text)
    (span : Name.WordSpan) (hspan : Name.identifierAt? text p.column = some span) :
    let name := String.ofList span.word
    let offered := w.suggestions uri p.line
    ((w.define? uri p).isSome = true ↔
        (∃ s ∈ offered, s.kind = .variable ∧ sameName s.label name = true) ∨
          ∃ m ∈ w.index.methods, ofMethod m ∈ offered ∧ sameName m.name name = true) ∧
      ((∃ s ∈ offered, s.kind = .variable ∧ sameName s.label name = true) →
        ∃ range, w.define? uri p = some (.single ⟨uri, range⟩)) := by
  intro name offered
  have hword : w.wordAt? uri p =
      some (name, ⟨⟨p.line, span.start⟩, ⟨p.line, span.stop⟩⟩) := by
    simp [wordAt?, htext, hspan, name]
  obtain ⟨hfirst, hthen⟩ := define?_of_wordAt? hword
  have hvariable : (∃ s ∈ offered, s.kind = .variable ∧ sameName s.label name = true) ↔
      ((w.script? uri).bind (w.defineInScript? uri p.line name)).isSome = true := by
    rw [isSome_bind_defineInScript?]
    exact exists_variable_suggested_iff hgenuine name
  have hmethod : (∃ m ∈ w.index.methods, ofMethod m ∈ offered ∧ sameName m.name name = true) ↔
      w.methodLocations name ≠ [] := by
    rw [methodLocations_ne_nil_iff]
    constructor
    · rintro ⟨m, hm, -, hsame⟩
      exact ⟨m, hm, hsame⟩
    · -- Every method is offered at every line.
      rintro ⟨m, hm, hsame⟩
      exact ⟨m, hm, ofMethod_mem_compose hm _ _ _, hsame⟩
  rw [hmethod, hvariable]
  cases hfound : (w.script? uri).bind (w.defineInScript? uri p.line name) with
  | none =>
      refine ⟨?_, fun h => by cases h⟩
      rw [hthen hfound]
      simp
  | some range =>
      rw [hfirst range hfound]
      exact ⟨by simp, fun _ => ⟨range, rfl⟩⟩

/-- A name that is written in another case stands for a local variable, although another script has a method
of that name. -/
theorem defined_iff_suggested_over_method :
    let uri : Uri := ⟨"file:///ws/a.ahk"⟩
    let other : Uri := ⟨"file:///ws/b.ahk"⟩
    let text := "add(x) \x7b\n  Sum := x\n  sum\n\x7d\n"
    let w : Workspace :=
      { documents := [(uri, Buffer.ofText text none)]
        index :=
          (SymbolIndex.store {} other (Script.ofText other "SUM() \x7b\n\x7d\n")).store uri
            (Script.ofText uri text) }
    (∀ e ∈ w.index.entries, ∃ text, e.2 = Script.ofText e.1 text) ∧
      w.lineText? uri 2 = some "  sum".toList ∧
      Name.identifierAt? "  sum".toList 3 = some ⟨"sum".toList, 2, 5⟩ ∧
      (w.suggestions uri 2).map (fun s => (s.kind, s.label)) =
        [(.method, "SUM"), (.method, "add(x)"), (.variable, "x"), (.variable, "Sum")] ∧
      (w.define? uri ⟨2, 3⟩).isSome = true ∧
      ∃ range, w.define? uri ⟨2, 3⟩ = some (.single ⟨uri, range⟩) ∧ range = ⟨⟨1, 2⟩, ⟨1, 5⟩⟩ := by
  intro uri other text w
  have hgenuine : ∀ e ∈ w.index.entries, ∃ text, e.2 = Script.ofText e.1 text :=
    (SymbolIndex.genuine_empty.store other _).store uri _
  have htext : w.lineText? uri 2 = some "  sum".toList := by decide +kernel
  have hspan : Name.identifierAt? "  sum".toList 3 = some ⟨"sum".toList, 2, 5⟩ := by decide +kernel
  have hvariable : ∃ s ∈ w.suggestions uri 2, s.kind = .variable ∧ sameName s.label "sum" = true := by
    decide +kernel
  obtain ⟨hfound, hsingle⟩ := defined_iff_suggested w uri ⟨2, 3⟩ hgenuine _ htext _ hspan
  obtain ⟨range, hrange⟩ := hsingle hvariable
  have hplace : w.define? uri ⟨2, 3⟩ = some (.single ⟨uri, ⟨⟨1, 2⟩, ⟨1, 5⟩⟩⟩) := by decide +kernel
  refine ⟨hgenuine, htext, hspan, by decide +kernel, hfound.2 (Or.inl hvariable), range, hrange, ?_⟩
  cases hrange.symm.trans hplace
  rfl

end Workspace
end ScriptSymbols
