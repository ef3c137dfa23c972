import ScriptSymbols.Proofs.Index.Store
import ScriptSymbols.Proofs.Outline.Names
import ScriptSymbols.Proofs.Text.Units
import ScriptSymbols.Workspace.Query

/-!
# The tree of symbols

The symbols of a script form a tree of two levels. Their lines come from the indexed script; their columns come
from the open buffer, which may hold another text, and fall back to the start of the line. Whatever the buffer
holds, ranges lie inside one another as the tree has them.

1. `Workspace.exists_nameRange`: a name takes a part of one line, and no more than the line has.
2. `Script.line_mem_extent`: the lines of local variables lie in the extent of their method.
3. `Workspace.wellFormed_methodSymbol` and `Workspace.wellFormed_variableSymbol` are the two kinds of symbols.
4. `Workspace.outline_is_well_formed` is the whole tree, with each symbol in its place.
-/

namespace ScriptSymbols

open Text

/-! ## Ranges in one another -/

/-- Positions are ordered by their line, and on one line by their column. -/
instance : LE Position where
  le p q := p.line < q.line ∨ p.line = q.line ∧ p.column ≤ q.column

namespace Position

theorem le_iff {p q : Position} :
    p ≤ q ↔ p.line < q.line ∨ p.line = q.line ∧ p.column ≤ q.column := Iff.rfl

theorem le_trans {p q r : Position} (hpq : p ≤ q) (hqr : q ≤ r) : p ≤ r := by
  rw [le_iff] at *
  omega

theorem le_total (p q : Position) : p ≤ q ∨ q ≤ p := by
  rw [le_iff, le_iff]
  omega

end Position

namespace Range

/-- Whether a range ends no earlier than it starts. -/
def IsForward (r : Range) : Prop :=
  r.start ≤ r.stop

/-- Whether a range lies inside another one. -/
def Within (inner outer : Range) : Prop :=
  outer.start ≤ inner.start ∧ inner.stop ≤ outer.stop

theorem Within.refl (r : Range) : r.Within r := by
  simp [Within, Position.le_iff]

end Range

/-- Whether the ranges of a symbol run forward, and that of its name lies inside it. -/
structure SymbolNode.WellFormed (n : SymbolNode) : Prop where
  range : n.range.IsForward
  selection : n.selection.IsForward
  within : n.selection.Within n.range

/-- Whether a symbol and those inside it are well-formed, and lie inside it. -/
structure OutlineSymbol.WellFormed (s : OutlineSymbol) : Prop where
  node : s.node.WellFormed
  children : ∀ child ∈ s.children, child.WellFormed
  within : ∀ child ∈ s.children, child.range.Within s.node.range

/-- What a symbol stands for: its kind, its name, the line that it starts on, and the names inside it. -/
def OutlineSymbol.heading (s : OutlineSymbol) : SuggestionKind × String × Nat × List String :=
  (s.node.kind, s.node.name, s.node.range.start.line, s.children.map (·.name))

/-! ## Names on lines -/

/-- The columns of a name follow one another and lie on the line. -/
theorem Name.span?_bounds {line name : List Char} {start stop : Nat}
    (h : span? line name = some (start, stop)) : start ≤ stop ∧ stop ≤ units line := by
  unfold span? at h
  dsimp only at h
  split at h
  · cases h
  · obtain ⟨offset, -, hcolumns⟩ := Option.map_eq_some_iff.1 h
    cases hcolumns
    exact ⟨columnOfByte_mono line (Nat.le_add_right _ _), columnOfByte_le_units line _⟩

namespace Workspace

variable (w : Workspace) (uri : Uri)

/-- A name takes a part of its line, whatever the line has. -/
theorem exists_nameRange (line : Nat) (name : String) :
    ∃ start stop, w.nameRange uri line name = ⟨⟨line, start⟩, ⟨line, stop⟩⟩ ∧
      start ≤ stop ∧ stop ≤ (w.lineEnd uri line).column := by
  unfold nameRange lineEnd
  cases hline : w.lineText? uri line with
  | none => exact ⟨0, 0, rfl, Nat.le_refl 0, Nat.le_refl 0⟩
  | some text =>
      cases hspan : Name.span? text name.toList with
      | none =>
          refine ⟨0, 0, ?_, Nat.le_refl 0, Nat.zero_le _⟩
          simp [hspan]
      | some span =>
          obtain ⟨horder, hbound⟩ := Name.span?_bounds hspan
          exact ⟨span.1, span.2, by simp [hspan], horder, hbound⟩

theorem isForward_nameRange (line : Nat) (name : String) :
    (w.nameRange uri line name).IsForward := by
  obtain ⟨start, stop, hrange, horder, -⟩ := exists_nameRange w uri line name
  rw [hrange]
  exact Or.inr ⟨rfl, horder⟩

/-- A name lies inside whole lines of which its own is one. -/
theorem nameRange_within {first line last : Nat} (hfirst : first ≤ line) (hlast : line ≤ last)
    (name : String) :
    (w.nameRange uri line name).Within ⟨⟨first, 0⟩, w.lineEnd uri last⟩ := by
  obtain ⟨start, stop, hrange, -, hbound⟩ := exists_nameRange w uri line name
  rw [hrange]
  constructor
  · rcases Nat.lt_or_eq_of_le hfirst with hlt | rfl
    · exact Or.inl hlt
    · exact Or.inr ⟨rfl, Nat.zero_le _⟩
  · -- On the last line itself the end of the line is what bounds the name.
    rcases Nat.lt_or_eq_of_le hlast with hlt | rfl
    · exact Or.inl hlt
    · exact Or.inr ⟨rfl, hbound⟩

/-! ## The two kinds of symbols -/

theorem wellFormed_variableNode (v : Variable) : (w.variableNode uri v).WellFormed where
  range := isForward_nameRange w uri v.line v.name
  selection := isForward_nameRange w uri v.line v.name
  within := Range.Within.refl _

theorem wellFormed_variableSymbol (v : Variable) : (w.variableSymbol uri v).WellFormed where
  node := wellFormed_variableNode w uri v
  children := by simp [variableSymbol]
  within := by simp [variableSymbol]

end Workspace

/-- A method of a script does not end before it starts, and its variables are assigned on its lines. -/
theorem Script.line_mem_extent {uri : Uri} {text : String} {m : Method}
    (h : m ∈ (Script.ofText uri text).methods) :
    m.line ≤ m.endLine ∧ ∀ v ∈ m.locals, m.line ≤ v.line ∧ v.line ≤ m.endLine := by
  refine ⟨(finished_ordered uri (Source.ofText text.toList)).nonempty m h, ?_⟩
  intro v hv
  -- The locals of a method are made from the assignments on its lines.
  rw [(finished_attributed uri (Source.ofText text.toList)).closed m h] at hv
  obtain ⟨a, ha, -, hline⟩ := Assignment.exists_of_mem_toVariables hv
  have hholds : m.containsLine a.line = true :=
    (List.mem_filter.1 (List.mem_filter.1 ha).1).2
  rw [hline]
  simpa [Method.containsLine] using hholds

namespace Workspace

theorem wellFormed_methodSymbol (w : Workspace) (uri : Uri) {m : Method} (hextent : m.line ≤ m.endLine)
    (hlocals : ∀ v ∈ m.locals, m.line ≤ v.line ∧ v.line ≤ m.endLine) :
    (w.methodSymbol uri m).WellFormed where
  node :=
    { range := by
        -- A method on one line starts in its first column.
        rcases Nat.lt_or_eq_of_le hextent with hlt | heq
        · exact Or.inl hlt
        · exact Or.inr ⟨heq, Nat.zero_le _⟩
      selection := isForward_nameRange w uri m.line m.name
      within := nameRange_within w uri (Nat.le_refl _) hextent m.name }
  children := by
    intro child hchild
    obtain ⟨v, -, rfl⟩ := List.mem_map.1 hchild
    exact wellFormed_variableNode w uri v
  within := by
    intro child hchild
    obtain ⟨v, hv, rfl⟩ := List.mem_map.1 hchild
    exact nameRange_within w uri (hlocals v hv).1 (hlocals v hv).2 v.name

/-! ## The whole tree -/

theorem startsBefore_iff {a b : OutlineSymbol} :
    startsBefore a b = true ↔ a.node.range.start ≤ b.node.range.start := by
  simp [startsBefore, Position.le_iff]

/-- The symbols of a script are sorted by their start. -/
theorem pairwise_mergeSort_startsBefore (symbols : List OutlineSymbol) :
    (symbols.mergeSort startsBefore).Pairwise
      fun a b => a.node.range.start ≤ b.node.range.start := by
  have hsorted : (symbols.mergeSort startsBefore).Pairwise (startsBefore · · = true) := by
    apply List.pairwise_mergeSort
    · intro a b c hab hbc
      exact startsBefore_iff.2 (Position.le_trans (startsBefore_iff.1 hab) (startsBefore_iff.1 hbc))
    · intro a b
      rw [Bool.or_eq_true, startsBefore_iff, startsBefore_iff]
      exact Position.le_total _ _
  exact hsorted.imp startsBefore_iff.1

theorem heading_methodSymbol (w : Workspace) (uri : Uri) (m : Method) :
    (w.methodSymbol uri m).heading = (.method, m.name, m.line, m.locals.map Variable.name) := by
  simp [OutlineSymbol.heading, methodSymbol, variableNode]

theorem heading_variableSymbol (w : Workspace) (uri : Uri) (v : Variable) :
    (w.variableSymbol uri v).heading = (.variable, v.name, v.line, []) := by
  obtain ⟨start, stop, hrange, -⟩ := exists_nameRange w uri v.line v.name
  simp [OutlineSymbol.heading, variableSymbol, variableNode, hrange]

/-- The symbols of an indexed script form a well-formed tree, whether the script is open or not and whatever
its buffer holds. At the top there is one symbol for each method, with its variables inside, and one for each
variable of the file, sorted by their start. All ranges run forward, the range of a name lies inside that of
its symbol, and the range of a symbol inside another one lies inside that of the other one. -/
theorem outline_is_well_formed (w : Workspace) (uri : Uri) (s : Script)
    (hgenuine : ∀ e ∈ w.index.entries, ∃ text, e.2 = Script.ofText e.1 text)
    (hscript : w.script? uri = some s) :
    ∃ symbols, w.outline? uri = some symbols ∧
      (symbols.map OutlineSymbol.heading).Perm
        ((s.methods.map fun m =>
            (SuggestionKind.method, m.name, m.line, m.locals.map Variable.name)) ++
          s.globals.map fun v => (SuggestionKind.variable, v.name, v.line, [])) ∧
      (symbols.Pairwise fun a b => a.node.range.start ≤ b.node.range.start) ∧
      ∀ symbol ∈ symbols, symbol.WellFormed := by
  obtain ⟨text, htext⟩ := hgenuine _ (Entries.mem_of_lookup hscript)
  obtain rfl : s = Script.ofText uri text := htext
  -- Sorting keeps the symbols, so what holds of each of them before holds of the sorted list.
  have hperm := List.mergeSort_perm
    ((Script.ofText uri text).methods.map (w.methodSymbol uri) ++
      (Script.ofText uri text).globals.map (w.variableSymbol uri)) startsBefore
  refine ⟨_, by rw [outline?, hscript]; rfl, ?_, pairwise_mergeSort_startsBefore _, ?_⟩
  · have hheadings := hperm.map OutlineSymbol.heading
    simpa [List.map_map, Function.comp_def, heading_methodSymbol, heading_variableSymbol]
      using hheadings
  · intro symbol hsymbol
    rcases List.mem_append.1 (hperm.mem_iff.1 hsymbol) with hmethod | hvariable
    · obtain ⟨m, hm, rfl⟩ := List.mem_map.1 hmethod
      obtain ⟨hextent, hlocals⟩ := Script.line_mem_extent hm
      exact wellFormed_methodSymbol w uri hextent hlocals
    · obtain ⟨v, -, rfl⟩ := List.mem_map.1 hvariable
      exact wellFormed_variableSymbol w uri v

/-- The open buffer has other lines than the indexed script: fewer, and the names on other ones. -/
theorem outline_is_well_formed_over_other_text :
    let uri : Uri := ⟨"file:///ws/a.ahk"⟩
    let s := Script.ofText uri "count := 0\nadd(x) \x7b\n  sum := x\n\x7d\n"
    let w : Workspace :=
      { documents := [(uri, Buffer.ofText "sum\n count := add" none)]
        index := { entries := [(uri, s)] } }
    (∀ e ∈ w.index.entries, ∃ text, e.2 = Script.ofText e.1 text) ∧
      w.script? uri = some s ∧ s.methods.length = 1 ∧ s.globals.length = 1 ∧
      w.nameRange uri 1 "add" = ⟨⟨1, 10⟩, ⟨1, 13⟩⟩ ∧
      ∃ symbols, w.outline? uri = some symbols ∧
        (symbols.map OutlineSymbol.heading).Perm
          ((s.methods.map fun m =>
              (SuggestionKind.method, m.name, m.line, m.locals.map Variable.name)) ++
            s.globals.map fun v => (SuggestionKind.variable, v.name, v.line, [])) ∧
        (symbols.Pairwise fun a b => a.node.range.start ≤ b.node.range.start) ∧
        ∀ symbol ∈ symbols, symbol.WellFormed := by
  intro uri s w
  have hgenuine : ∀ e ∈ w.index.entries, ∃ text, e.2 = Script.ofText e.1 text := by
    intro e he
    obtain rfl : e = (uri, s) := by
      simpa [w] using he
    exact ⟨_, rfl⟩
  have hscript : w.script? uri = some s := by
    simp [script?, SymbolIndex.get?, w]
  exact ⟨hgenuine, hscript, by decide +kernel, by decide +kernel, by decide +kernel,
    outline_is_well_formed w uri s hgenuine hscript⟩

end Workspace
end ScriptSymbols
