import ScriptSymbols.Script.Outline

/-!
# Steps of an outline

What one step can do to the symbols of an outline, said once for every later argument about a run.

* `Outline.openMethod?` is the open method without what is known of its braces.
* `Outline.SameSymbols` relates outlines that differ in nothing but braces.
* `Outline.addName_openMethod?` and `Outline.addName_globals`: a name goes to the open method if
  there is one, else to the file.
* `Outline.addChar_cases`: a character leaves the symbols alone or closes the open method.
* `Outline.addLine_eq` cuts a line into its declaration, its names and its braces.
* `Outline.foldl_addChar_induction` carries a property through the characters of a line.
-/

namespace ScriptSymbols

/-- The names that the first of some lines assigns. On a declaration these are the names in its
body, as far as it stands on the same line. -/
def Source.namesIn : List SourceLine → List (List Char)
  | [] => []
  | line :: rest =>
    match Source.declaration? (line :: rest) with
    | some d => (d.body.map Statement.assigned).getD []
    | none => Statement.assigned line.code

namespace Outline

/-! ## Symbols without braces -/

/-- The method that is open, if there is one. -/
def openMethod? (o : Outline) : Option Method :=
  o.current.map OpenMethod.method

/-- Two outlines that hold the same symbols. The depth of braces may differ. -/
structure SameSymbols (o o' : Outline) : Prop where
  methods : o.methods = o'.methods
  openMethod : o.openMethod? = o'.openMethod?
  globals : o.globals = o'.globals

/-! ## Closing the open method -/

theorem closeAt_of_none {o : Outline} (line : Nat) (h : o.openMethod? = none) :
    o.closeAt line = o := by
  have hcur : o.current = none := by
    simpa [openMethod?] using h
  simp [closeAt, hcur]

theorem closeAt_methods_of_some {o : Outline} {m : Method} (line : Nat)
    (h : o.openMethod? = some m) :
    (o.closeAt line).methods = o.methods ++ [{ m with endLine := max line m.line }] := by
  rcases Option.map_eq_some_iff.1 h with ⟨cur, hcur, rfl⟩
  simp [closeAt, hcur, OpenMethod.close]

@[simp]
theorem closeAt_openMethod? (o : Outline) (line : Nat) : (o.closeAt line).openMethod? = none := by
  cases hcur : o.current with
  | none => simp [closeAt, openMethod?, hcur]
  | some cur => simp [closeAt, openMethod?, hcur]

@[simp]
theorem closeAt_globals (o : Outline) (line : Nat) : (o.closeAt line).globals = o.globals := by
  cases hcur : o.current with
  | none => simp [closeAt, hcur]
  | some cur => simp [closeAt, hcur]

/-! ## One name -/

@[simp]
theorem addName_methods (line : Nat) (o : Outline) (name : List Char) :
    (o.addName line name).methods = o.methods := by
  cases hcur : o.current with
  | none =>
      simp only [addName, hcur]
      split
      · rfl
      · split <;> rfl
  | some cur =>
      simp only [addName, hcur]
      split <;> rfl

theorem addName_of_isReserved {line : Nat} {o : Outline} {name : List Char}
    (h : Name.isReserved name = true) : o.addName line name = o := by
  simp [addName, h]

/-- A name that is no keyword goes to the method that is open. -/
theorem addName_openMethod? {line : Nat} {o : Outline} {name : List Char}
    (h : Name.isReserved name = false) :
    (o.addName line name).openMethod? =
      o.openMethod?.map (·.addVariable (String.ofList name) line) := by
  cases hcur : o.current with
  | none =>
      by_cases hknown : declares o.globals (String.ofList name) = true
      · simp [addName, hcur, h, openMethod?, hknown]
      · simp [addName, hcur, h, openMethod?, hknown]
  | some cur => simp [addName, hcur, h, openMethod?]

/-- A name that is no keyword goes to the file if no method is open and the name is new there. -/
theorem addName_globals {line : Nat} {o : Outline} {name : List Char}
    (h : Name.isReserved name = false) :
    (o.addName line name).globals =
      if o.openMethod?.isSome || declares o.globals (String.ofList name) then o.globals
      else o.globals ++ [{ name := String.ofList name, line, owner := none }] := by
  cases hcur : o.current with
  | none =>
      by_cases hknown : declares o.globals (String.ofList name) = true
      · simp [addName, hcur, h, openMethod?, hknown]
      · simp [addName, hcur, h, openMethod?, hknown]
  | some cur => simp [addName, hcur, h, openMethod?]

/-! ## One character -/

/-- A character leaves the symbols as they are, or it closes the open method on its line. -/
theorem addChar_cases (line : Nat) (o : Outline) (c : Char) :
    (o.addChar line c).SameSymbols o ∨ (o.addChar line c).SameSymbols (o.closeAt line) := by
  unfold addChar
  split
  · -- An opening brace marks the open method as entered, which is no part of its symbols.
    refine Or.inl ⟨rfl, ?_, rfl⟩
    cases hcur : o.current with
    | none => simp [openMethod?, hcur]
    | some cur => simp [openMethod?, hcur]
  · split
    · cases hcur : o.current with
      | none =>
          refine Or.inl ⟨rfl, ?_, rfl⟩
          simp [openMethod?, hcur]
      | some cur =>
          by_cases hcloses : (cur.entered && decide (o.depth - 1 ≤ cur.startDepth)) = true
          · right
            simp only [hcloses, if_true]
            constructor <;> simp [closeAt, openMethod?, hcur]
          · left
            simp only [hcloses]
            constructor <;> simp [openMethod?, hcur]
    · exact Or.inl ⟨rfl, rfl, rfl⟩

/-- A property of the symbols that closing on a line preserves survives all characters of it. -/
theorem foldl_addChar_induction {P : Outline → Prop} {line : Nat}
    (same : ∀ o o' : Outline, o'.SameSymbols o → P o → P o')
    (close : ∀ o : Outline, P o → P (o.closeAt line)) :
    ∀ (code : List Char) (o : Outline), P o → P (code.foldl (addChar line) o) := by
  intro code o h
  refine List.foldlRecOn code (addChar line) h ?_
  intro a ha c _hc
  rcases addChar_cases line a c with hsame | hclose
  · exact same a _ hsame ha
  · exact same (a.closeAt line) _ hclose (close a ha)

/-! ## Opening a method -/

/-- The outline with a method opened at the present depth. -/
def openWith (m : Method) (o : Outline) : Outline :=
  { o with current := some { method := m, startDepth := o.depth, entered := false } }

@[simp]
theorem openWith_methods (m : Method) (o : Outline) : (o.openWith m).methods = o.methods := rfl

@[simp]
theorem openWith_globals (m : Method) (o : Outline) : (o.openWith m).globals = o.globals := rfl

@[simp]
theorem openWith_openMethod? (m : Method) (o : Outline) :
    (o.openWith m).openMethod? = some m := rfl

/-! ## One line -/

/-- The outline once the declaration on a line, if there is one, has closed what was open above it
and has opened its own method. -/
def startLine (uri : Uri) (above : List SourceLine) (o : Outline) (lines : List SourceLine) :
    Outline :=
  match Source.declaration? lines with
  | some d => (o.closeAt (above.length - 1)).openWith (methodOf uri above above.length d)
  | none => o

theorem startLine_of_none {uri : Uri} {above : List SourceLine} {o : Outline}
    {lines : List SourceLine} (h : Source.declaration? lines = none) :
    o.startLine uri above lines = o := by
  simp [startLine, h]

theorem startLine_of_some {uri : Uri} {above : List SourceLine} {o : Outline}
    {lines : List SourceLine} {d : Source.Declaration} (h : Source.declaration? lines = some d) :
    o.startLine uri above lines =
      (o.closeAt (above.length - 1)).openWith (methodOf uri above above.length d) := by
  simp [startLine, h]

/-- A line is read in three steps: its declaration, the names that it assigns, and its braces. -/
theorem addLine_eq (uri : Uri) (above : List SourceLine) (o : Outline) (line : SourceLine)
    (rest : List SourceLine) :
    o.addLine uri above line rest =
      line.code.foldl (addChar above.length)
        ((Source.namesIn (line :: rest)).foldl (addName above.length)
          (o.startLine uri above (line :: rest))) := by
  simp only [addLine]
  cases hdecl : Source.declaration? (line :: rest) with
  | none => simp [startLine_of_none hdecl, Source.namesIn, hdecl, addNames]
  | some d =>
      cases hbody : d.body with
      | none => simp [startLine_of_some hdecl, Source.namesIn, hdecl, declare, openWith, hbody]
      | some body =>
          simp [startLine_of_some hdecl, Source.namesIn, hdecl, declare, openWith, addNames, hbody]

end Outline
end ScriptSymbols
