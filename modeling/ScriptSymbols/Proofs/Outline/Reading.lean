import ScriptSymbols.Proofs.Outline.Block

/-!
# Readings of lines

An outline takes three things from a line: the method that it declares, the names that it assigns, and
its braces. A script is a function of these readings, so two texts can be compared line by line.

1. `Source.readings` lists the readings of a source, and `Source.getElem?_readings` gives each by itself.
2. `Script.ofSource_eq_ofReadings` makes a script from readings.
3. `Relabeling` changes what symbols are called, in a way that reading on does not notice.
   `Script.ofReadings_relabel` says that it may be applied before or after the lines are read.
-/

namespace ScriptSymbols

open Text

/-- What an outline takes from one line. -/
structure Reading where
  declared : Option Method
  names : List (List Char)
  braces : List Char

/-- Whether a character is a brace. -/
def isBrace (c : Char) : Bool :=
  c == '{' || c == '}'

namespace Source

/-- What is read from the first of some lines, where `above` lists the lines before it from the nearest
to the first. -/
def readingOf (uri : Uri) (above : List SourceLine) (line : SourceLine) (rest : List SourceLine) :
    Reading :=
  { declared := (declaration? (line :: rest)).map (Outline.methodOf uri above above.length)
    names := namesIn (line :: rest)
    braces := line.code.filter isBrace }

/-- The readings of some lines, where `above` lists the lines before them from the last to the first. -/
def readings (uri : Uri) (above : List SourceLine) : List SourceLine → List Reading
  | [] => []
  | line :: rest => readingOf uri above line rest :: readings uri (line :: above) rest

theorem length_readings (uri : Uri) (above rest : List SourceLine) :
    (readings uri above rest).length = rest.length := by
  induction rest generalizing above with
  | nil => rfl
  | cons line rest ih => simp [readings, ih]

theorem getElem?_readings_of_append (uri : Uri) {source above rest : List SourceLine}
    (hsource : source = above.reverse ++ rest) (i : Nat) :
    (readings uri above rest)[i]? = rest[i]?.map fun line =>
      readingOf uri (source.take (above.length + i)).reverse line
        (source.drop (above.length + i + 1)) := by
  induction rest generalizing above i with
  | nil => simp [readings]
  | cons line rest ih =>
      cases i with
      | zero =>
          have htake := take_above hsource 0
          have hdrop := drop_above hsource 1
          simp only [Nat.add_zero, List.take_zero, List.append_nil] at htake
          simp only [List.drop_succ_cons, List.drop_zero] at hdrop
          simp [readings, htake, hdrop]
      | succ i =>
          have hnext : source = (line :: above).reverse ++ rest := by
            simpa using hsource
          have hbelow := ih hnext i
          rw [List.length_cons, Nat.add_right_comm] at hbelow
          exact hbelow

/-- The reading of each line, from the lines above it and the lines below it. -/
theorem getElem?_readings (uri : Uri) (source : List SourceLine) (i : Nat) :
    (readings uri [] source)[i]? = source[i]?.map fun line =>
      readingOf uri (source.take i).reverse line (source.drop (i + 1)) := by
  have hall : source = [].reverse ++ source := rfl
  have hreading := getElem?_readings_of_append uri hall i
  rw [List.length_nil, Nat.zero_add] at hreading
  exact hreading

end Source

namespace Outline

/-! ## Outlines from readings -/

/-- The outline with a method opened, if there is one to open. -/
def openDeclared (line : Nat) (o : Outline) : Option Method → Outline
  | some m => (o.closeAt (line - 1)).openWith m
  | none => o

/-- Takes the reading of one line. -/
def read (line : Nat) (o : Outline) (r : Reading) : Outline :=
  r.braces.foldl (addChar line) (r.names.foldl (addName line) (o.openDeclared line r.declared))

/-- Takes the readings of some lines, of which the first is the given one. -/
def readAll (line : Nat) (o : Outline) : List Reading → Outline
  | [] => o
  | r :: rest => readAll (line + 1) (o.read line r) rest

theorem addChar_of_not_isBrace {c : Char} (h : isBrace c = false) (line : Nat) (o : Outline) :
    o.addChar line c = o := by
  have hopen : c ≠ '{' := by
    rintro rfl
    exact absurd h (by decide)
  have hclose : c ≠ '}' := by
    rintro rfl
    exact absurd h (by decide)
  simp [addChar, hopen, hclose]

/-- Of the code of a line, only its braces move an outline on. -/
theorem foldl_addChar_filter (line : Nat) (o : Outline) (code : List Char) :
    (code.filter isBrace).foldl (addChar line) o = code.foldl (addChar line) o := by
  induction code generalizing o with
  | nil => rfl
  | cons c code ih =>
      cases hc : isBrace c with
      | true => simp [hc, ih]
      | false => simp [hc, ih, addChar_of_not_isBrace hc]

theorem addLine_eq_read (uri : Uri) (above : List SourceLine) (o : Outline) (line : SourceLine)
    (rest : List SourceLine) :
    o.addLine uri above line rest = o.read above.length (Source.readingOf uri above line rest) := by
  have hstart : o.startLine uri above (line :: rest) =
      o.openDeclared above.length (Source.readingOf uri above line rest).declared := by
    cases hdecl : Source.declaration? (line :: rest) with
    | none => simp [startLine_of_none hdecl, Source.readingOf, openDeclared, hdecl]
    | some d => simp [startLine_of_some hdecl, Source.readingOf, openDeclared, hdecl]
  rw [addLine_eq, hstart, read, ← foldl_addChar_filter]
  rfl

theorem addLines_eq_readAll (uri : Uri) (above : List SourceLine) (o : Outline)
    (rest : List SourceLine) :
    addLines uri above o rest = readAll above.length o (Source.readings uri above rest) := by
  induction rest generalizing above o with
  | nil => rfl
  | cons line rest ih =>
      rw [addLines, ih, addLine_eq_read]
      rfl

end Outline

namespace Script

open Outline

/-- The script made from the readings of all lines. -/
def ofReadings (uri : Uri) (readings : List Reading) : Script :=
  let o := (readAll 0 {} readings).closeAt (readings.length - 1)
  { uri, methods := o.methods, globals := o.globals }

theorem ofSource_eq_ofReadings (uri : Uri) (source : List SourceLine) :
    Script.ofSource uri source = Script.ofReadings uri (Source.readings uri [] source) := by
  rw [ofSource, ofReadings, addLines_eq_readAll, Source.length_readings]
  rfl

end Script

/-! ## Relabeling -/

/-- Other labels for symbols. Lines stay what they are, and so does which names are the same and which
are keywords, so that nothing that an outline decides depends on the labels. -/
structure Relabeling where
  method : Method → Method
  global : Variable → Variable
  name : List Char → List Char
  method_line : ∀ m, (method m).line = m.line
  method_close : ∀ m line, method { m with endLine := line } = { method m with endLine := line }
  method_addVariable : ∀ m cs line,
    method (m.addVariable (String.ofList cs) line) =
      (method m).addVariable (String.ofList (name cs)) line
  global_new : ∀ cs line,
    global { name := String.ofList cs, line, owner := none } =
      { name := String.ofList (name cs), line, owner := none }
  declares_map : ∀ vs cs,
    declares (vs.map global) (String.ofList (name cs)) = declares vs (String.ofList cs)
  isReserved_name : ∀ cs, Name.isReserved (name cs) = Name.isReserved cs

/-- The reading with other labels. -/
def Reading.relabel (l : Relabeling) (r : Reading) : Reading :=
  { r with declared := r.declared.map l.method, names := r.names.map l.name }

/-- The open method with other labels. -/
def OpenMethod.relabel (l : Relabeling) (m : OpenMethod) : OpenMethod :=
  { m with method := l.method m.method }

/-- The script with other labels. -/
def Script.relabel (l : Relabeling) (s : Script) : Script :=
  { s with methods := s.methods.map l.method, globals := s.globals.map l.global }

theorem OpenMethod.close_relabel (l : Relabeling) (m : OpenMethod) (line : Nat) :
    (m.relabel l).close line = l.method (m.close line) := by
  have hlast : max line (l.method m.method).line = max line m.method.line := by
    rw [l.method_line]
  calc
    (m.relabel l).close line
        = { l.method m.method with endLine := max line m.method.line } :=
          congrArg (fun last => ({ l.method m.method with endLine := last } : Method)) hlast
    _ = l.method (m.close line) := (l.method_close m.method _).symm

namespace Outline

/-- The outline with other labels. -/
def relabel (l : Relabeling) (o : Outline) : Outline :=
  { o with
    methods := o.methods.map l.method
    current := o.current.map (OpenMethod.relabel l)
    globals := o.globals.map l.global }

variable (l : Relabeling)

theorem closeAt_relabel (o : Outline) (line : Nat) :
    (o.relabel l).closeAt line = (o.closeAt line).relabel l := by
  cases hcur : o.current with
  | none => simp [closeAt, relabel, hcur]
  | some cur => simp [closeAt, relabel, hcur, OpenMethod.close_relabel]

theorem addName_relabel (o : Outline) (line : Nat) (name : List Char) :
    (o.relabel l).addName line (l.name name) = (o.addName line name).relabel l := by
  unfold addName
  rw [l.isReserved_name]
  split
  · rfl
  · cases hcur : o.current with
    | some cur => simp [relabel, hcur, OpenMethod.relabel, l.method_addVariable]
    | none =>
        cases hknown : declares o.globals (String.ofList name) with
        | true => simp [relabel, hcur, l.declares_map, hknown]
        | false => simp [relabel, hcur, l.declares_map, hknown, l.global_new]

theorem addChar_relabel (o : Outline) (line : Nat) (c : Char) :
    (o.relabel l).addChar line c = (o.addChar line c).relabel l := by
  cases hcur : o.current with
  | none =>
      have hnone : (o.relabel l).current = none := by
        simp [relabel, hcur]
      rw [addChar_of_none _ c hcur, addChar_of_none _ c hnone]
      rfl
  | some cur =>
      have hsome : (o.relabel l).current = some (cur.relabel l) := by
        simp [relabel, hcur]
      rw [addChar_of_some _ c hcur, addChar_of_some _ c hsome]
      -- Whether the brace closes the method is decided by depths, which have no labels.
      by_cases hcloses : c = '}' ∧ cur.entered = true ∧ braceDepth o.depth c ≤ cur.startDepth
      · have hcloses' : c = '}' ∧ (cur.relabel l).entered = true ∧
            braceDepth (o.relabel l).depth c ≤ (cur.relabel l).startDepth := hcloses
        rw [if_pos hcloses, if_pos hcloses']
        simp [relabel, OpenMethod.close_relabel]
      · have hcloses' : ¬ (c = '}' ∧ (cur.relabel l).entered = true ∧
            braceDepth (o.relabel l).depth c ≤ (cur.relabel l).startDepth) := hcloses
        rw [if_neg hcloses, if_neg hcloses']
        rfl

theorem read_relabel (o : Outline) (line : Nat) (r : Reading) :
    (o.relabel l).read line (r.relabel l) = (o.read line r).relabel l := by
  have hopen : (o.relabel l).openDeclared line (r.relabel l).declared =
      (o.openDeclared line r.declared).relabel l := by
    cases hdecl : r.declared with
    | none => simp [Reading.relabel, hdecl, openDeclared]
    | some m =>
        simp only [Reading.relabel, hdecl, Option.map_some, openDeclared, closeAt_relabel]
        rfl
  rw [read, hopen, Reading.relabel, List.foldl_map,
    List.foldl_hom (relabel l) fun o name => addName_relabel l o line name]
  exact List.foldl_hom (relabel l) fun o c => addChar_relabel l o line c

theorem readAll_relabel (o : Outline) (line : Nat) (rs : List Reading) :
    readAll line (o.relabel l) (rs.map (Reading.relabel l)) = (readAll line o rs).relabel l := by
  induction rs generalizing o line with
  | nil => rfl
  | cons r rs ih => rw [List.map_cons, readAll, readAll, read_relabel, ih]

end Outline

/-- A script has other labels if its lines are read with other labels. -/
theorem Script.ofReadings_relabel (l : Relabeling) (uri : Uri) (rs : List Reading) :
    Script.ofReadings uri (rs.map (Reading.relabel l)) = (Script.ofReadings uri rs).relabel l := by
  have hrun : Outline.readAll 0 {} (rs.map (Reading.relabel l)) =
      (Outline.readAll 0 {} rs).relabel l := Outline.readAll_relabel l {} 0 rs
  rw [ofReadings, hrun, Outline.closeAt_relabel, List.length_map]
  rfl

end ScriptSymbols
