import ScriptSymbols.Proofs.Outline.Extent
import ScriptSymbols.Proofs.Outline.View
import ScriptSymbols.Proofs.Statement.CaseFolding

/-!
# Scripts up to case

Texts that differ in the case of letters have scripts that differ in the case of letters, as long as the
word `static` stands in lower case before the same declarations.

1. `Source.ofText_foldCase` folds the lines of a text with their code.
2. `Source.declaresStatic` says that a line declares a method with the word `static` in front.
   `Source.declaration?_foldCase_eq` and `Source.declaresStatic_eq` say that declarations see no more of case.
3. `Relabeling.foldCase` folds the labels of symbols. Nothing else that is read from a line has a case.
4. `Script.case_shows_only_in_static` puts these together for whole texts.
-/

namespace ScriptSymbols

open Text

/-! ## Lines with their code -/

/-- The line and its code in lower case. -/
def SourceLine.foldCase (line : SourceLine) : SourceLine :=
  { raw := Text.foldCase line.raw, code := Text.foldCase line.code }

namespace Source

theorem opensComment_foldCase (raw : List Char) : opensComment (foldCase raw) = opensComment raw := by
  rw [opensComment, trimStart_foldCase, isPrefixOf_foldCase (by simp), opensComment]

theorem closesComment_foldCase (raw : List Char) :
    closesComment (foldCase raw) = closesComment raw :=
  occursIn_foldCase (by simp) raw

theorem ofLinesFrom_foldCase (inComment : Bool) (lines : List (List Char)) :
    ofLinesFrom inComment (lines.map foldCase) =
      (ofLinesFrom inComment lines).map SourceLine.foldCase := by
  induction lines generalizing inComment with
  | nil => rfl
  | cons raw rest ih =>
      rw [List.map_cons, ofLinesFrom, ofLinesFrom, opensComment_foldCase, closesComment_foldCase,
        Skeleton.skeleton_foldCase, ih, ih]
      split <;> rfl

theorem ofText_foldCase (text : List Char) :
    ofText (foldCase text) = (ofText text).map SourceLine.foldCase := by
  rw [ofText, lines_foldCase]
  exact ofLinesFrom_foldCase false (lines text)

theorem commentText_foldCase (raw : List Char) :
    commentText (foldCase raw) = foldCase (commentText raw) := by
  have hmark : CaseBlind fun c => c == ';' := caseBlind_beq rfl
  rw [commentText, trim_foldCase, dropWhile_foldCase _ hmark, trim_foldCase, commentText]

theorem commentOf?_foldCase (above : List SourceLine) :
    commentOf? (above.map SourceLine.foldCase) = (commentOf? above).map foldCase := by
  have hnote : ((fun line : SourceLine => (trim line.raw).head? == some ';') ∘ SourceLine.foldCase) =
      fun line => (trim line.raw).head? == some ';' := by
    funext line
    rw [Function.comp_apply, SourceLine.foldCase, trim_foldCase]
    exact head?_foldCase_beq _ rfl
  have htexts : ∀ block : List SourceLine,
      (block.map SourceLine.foldCase).map (fun line => commentText line.raw) =
        (block.map fun line => commentText line.raw).map foldCase := by
    intro block
    rw [List.map_map, List.map_map]
    exact List.map_congr_left fun line _hline => commentText_foldCase line.raw
  have hjoin : ∀ texts : List (List Char),
      trim (join ['\n'] (texts.map foldCase)) = foldCase (trim (join ['\n'] texts)) := by
    intro texts
    rw [← trim_foldCase, foldCase_join]
    rfl
  unfold commentOf?
  simp only [List.takeWhile_map, hnote, htexts, ← List.map_reverse, hjoin, isEmpty_foldCase]
  split <;> rfl

/-! ## Declarations -/

/-- The declaration with its texts in lower case. -/
def Declaration.foldCase (d : Declaration) : Declaration :=
  { name := Text.foldCase d.name
    params := Text.foldCase d.params
    body := d.body.map Text.foldCase }

/-- Whether the first of some lines starts with the word `static` in lower case. -/
def startsStatic (lines : List SourceLine) : Bool :=
  lines.head?.any fun line => Statement.hasStatic line.code

/-- Whether the first of some lines declares a method with the word `static` in lower case before it. -/
def declaresStatic (lines : List SourceLine) : Bool :=
  (declaration? lines).isSome && startsStatic lines

/-- The numbers of the lines that declare a method with the word `static` in lower case before it. -/
def staticLines (source : List SourceLine) : List Nat :=
  (List.range source.length).filter fun i => declaresStatic (source.drop i)

theorem opensBlock_foldCase (lines : List SourceLine) :
    opensBlock (lines.map SourceLine.foldCase) = opensBlock lines := by
  have hcodes : (lines.map SourceLine.foldCase).map SourceLine.code =
      (lines.map SourceLine.code).map foldCase := by
    rw [List.map_map, List.map_map]
    rfl
  have hblank : ((fun code => !allBlank code) ∘ foldCase) = fun code => !allBlank code :=
    funext fun code => congrArg not (allBlank_foldCase code)
  rw [opensBlock_eq, opensBlock_eq, hcodes, List.find?_map, hblank]
  cases (lines.map SourceLine.code).find? fun code => !allBlank code with
  | none => rfl
  | some code =>
      rw [Option.map_some, Option.any_some, Option.any_some, trimStart_foldCase]
      exact head?_foldCase_beq _ rfl

/-- The declaration that a header makes, if a block is opened. -/
def declarationOf? (opened : Bool) (header : Statement.Header) : Option Declaration :=
  if Name.isReserved header.name then none
  else if header.body.isSome || opened then
    some
      { name := header.name
        params := header.params
        body := (header.body.map trim).filter (!·.isEmpty) }
  else none

theorem declaration?_cons (line : SourceLine) (rest : List SourceLine) :
    declaration? (line :: rest) =
      (Statement.header? line.code).bind (declarationOf? (opensBlock rest)) := by
  rw [declaration?]
  cases Statement.header? line.code <;> rfl

theorem declarationOf?_foldCase (opened : Bool) (header : Statement.Header) :
    declarationOf? opened header.foldCase =
      (declarationOf? opened header).map Declaration.foldCase := by
  have hbody : ((header.body.map foldCase).map trim).filter (!·.isEmpty) =
      ((header.body.map trim).filter (!·.isEmpty)).map foldCase := by
    cases header.body with
    | none => rfl
    | some body =>
        simp only [Option.map_some, Option.filter_some, trim_foldCase, isEmpty_foldCase]
        split <;> rfl
  simp only [declarationOf?, Statement.Header.foldCase, Name.isReserved_foldCase, Option.isSome_map,
    hbody]
  split
  · rfl
  · split <;> rfl

theorem declaration?_cons_foldCase (line : SourceLine) (rest : List SourceLine) :
    (declaration? (line :: rest)).map Declaration.foldCase =
      ((Statement.header? line.code).map Statement.Header.foldCase).bind
        (declarationOf? (opensBlock (rest.map SourceLine.foldCase))) := by
  rw [declaration?_cons, opensBlock_foldCase]
  cases Statement.header? line.code with
  | none => rfl
  | some header => exact (declarationOf?_foldCase _ header).symm

section TwoSources

variable {lines lines' : List SourceLine}
  (h : lines.map SourceLine.foldCase = lines'.map SourceLine.foldCase)

include h

/-- Lines that are equal up to case have the same declaration up to case, or one of them has none because
the word `static` does not stand before it in lower case. -/
theorem declaration?_foldCase_cases :
    (declaration? lines).map Declaration.foldCase = (declaration? lines').map Declaration.foldCase ∧
        startsStatic lines = startsStatic lines' ∨
      declaration? lines = none ∧ startsStatic lines' = true ∨
      declaration? lines' = none ∧ startsStatic lines = true := by
  cases lines with
  | nil =>
      cases List.map_eq_nil_iff.1 h.symm
      exact Or.inl ⟨rfl, rfl⟩
  | cons line rest =>
      obtain ⟨line', rest', rfl, hline, hrest⟩ := List.map_eq_cons_iff.1 h.symm
      have hcode : foldCase line.code = foldCase line'.code :=
        congrArg SourceLine.code hline.symm
      by_cases hstatic : Statement.hasStatic line.code = Statement.hasStatic line'.code
      · refine Or.inl ⟨?_, hstatic⟩
        rw [declaration?_cons_foldCase, declaration?_cons_foldCase, hrest,
          Statement.header?_of_foldCase_eq hcode hstatic]
      -- Only one of the lines has the word in lower case, and the other one is no header.
      · cases hword : Statement.hasStatic line.code with
        | true =>
            have hword' : Statement.hasStatic line'.code = false := by
              simpa [hword] using hstatic
            refine Or.inr (Or.inr ⟨?_, hword⟩)
            rw [declaration?_cons, Statement.header?_eq_none_of_hasStatic hcode hword hword']
            rfl
        | false =>
            have hword' : Statement.hasStatic line'.code = true := by
              simpa [hword] using hstatic
            refine Or.inr (Or.inl ⟨?_, hword'⟩)
            rw [declaration?_cons, Statement.header?_eq_none_of_hasStatic hcode.symm hword' hword]
            rfl

theorem declaration?_foldCase_eq (hstatic : declaresStatic lines = declaresStatic lines') :
    (declaration? lines).map Declaration.foldCase =
      (declaration? lines').map Declaration.foldCase := by
  rcases declaration?_foldCase_cases h with ⟨heq, -⟩ | ⟨hnone, hstarts'⟩ | ⟨hnone', hstarts⟩
  · exact heq
  · have hnone' : declaration? lines' = none := by
      simpa [declaresStatic, hnone, hstarts'] using hstatic
    rw [hnone, hnone']
  · have hnone : declaration? lines = none := by
      simpa [declaresStatic, hnone', hstarts] using hstatic
    rw [hnone, hnone']

theorem declaresStatic_eq (hsome : (declaration? lines).isSome = (declaration? lines').isSome) :
    declaresStatic lines = declaresStatic lines' := by
  rcases declaration?_foldCase_cases h with ⟨-, hstarts⟩ | ⟨hnone, -⟩ | ⟨hnone', -⟩
  · rw [declaresStatic, declaresStatic, hsome, hstarts]
  · rw [hnone] at hsome
    rw [declaresStatic, declaresStatic, hnone, ← hsome]
    rfl
  · rw [hnone'] at hsome
    rw [declaresStatic, declaresStatic, hnone', hsome]
    rfl

end TwoSources
end Source

/-! ## Symbols -/

namespace Text

/-- The string with the letters A to Z in lower case. -/
def foldString (s : String) : String :=
  String.ofList (foldCase s.toList)

theorem foldString_ofList (cs : List Char) : foldString (String.ofList cs) = String.ofList (foldCase cs) := by
  rw [foldString, String.toList_ofList]

theorem sameName_foldString (name : String) (cs : List Char) :
    sameName (foldString name) (String.ofList (foldCase cs)) = sameName name (String.ofList cs) := by
  simp [sameName, foldString, sameFolded, foldCase_foldCase]

end Text

/-- The variable with its names in lower case. -/
def Variable.foldCase (v : Variable) : Variable :=
  { v with name := foldString v.name, owner := v.owner.map foldString }

/-- The method with its texts and the names of its parameters and variables in lower case. -/
def Method.foldCase (m : Method) : Method :=
  { m with
    name := foldString m.name
    signature := foldString m.signature
    params := m.params.map foldString
    comment := m.comment.map foldString
    locals := m.locals.map Variable.foldCase }

/-- The script with its symbols in lower case. -/
def Script.foldCase (s : Script) : Script :=
  { s with methods := s.methods.map Method.foldCase, globals := s.globals.map Variable.foldCase }

theorem declares_foldCase (vs : List Variable) (cs : List Char) :
    declares (vs.map Variable.foldCase) (String.ofList (foldCase cs)) =
      declares vs (String.ofList cs) := by
  simp [declares, List.any_map, Function.comp_def, Variable.foldCase, sameName_foldString]

theorem Method.addVariable_foldCase (m : Method) (cs : List Char) (line : Nat) :
    (m.addVariable (String.ofList cs) line).foldCase =
      m.foldCase.addVariable (String.ofList (Text.foldCase cs)) line := by
  have hparams : m.foldCase.params.any (sameName · (String.ofList (Text.foldCase cs))) =
      m.params.any (sameName · (String.ofList cs)) := by
    simp [Method.foldCase, List.any_map, Function.comp_def, sameName_foldString]
  have hlocals : declares m.foldCase.locals (String.ofList (Text.foldCase cs)) =
      declares m.locals (String.ofList cs) := declares_foldCase m.locals cs
  rw [addVariable, addVariable, hparams, hlocals]
  split
  · rfl
  · simp [Method.foldCase, Variable.foldCase, foldString_ofList]

/-- Gives symbols their labels in lower case. -/
def Relabeling.foldCase : Relabeling where
  method := Method.foldCase
  global := Variable.foldCase
  name := Text.foldCase
  method_line _ := rfl
  method_close _ _ := rfl
  method_addVariable := Method.addVariable_foldCase
  global_new cs line := by simp [Variable.foldCase, foldString_ofList]
  declares_map := declares_foldCase
  isReserved_name := Name.isReserved_foldCase

theorem Outline.methodOf_foldCase (uri : Uri) (above : List SourceLine) (line : Nat)
    (d : Source.Declaration) :
    (methodOf uri above line d).foldCase =
      methodOf uri (above.map SourceLine.foldCase) line d.foldCase := by
  have hsignature : foldCase (d.name ++ ('(' :: trim d.params ++ [')'])) =
      foldCase d.name ++ ('(' :: trim (foldCase d.params) ++ [')']) := by
    rw [trim_foldCase, foldCase_append, foldCase_append]
    rfl
  have hparams : ((Statement.paramNames d.params).map String.ofList).map foldString =
      (Statement.paramNames (foldCase d.params)).map String.ofList := by
    rw [Statement.paramNames_foldCase, List.map_map, List.map_map]
    exact List.map_congr_left fun name _hname => foldString_ofList name
  have hcomment : ((Source.commentOf? above).map String.ofList).map foldString =
      (Source.commentOf? (above.map SourceLine.foldCase)).map String.ofList := by
    rw [Source.commentOf?_foldCase, Option.map_map, Option.map_map]
    exact congrArg (Option.map · _) (funext foldString_ofList)
  simp only [methodOf, Method.foldCase, Source.Declaration.foldCase, foldString_ofList, hsignature,
    hparams, hcomment, List.map_nil]

/-! ## Readings -/

namespace Source

theorem namesIn_foldCase (line : SourceLine) (rest : List SourceLine) :
    (namesIn (line :: rest)).map foldCase =
      ((declaration? (line :: rest)).map Declaration.foldCase).elim
        (Statement.assigned (foldCase line.code))
        fun d => (d.body.map Statement.assigned).getD [] := by
  rw [namesIn]
  cases declaration? (line :: rest) with
  | none => exact (Statement.assigned_foldCase line.code).symm
  | some d =>
      cases hbody : d.body with
      | none => simp [Declaration.foldCase, hbody]
      | some body => simp [Declaration.foldCase, hbody, Statement.assigned_foldCase]

theorem filter_isBrace_foldCase (code : List Char) :
    (foldCase code).filter isBrace = code.filter isBrace := by
  have hbrace : CaseBlind isBrace := (caseBlind_beq rfl).or (caseBlind_beq rfl)
  have hfixed : ∀ c ∈ code.filter isBrace, c.toLower = c := by
    intro c hc
    have hmark := (List.mem_filter.1 hc).2
    rw [isBrace, Bool.or_eq_true, beq_iff_eq, beq_iff_eq] at hmark
    rcases hmark with rfl | rfl <;> rfl
  rw [foldCase, List.filter_map, show isBrace ∘ Char.toLower = isBrace from funext hbrace]
  exact (List.map_congr_left hfixed).trans (List.map_id _)

/-- What is read from a line depends, up to case, on what the line and the lines above it are up to case,
and on what the line declares up to case. -/
theorem relabel_readingOf_foldCase (uri : Uri) {above above' rest rest' : List SourceLine}
    {line line' : SourceLine}
    (habove : above.map SourceLine.foldCase = above'.map SourceLine.foldCase)
    (hline : line.foldCase = line'.foldCase)
    (hdecl : (declaration? (line :: rest)).map Declaration.foldCase =
      (declaration? (line' :: rest')).map Declaration.foldCase) :
    (readingOf uri above line rest).relabel .foldCase =
      (readingOf uri above' line' rest').relabel .foldCase := by
  have hlength : above.length = above'.length := by
    simpa using congrArg List.length habove
  have hcode : foldCase line.code = foldCase line'.code := congrArg SourceLine.code hline
  -- The method, the names and the braces are each a function of what is equal up to case.
  have hdeclared : ∀ (above : List SourceLine) (n : Nat) (d? : Option Declaration),
      (d?.map (Outline.methodOf uri above n)).map Method.foldCase =
        (d?.map Declaration.foldCase).map
          (Outline.methodOf uri (above.map SourceLine.foldCase) n) := by
    intro above n d?
    cases d? with
    | none => rfl
    | some d => exact congrArg some (Outline.methodOf_foldCase uri above n d)
  have hmethod : ((declaration? (line :: rest)).map (Outline.methodOf uri above above.length)).map
        Method.foldCase =
      ((declaration? (line' :: rest')).map (Outline.methodOf uri above' above'.length)).map
        Method.foldCase := by
    rw [hdeclared, hdeclared, hdecl, habove, hlength]
  have hnames : (namesIn (line :: rest)).map foldCase = (namesIn (line' :: rest')).map foldCase := by
    rw [namesIn_foldCase, namesIn_foldCase, hdecl, hcode]
  have hbraces : line.code.filter isBrace = line'.code.filter isBrace := by
    rw [← filter_isBrace_foldCase, hcode, filter_isBrace_foldCase]
  calc
    (readingOf uri above line rest).relabel .foldCase
        = { declared := ((declaration? (line' :: rest')).map
              (Outline.methodOf uri above' above'.length)).map Method.foldCase
            names := (namesIn (line' :: rest')).map foldCase
            braces := line'.code.filter isBrace } := by
          rw [← hmethod, ← hnames, ← hbraces]
          rfl
    _ = (readingOf uri above' line' rest').relabel .foldCase := rfl

/-- Sources that are equal up to case are read alike up to case, if the same of their lines declare a method
with the word `static`. -/
theorem readings_foldCase_eq (uri : Uri) {source source' : List SourceLine}
    (h : source.map SourceLine.foldCase = source'.map SourceLine.foldCase)
    (hstatic : ∀ i, declaresStatic (source.drop i) = declaresStatic (source'.drop i)) :
    (readings uri [] source).map (Reading.relabel .foldCase) =
      (readings uri [] source').map (Reading.relabel .foldCase) := by
  apply List.ext_getElem?
  intro i
  rw [List.getElem?_map, List.getElem?_map, getElem?_readings, getElem?_readings]
  have hi : source[i]?.map SourceLine.foldCase = source'[i]?.map SourceLine.foldCase := by
    rw [← List.getElem?_map, ← List.getElem?_map, h]
  cases hget : source[i]? with
  | none =>
      rw [hget] at hi
      rw [Option.map_eq_none_iff.1 hi.symm]
      rfl
  | some line =>
      rw [hget] at hi
      obtain ⟨line', hget', hline⟩ := Option.map_eq_some_iff.1 hi.symm
      have habove : (source.take i).reverse.map SourceLine.foldCase =
          (source'.take i).reverse.map SourceLine.foldCase := by
        rw [List.map_reverse, List.map_reverse, List.map_take, List.map_take, h]
      have hbelow : (source.drop i).map SourceLine.foldCase =
          (source'.drop i).map SourceLine.foldCase := by
        rw [List.map_drop, List.map_drop, h]
      have hdecl := declaration?_foldCase_eq hbelow (hstatic i)
      rw [drop_eq_cons hget, drop_eq_cons hget'] at hdecl
      rw [hget', Option.map_some, Option.map_some, Option.map_some, Option.map_some,
        relabel_readingOf_foldCase uri habove hline.symm hdecl]

/-- The numbers of the lines at which a property holds tell at which lines it holds. -/
theorem filter_range_drop_eq_iff {p : List SourceLine → Bool} (hnil : p [] = false)
    {source source' : List SourceLine} (hlength : source.length = source'.length) :
    ((List.range source.length).filter fun i => p (source.drop i)) =
        ((List.range source'.length).filter fun i => p (source'.drop i)) ↔
      ∀ i, p (source.drop i) = p (source'.drop i) := by
  constructor
  · intro heq i
    by_cases hi : i < source.length
    · have hmem : i ∈ ((List.range source.length).filter fun i => p (source.drop i)) ↔
          i ∈ ((List.range source'.length).filter fun i => p (source'.drop i)) := by
        rw [heq]
      simpa [← hlength, hi, ← Bool.eq_iff_iff] using hmem
    · have hend : source.drop i = [] := List.drop_eq_nil_of_le (by omega)
      have hend' : source'.drop i = [] := List.drop_eq_nil_of_le (by omega)
      rw [hend, hend', hnil]
  · intro hall
    rw [← hlength]
    exact List.filter_congr fun i _hi => hall i

end Source

/-! ## Whole texts -/

namespace Script

open Source

theorem foldCase_ofSource (uri : Uri) (source : List SourceLine) :
    (Script.ofSource uri source).foldCase =
      Script.ofReadings uri ((readings uri [] source).map (Reading.relabel .foldCase)) := by
  rw [ofReadings_relabel, ← ofSource_eq_ofReadings]
  rfl

theorem methods_line_foldCase (s : Script) :
    s.foldCase.methods.map Method.line = s.methods.map Method.line := by
  rw [Script.foldCase, List.map_map]
  rfl

/-- Texts that are equal up to case have scripts that are equal up to case exactly if the word `static`
stands in lower case before the same declarations. -/
theorem case_shows_only_in_static (uri : Uri) (text text' : String) (h : sameName text text' = true) :
    (Script.ofText uri text).foldCase = (Script.ofText uri text').foldCase ↔
      staticLines (Source.ofText text.toList) = staticLines (Source.ofText text'.toList) := by
  have hsource : (Source.ofText text.toList).map SourceLine.foldCase =
      (Source.ofText text'.toList).map SourceLine.foldCase := by
    rw [← ofText_foldCase, ← ofText_foldCase, beq_iff_eq.1 h]
  have hlength : (Source.ofText text.toList).length = (Source.ofText text'.toList).length := by
    simpa using congrArg List.length hsource
  unfold Script.ofText staticLines
  rw [filter_range_drop_eq_iff rfl hlength]
  constructor
  -- Folding keeps the lines of methods, so that the same lines declare one.
  · intro hscript i
    have hlines := congrArg (fun s : Script => s.methods.map Method.line) hscript
    simp only [methods_line_foldCase, methods_lines] at hlines
    have hsome := (filter_range_drop_eq_iff (p := fun lines => (declaration? lines).isSome) rfl
      hlength).1 hlines i
    refine declaresStatic_eq ?_ hsome
    rw [List.map_drop, List.map_drop, hsource]
  · intro hstatic
    rw [foldCase_ofSource, foldCase_ofSource, readings_foldCase_eq uri hsource hstatic]

/-- Keywords, names, and a `Return` before an object literal in either case. The word `static` is in lower
case before both declarations. -/
theorem case_shows_only_in_static_mixed :
    let uri : Uri := ⟨"file:///a.ahk"⟩
    let text := "; Doc\nstatic Run(ByRef Item) \x7b\n  For key in Item\n" ++
      "    Return \x7ba: 1\x7d\n\x7d\nGlobal Count\n"
    let text' := "; doc\nstatic RUN(byref item) \x7b\n  for Key IN item\n" ++
      "    return \x7bA: 1\x7d\n\x7d\nglobal count\n"
    sameName text text' = true ∧
      staticLines (Source.ofText text.toList) = staticLines (Source.ofText text'.toList) ∧
      (Script.ofText uri text).foldCase = (Script.ofText uri text').foldCase := by
  intro uri text text'
  have hsame : sameName text text' = true := by decide +kernel
  have hstatic : staticLines (Source.ofText text.toList) =
      staticLines (Source.ofText text'.toList) := by
    decide +kernel
  exact ⟨hsame, hstatic, (case_shows_only_in_static uri text text' hsame).2 hstatic⟩

/-- With a capital letter, the word `static` hides the method behind it and makes a variable of its name. -/
theorem capital_static_hides_method :
    let uri : Uri := ⟨"file:///a.ahk"⟩
    let text := "static f() \x7b\n\x7d\n"
    let text' := "Static f() \x7b\n\x7d\n"
    sameName text text' = true ∧
      (Script.ofText uri text).methods.map Method.name = ["f"] ∧
      (Script.ofText uri text').methods = [] ∧
      (Script.ofText uri text').globals.map Variable.name = ["f"] ∧
      (Script.ofText uri text).foldCase ≠ (Script.ofText uri text').foldCase := by
  decide +kernel

end Script
end ScriptSymbols
