import Mathlib.Data.List.GetD
import ScriptSymbols.Proofs.Fixture.Lines

/-!
# Symbols of generated scripts

A generated script declares what its shape says, whatever the numbers are.

1. `Fixture.LaysOut` relates lines to their methods and to the names that they assign at file scope. Parts
   below each other are taken together by `Fixture.LaysOut.append` and `Fixture.laysOut_range`.
2. `Fixture.laysOut_methodLines` is a method, `Fixture.laysOut_contentLines` a file.
3. `Fixture.pairwise_variableNames`: no name is assigned twice at file scope.
4. `Fixture.outline_of_content` is the result.
-/

namespace ScriptSymbols

open Text Assignment

/-! ## Different names -/

/-- Where all names are different, every assignment is the first of its name. -/
theorem Assignment.firsts_of_pairwise {as : List Assignment}
    (h : as.Pairwise fun a b => sameName a.name b.name = false) : firsts as = as := by
  induction as with
  | nil => rfl
  | cons a as ih =>
      obtain ⟨hfirst, hrest⟩ := List.pairwise_cons.1 h
      rw [firsts, ih hrest, List.filter_eq_self.2]
      intro b hb
      rw [hfirst b hb]
      rfl

theorem Text.sameName_of_head? {a b : String}
    (h : (foldCase a.toList).head? ≠ (foldCase b.toList).head?) : sameName a b = false := by
  refine Bool.eq_false_iff.2 fun hsame => h ?_
  have hfold : foldCase a.toList = foldCase b.toList := by simpa [sameName, sameFolded] using hsame
  rw [hfold]

namespace Fixture

open Name Source Skeleton

/-! ## Parts of a script -/

/-- Some lines below `above`, their methods and the names assigned outside of these. -/
def LaysOut (uri : Uri) (above : List SourceLine) (ls : List String) (ms : List Method)
    (names : List String) : Prop :=
  ∃ as, Layout uri above (linesOf ls) ms as ∧ as.map Assignment.name = names

section LaysOut

variable {uri : Uri} {above : List SourceLine}

theorem LaysOut.append {ls ls' : List String} {ms ms' : List Method} {names names' : List String}
    (h : LaysOut uri above ls ms names)
    (hbelow : LaysOut uri ((linesOf ls).reverse ++ above) ls' ms' names') :
    LaysOut uri above (ls ++ ls') (ms ++ ms') (names ++ names') := by
  obtain ⟨as, hlayout, rfl⟩ := h
  obtain ⟨as', hlayout', rfl⟩ := hbelow
  refine ⟨as ++ as', ?_, List.map_append⟩
  rw [linesOf, List.map_append]
  exact hlayout.append hlayout'

theorem laysOut_nil : LaysOut uri above [] [] [] :=
  ⟨[], .done above, rfl⟩

theorem laysOut_line {line : String} {names : List (List Char)} (h : Reads (lineOf line.toList) names [])
    (hfree : ∀ name ∈ names, isReserved name = false) :
    LaysOut uri above [line] [] (names.map String.ofList) := by
  refine ⟨_, .line h (.done _), ?_⟩
  have hkept : names.filter (!isReserved ·) = names :=
    List.filter_eq_self.2 fun name hname => by simp [hfree name hname]
  simp [ofNames, hkept]

/-- A line that assigns nothing. -/
theorem laysOut_plain {line : String} (h : Reads (lineOf line.toList) [] []) :
    LaysOut uri above [line] [] [] :=
  laysOut_line h (by simp)

/-- A line that assigns one name. -/
theorem laysOut_name {line name : String} (h : Reads (lineOf line.toList) [name.toList] [])
    (hfree : isReserved name.toList = false) : LaysOut uri above [line] [] [name] := by
  have hline := @laysOut_line uri above line _ h (by simpa using hfree)
  rwa [List.map_singleton, String.ofList_toList] at hline

/-- Parts that are made one after the other, each below those before it. -/
theorem laysOut_range {part : Nat → List String} {ms : Nat → List Method} {names : Nat → List String}
    (h : ∀ k, LaysOut uri ((linesOf ((List.range k).flatMap part)).reverse ++ above) (part k) (ms k)
      (names k)) (n : Nat) :
    LaysOut uri above ((List.range n).flatMap part) ((List.range n).flatMap ms)
      ((List.range n).flatMap names) := by
  induction n with
  | zero => exact laysOut_nil
  | succ n ih =>
      -- The last part stands below all the others.
      simp only [List.range_succ, List.flatMap_append, List.flatMap_singleton]
      exact ih.append (h n)

/-- Parts with one name each and no method. -/
theorem laysOut_variables {part : Nat → List String} {name : Nat → String}
    (h : ∀ k above, LaysOut uri above (part k) [] [name k]) (n : Nat) :
    LaysOut uri above ((List.range n).flatMap part) [] ((List.range n).map name) := by
  have hparts := laysOut_range (fun k => h k ((linesOf ((List.range k).flatMap part)).reverse ++ above)) n
  have hnone : (List.range n).flatMap (fun _ => ([] : List Method)) = [] :=
    List.flatMap_eq_nil_iff.2 fun _ _ => rfl
  rw [hnone, ← List.map_eq_flatMap] at hparts
  exact hparts

end LaysOut

/-! ## Methods -/

/-- The comment on a method. -/
def methodNote (file n : Nat) : String :=
  "Computes step " ++ toString n ++ " of file " ++ toString file

/-- The method with a number that is declared at a line of a file. -/
def methodAt (uri : Uri) (file n line : Nat) : Method :=
  { name := numbered "method_" file n
    signature := numbered "method_" file n ++ "(ByRef x, y := " ++ toString (n + 1) ++ ")"
    params := ["x", "y"]
    comment := some (methodNote file n)
    uri
    line
    endLine := line + 6
    locals := [{ name := "result", line := line + 1, owner := some (numbered "method_" file n) }] }

/-- The line above a method. -/
def noteLine (file n : Nat) : String :=
  "; Computes step " ++ toString n ++ " of file " ++ toString file

theorem toList_noteLine (file n : Nat) :
    (noteLine file n).toList = ';' :: ' ' :: (methodNote file n).toList := by
  have hline : ∀ file number : String, ("; Computes step " ++ number ++ " of file " ++ file).toList =
      ';' :: ' ' :: ("Computes step " ++ number ++ " of file " ++ file).toList := by
    intro file number
    simp
  exact hline (toString file) (toString n)

theorem commentOf?_noteLine (file n : Nat) {above : List SourceLine} (h : EndsComment above) :
    commentOf? (lineOf (noteLine file n).toList :: above) = some (methodNote file n).toList := by
  have htext : (methodNote file n).toList =
      ("Computes step " ++ toString n ++ " of file ").toList ++ digits file := String.toList_append
  have hhead : (methodNote file n).toList.head?.any isBlank = false := by
    have hfront : ∀ file number : String,
        ("Computes step " ++ number ++ " of file " ++ file).toList.head?.any isBlank = false := by
      intro file number
      rw [String.toList_append, String.toList_append, String.toList_append]
      rfl
    exact hfront (toString file) (toString n)
  have hlast : (methodNote file n).toList.getLast?.any isBlank = false := by
    rw [htext, List.getLast?_append_of_ne_nil _ (digits_ne_nil file)]
    exact (any_isBlank_head? (all_isIdentChar_digits file)).2
  have hne : (methodNote file n).toList ≠ [] := by
    rw [htext]
    exact List.append_ne_nil_of_right_ne_nil _ (digits_ne_nil file)
  rw [toList_noteLine]
  exact commentOf?_note hne hhead hlast h

/-- The lines of a method's body. -/
def bodyLines (n : Nat) : List String :=
  [resultLine n, "    if (result = \"\") \x7b", "        return 0", "    \x7d", "    return result"]

theorem nested_bodyLines (n line : Nat) : Nested line (linesOf (bodyLines n)) [⟨"result", line⟩] := by
  have hif : Reads (lineOf "    if (result = \"\") \x7b".toList) [] ['{'] := reads_fixedLine (by decide)
  have hzero : Reads (lineOf "        return 0".toList) [] [] := reads_fixedLine (by decide)
  have hend : Reads (lineOf "    \x7d".toList) [] ['}'] := reads_fixedLine (by decide)
  have hreturn : Reads (lineOf "    return result".toList) [] [] := reads_fixedLine (by decide)
  have hfree : ofNames line ["result".toList] = [⟨"result", line⟩] := by
    have hreserved : isReserved "result".toList = false := by decide
    simp only [ofNames, List.filter_cons, hreserved]
    rfl
  rw [← hfree]
  exact .line (reads_resultLine n) (.block hif (.line hzero (.done _)) hend (.line hreturn (.done _)))

theorem methodLines_eq (file n : Nat) :
    methodLines file n = noteLine file n :: methodLine file n :: (bodyLines n ++ ["\x7d", ""]) := rfl

theorem methodOver_eq_methodAt (uri : Uri) (file n : Nat) {above : List SourceLine}
    (h : EndsComment above) :
    methodOver uri (lineOf (noteLine file n).toList :: above) (numbered "method_" file n).toList
        (paramList (digits (n + 1))) 5 [⟨"result", above.length + 2⟩] =
      methodAt uri file n (above.length + 1) := by
  have hdigits := all_isIdentChar_digits (n + 1)
  have hne := digits_ne_nil (n + 1)
  have hsignature : String.ofList ((numbered "method_" file n).toList ++
      ('(' :: trim (paramList (digits (n + 1))) ++ [')'])) =
        numbered "method_" file n ++ "(ByRef x, y := " ++ toString (n + 1) ++ ")" := by
    have htext : ∀ name value : String,
        name.toList ++ ('(' :: paramList value.toList ++ [')']) =
          (name ++ "(ByRef x, y := " ++ value ++ ")").toList := by
      intro name value
      simp [paramList_eq]
    rw [trim_paramList hdigits hne, digits, htext, String.ofList_toList]
  have hparams : (Statement.paramNames (paramList (digits (n + 1)))).map String.ofList = ["x", "y"] := by
    rw [paramNames_paramList hdigits hne]
    rfl
  -- The variable is no parameter, so it is kept.
  have hlocal : (["x", "y"].any fun param => sameName param "result") = false := by decide
  simp only [methodOver, Outline.methodOf, Method.localsOf, Method.hasParam, hsignature, hparams,
    commentOf?_noteLine file n h, String.ofList_toList, Option.map_some, List.length_cons,
    List.filter_cons, hlocal]
  rfl

theorem laysOut_methodLines (uri : Uri) (file n : Nat) {above : List SourceLine}
    (h : EndsComment above) :
    LaysOut uri above (methodLines file n) [methodAt uri file n (above.length + 1)] [] := by
  have hclose : Reads (lineOf "\x7d".toList) [] ['}'] := reads_fixedLine (by decide)
  have hblank : Reads (lineOf "".toList) [] [] := reads_blank rfl
  have hnote : Reads (lineOf (noteLine file n).toList) [] [] := by
    rw [toList_noteLine]
    exact reads_note _
  have hmethod := Layout.line hnote (.method (declares_methodLine file n)
    (nested_bodyLines n (above.length + 2)) hclose (@Layout.line uri _ _ _ _ _ _ hblank (.done _)))
  rw [methodLines_eq, ← methodOver_eq_methodAt uri file n h]
  exact ⟨_, hmethod, rfl⟩

/-- A method takes nine lines. -/
theorem length_methodLines (file k : Nat) (above : List SourceLine) :
    ((linesOf ((List.range k).flatMap (methodLines file))).reverse ++ above).length =
      above.length + 9 * k := by
  have hnine : ∀ n, (methodLines file n).length = 9 := fun _ => rfl
  simp [linesOf, List.length_flatMap, hnine]
  omega

/-- The last of them is blank, so that no method takes a comment from above its own. -/
theorem endsComment_methodLines (file k : Nat) {above : List SourceLine} (h : EndsComment above) :
    EndsComment ((linesOf ((List.range k).flatMap (methodLines file))).reverse ++ above) := by
  cases k with
  | zero => exact h
  | succ k =>
      have hblank : ∀ before, EndsComment ((linesOf (methodLines file k)).reverse ++ before) := by
        rintro before line hline
        cases hline
        decide
      rw [List.range_succ, List.flatMap_append, List.flatMap_singleton, linesOf, List.map_append,
        List.reverse_append, List.append_assoc]
      exact hblank _

theorem laysOut_methods (uri : Uri) (file n : Nat) {above : List SourceLine} (h : EndsComment above) :
    LaysOut uri above ((List.range n).flatMap (methodLines file))
      ((List.range n).map fun k => methodAt uri file k (above.length + 9 * k + 1)) [] := by
  have hparts := laysOut_range (fun k => laysOut_methodLines uri file k (endsComment_methodLines file k h)) n
  have hnone : (List.range n).flatMap (fun _ => ([] : List String)) = [] :=
    List.flatMap_eq_nil_iff.2 fun _ _ => rfl
  simp only [length_methodLines, hnone] at hparts
  rw [← List.map_eq_flatMap] at hparts
  exact hparts

/-! ## Lines of plain code -/

/-- The command behind a line of plain code. -/
def commandAt (file n : Nat) : String :=
  commands.getD ((file + n) % commands.length) ""

theorem commandAt_mem (file n : Nat) : commandAt file n ∈ commands := by
  have hlt : (file + n) % commands.length < commands.length := Nat.mod_lt _ (by decide)
  rw [commandAt, List.getD_eq_getElem _ _ hlt]
  exact List.getElem_mem hlt

theorem extraLines_eq (file n : Nat) :
    extraLines file n = varLine file n ::
      (if commandAt file n = mouseCommand then [] else [commandAt file n]) := by
  have hlines : extraLines file n = if commandAt file n = mouseCommand then [varLine file n]
      else [varLine file n, commandAt file n] := rfl
  rw [hlines]
  split
  · rfl
  · rfl

theorem laysOut_extraLines (uri : Uri) (file n : Nat) (above : List SourceLine) :
    LaysOut uri above (extraLines file n) [] [numbered "var_" file n] := by
  have hline := @laysOut_name uri above _ _ (reads_varLine file n) (isReserved_numbered _ file n)
  rw [extraLines_eq]
  by_cases hmouse : commandAt file n = mouseCommand
  · rw [if_pos hmouse]
    exact hline
  · rw [if_neg hmouse]
    exact hline.append (laysOut_plain (reads_command (commandAt_mem file n) hmouse))

/-! ## Files -/

/-- The names of the variables of a file, in order. -/
def variableNames (s : Shape) (file : Nat) : List String :=
  (List.range s.globals).map (numbered "global_" file)
    ++ (if 0 < s.extraLines then ["OutputVarX", "OutputVarY"] else [])
    ++ (List.range s.extraLines).map (numbered "var_" file)

theorem length_variableNames (s : Shape) (file : Nat) :
    (variableNames s file).length = s.fileVariables := by
  rw [variableNames, Shape.fileVariables]
  split
  · simp
    omega
  · simp

theorem laysOut_globals (uri : Uri) (file n : Nat) (above : List SourceLine) :
    LaysOut uri above ((List.range n).map (globalLine file)) []
      ((List.range n).map (numbered "global_" file)) := by
  rw [@List.map_eq_flatMap _ _ (globalLine file)]
  exact laysOut_variables
    (fun k _ => laysOut_name (reads_globalLine file k) (isReserved_numbered _ file k)) n

theorem laysOut_mouseCommand (uri : Uri) (s : Shape) (above : List SourceLine) :
    LaysOut uri above (if 0 < s.extraLines then [mouseCommand] else []) []
      (if 0 < s.extraLines then ["OutputVarX", "OutputVarY"] else []) := by
  have hread : Reads (lineOf mouseCommand.toList) ["OutputVarX".toList, "OutputVarY".toList] [] := by
    decide +kernel
  have hfree : ["OutputVarX".toList, "OutputVarY".toList].all (!isReserved ·) = true := by
    decide
  split
  · refine laysOut_line hread fun name hname => ?_
    simpa using List.all_eq_true.1 hfree name hname
  · exact laysOut_nil

/-- The lines of a file, from the top down to the methods. -/
def topLines (s : Shape) (file : Nat) : List String :=
  ["; Generated fixture file " ++ toString file] ++ (List.range s.globals).map (globalLine file) ++ [""]

theorem contentLines_eq (s : Shape) (file : Nat) :
    contentLines s file = topLines s file ++ (List.range s.methods).flatMap (methodLines file)
      ++ (if 0 < s.extraLines then [mouseCommand] else [])
      ++ (List.range s.extraLines).flatMap (extraLines file) := rfl

theorem laysOut_topLines (uri : Uri) (s : Shape) (file : Nat) :
    LaysOut uri [] (topLines s file) [] ((List.range s.globals).map (numbered "global_" file)) := by
  have hnote : Reads (lineOf ("; Generated fixture file " ++ toString file).toList) [] [] := by
    have hline : ∀ number : String, ("; Generated fixture file " ++ number).toList =
        ';' :: (" Generated fixture file " ++ number).toList := by
      intro number
      simp
    rw [hline]
    exact reads_note _
  have hblank : Reads (lineOf "".toList) [] [] := reads_blank rfl
  have htop := (@laysOut_plain uri [] _ hnote).append (laysOut_globals uri file s.globals _)
  have hall := htop.append (laysOut_plain hblank)
  simp only [List.nil_append, List.append_nil] at hall
  rw [topLines]
  exact hall

theorem laysOut_contentLines (uri : Uri) (s : Shape) (file : Nat) :
    LaysOut uri [] (contentLines s file)
      ((List.range s.methods).map fun n => methodAt uri file n (s.globals + 3 + 9 * n))
      (variableNames s file) := by
  -- The blank line keeps the first method from taking the comment of the file.
  have hends : EndsComment ((linesOf (topLines s file)).reverse ++ []) := by
    rw [topLines, linesOf, List.map_append, List.reverse_append]
    rintro line hline
    cases hline
    decide
  have hlength : ∀ n, ((linesOf (topLines s file)).reverse ++ []).length + 9 * n + 1 =
      s.globals + 3 + 9 * n := by
    intro n
    simp [topLines, linesOf]
    omega
  have hmethods := laysOut_methods uri file s.methods hends
  simp only [hlength] at hmethods
  -- What stands below the methods needs no line numbers: only names are stated of it.
  have hfile := (((laysOut_topLines uri s file).append hmethods).append
    (laysOut_mouseCommand uri s _)).append
      (laysOut_variables (fun n above => laysOut_extraLines uri file n above) s.extraLines)
  simp only [List.nil_append, List.append_nil] at hfile
  rw [contentLines_eq, variableNames]
  exact hfile

/-! ## The text of a file -/

/-- Whether a text stays on one line and opens no block comment. -/
def isTame (text : String) : Bool :=
  text.toList.all fun c => c != '\n' && c != '\r' && c != '/'

theorem isTame_append {a b : String} (ha : isTame a = true) (hb : isTame b = true) :
    isTame (a ++ b) = true := by
  unfold isTame at ha hb ⊢
  rw [String.toList_append, List.all_append, ha, hb]
  rfl

theorem isTame_toString (n : Nat) : isTame (toString n) = true := by
  refine List.all_eq_true.2 fun c hc => ?_
  have hne : ∀ d, isIdentChar d = false → c ≠ d := by
    rintro d hd rfl
    exact not_mem_of_isIdentChar (all_isIdentChar_digits n) hd hc
  simp [hne '\n' (by decide), hne '\r' (by decide), hne '/' (by decide)]

theorem isTame_numbered {stem : String} (h : isTame stem = true) (file n : Nat) :
    isTame (numbered stem file n) = true :=
  isTame_append (isTame_append (isTame_append h (isTame_toString file)) (by decide)) (isTame_toString n)

theorem isTame_globalLine (file n : Nat) : isTame (globalLine file n) = true := by
  have hname : isTame (numbered "global_" file n) = true := isTame_numbered (by decide) file n
  have hnumber := isTame_toString n
  exact isTame_append (isTame_append (isTame_append (isTame_append (isTame_append hname
    (by decide)) hnumber) (by decide)) hnumber) (by decide)

theorem isTame_methodLines (file n : Nat) : ∀ line ∈ methodLines file n, isTame line = true := by
  have hnote : isTame (noteLine file n) = true :=
    isTame_append (isTame_append (isTame_append (by decide) (isTame_toString n))
      (by decide)) (isTame_toString file)
  have hmethod : isTame (methodLine file n) = true :=
    isTame_append (isTame_append (isTame_append (isTame_numbered (by decide) file n)
      (by decide)) (isTame_toString (n + 1))) (by decide)
  have hresult : isTame (resultLine n) = true :=
    isTame_append (isTame_append (by decide) (isTame_toString (n + 1))) (by decide)
  have hrest : ["    if (result = \"\") \x7b", "        return 0", "    \x7d", "    return result",
      "\x7d", ""].all isTame = true := by decide
  intro line hline
  rw [methodLines_eq] at hline
  rcases List.mem_cons.1 hline with rfl | hline
  · exact hnote
  rcases List.mem_cons.1 hline with rfl | hline
  · exact hmethod
  rcases List.mem_cons.1 hline with rfl | hline
  · exact hresult
  · exact List.all_eq_true.1 hrest line hline

theorem isTame_extraLines (file n : Nat) : ∀ line ∈ extraLines file n, isTame line = true := by
  have hvar : isTame (varLine file n) = true :=
    isTame_append (isTame_append (isTame_append (isTame_numbered (by decide) file n)
      (by decide)) (isTame_toString n)) (by decide)
  have hcommands : commands.all isTame = true := by decide
  intro line hline
  rw [extraLines_eq] at hline
  rcases List.mem_cons.1 hline with rfl | hline
  · exact hvar
  · split at hline
    · cases hline
    · rw [List.mem_singleton.1 hline]
      exact List.all_eq_true.1 hcommands _ (commandAt_mem file n)

theorem isTame_contentLines (s : Shape) (file : Nat) :
    ∀ line ∈ contentLines s file, isTame line = true := by
  intro line hline
  rw [contentLines_eq, topLines] at hline
  simp only [List.mem_append, List.mem_singleton, List.mem_map, List.mem_flatMap] at hline
  rcases hline with ((((rfl | ⟨n, -, rfl⟩) | rfl) | ⟨n, -, hline⟩) | hline) | ⟨n, -, hline⟩
  · exact isTame_append (by decide) (isTame_toString file)
  · exact isTame_globalLine file n
  · decide
  · exact isTame_methodLines file n line hline
  · split at hline
    · rw [List.mem_singleton.1 hline]
      decide
    · cases hline
  · exact isTame_extraLines file n line hline

theorem not_mem_of_isTame {text : String} (h : isTame text = true) :
    '\n' ∉ text.toList ∧ '\r' ∉ text.toList ∧ '/' ∉ text.toList := by
  have hall := List.all_eq_true.1 h
  exact ⟨fun hmem => absurd (hall _ hmem) (by decide), fun hmem => absurd (hall _ hmem) (by decide),
    fun hmem => absurd (hall _ hmem) (by decide)⟩

theorem ofText_content (s : Shape) (file : Nat) :
    Source.ofText (content s file).toList = linesOf (contentLines s file) := by
  have htame := fun line hline => not_mem_of_isTame (isTame_contentLines s file line hline)
  refine ofText_eq_linesOf (lines_printed fun line hline => ?_) fun line hline => ?_
  · obtain ⟨hfeed, hreturn, -⟩ := htame line hline
    exact ⟨hfeed, fun hlast => hreturn (List.mem_of_getLast? hlast)⟩
  · obtain ⟨-, -, hslash⟩ := htame line hline
    refine opensComment_eq_false fun hhead => hslash ?_
    exact (List.dropWhile_sublist _).subset (List.mem_of_mem_head? hhead)

/-! ## Names at file scope -/

theorem head?_foldCase_numbered {stem : String} (h : stem.toList ≠ []) (file n : Nat) :
    (foldCase (numbered stem file n).toList).head? = (foldCase stem.toList).head? := by
  rw [toList_numbered, foldCase, foldCase, List.map_append, List.head?_append_of_ne_nil _ (by simpa using h)]

/-- No name is assigned twice at file scope. -/
theorem pairwise_variableNames (s : Shape) (file : Nat) :
    (variableNames s file).Pairwise fun a b => sameName a b = false := by
  have hnumbered : ∀ (stem : String) (n : Nat),
      ((List.range n).map (numbered stem file)).Pairwise fun a b => sameName a b = false := by
    intro stem n
    refine List.pairwise_map.2 (List.pairwise_lt_range.imp fun {i j} hlt => ?_)
    exact Bool.eq_false_iff.2 fun hsame => Nat.ne_of_lt hlt (numbered_injective hsame)
  have hglobal : ∀ n, (foldCase (numbered "global_" file n).toList).head? = some 'g' := fun n =>
    (head?_foldCase_numbered (by decide) file n).trans (by decide)
  have hvar : ∀ n, (foldCase (numbered "var_" file n).toList).head? = some 'v' := fun n =>
    (head?_foldCase_numbered (by decide) file n).trans (by decide)
  have hmouse : ∀ name ∈ (if 0 < s.extraLines then ["OutputVarX", "OutputVarY"] else []),
      (foldCase name.toList).head? = some 'o' := by
    intro name hname
    split at hname
    · have hcases : name = "OutputVarX" ∨ name = "OutputVarY" := by simpa using hname
      rcases hcases with rfl | rfl
      · decide
      · decide
    · cases hname
  have hpair : (if 0 < s.extraLines then ["OutputVarX", "OutputVarY"] else []).Pairwise
      fun a b => sameName a b = false := by
    split
    · have hxy : sameName "OutputVarX" "OutputVarY" = false := by decide
      simpa using hxy
    · exact List.Pairwise.nil
  -- Names of different kinds start with different letters.
  refine List.pairwise_append.2 ⟨List.pairwise_append.2 ⟨hnumbered _ _, hpair, ?_⟩, hnumbered _ _, ?_⟩
  · intro a ha b hb
    obtain ⟨n, -, rfl⟩ := List.mem_map.1 ha
    refine sameName_of_head? ?_
    rw [hglobal, hmouse b hb]
    decide
  · intro a ha b hb
    obtain ⟨k, -, rfl⟩ := List.mem_map.1 hb
    refine sameName_of_head? ?_
    rcases List.mem_append.1 ha with ha | ha
    · obtain ⟨n, -, rfl⟩ := List.mem_map.1 ha
      rw [hglobal, hvar]
      decide
    · rw [hmouse a ha, hvar]
      decide

/-- A generated file declares what its shape says. Its methods stand in order, nine lines apart below the
variables; each has its name, two parameters, its comment, seven lines and one variable. The variables of the
file have the names that are assigned, all different, so there are as many as the shape gives. -/
theorem outline_of_content (uri : Uri) (s : Shape) (file : Nat) :
    (Script.ofText uri (content s file)).methods =
        (List.range s.methods).map (fun n => methodAt uri file n (s.globals + 3 + 9 * n)) ∧
      (Script.ofText uri (content s file)).globals.map Variable.name = variableNames s file ∧
      (Script.ofText uri (content s file)).globals.length = s.fileVariables := by
  obtain ⟨as, hlayout, hnames⟩ := laysOut_contentLines uri s file
  have hscript : Script.ofText uri (content s file) =
      { uri
        methods := (List.range s.methods).map fun n => methodAt uri file n (s.globals + 3 + 9 * n)
        globals := toVariables none as } := by
    rw [Script.ofText, ofText_content]
    exact hlayout.ofSource
  have hdifferent : as.Pairwise fun a b => sameName a.name b.name = false := by
    have hpairwise := pairwise_variableNames s file
    rw [← hnames] at hpairwise
    exact List.pairwise_map.1 hpairwise
  have hglobals : (toVariables none as).map Variable.name = variableNames s file := by
    rw [toVariables, firsts_of_pairwise hdifferent, List.map_map, ← hnames]
    rfl
  rw [hscript]
  refine ⟨rfl, hglobals, ?_⟩
  rw [← length_variableNames s file, ← hglobals, List.length_map]

end Fixture
end ScriptSymbols
