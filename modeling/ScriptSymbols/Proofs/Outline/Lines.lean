import ScriptSymbols.Proofs.Outline.Layout
import ScriptSymbols.Proofs.Skeleton.Plain
import ScriptSymbols.Proofs.Statement.Forms

/-!
# Lines of plain sources

What the lines of a source that is laid out plainly are read as, from how they are written.

1. `Source.lineOf` is a line outside of block comments, and `Source.ofLines_eq_map` says when all lines are.
2. `Source.reads_assignment`, `Source.reads_condition`, `Source.reads_close` and `Source.reads_blank` read the
   lines that declare nothing; `Source.declares_header` reads a declaration.
-/

namespace ScriptSymbols

open Text Name Skeleton

namespace Source

/-- A line outside of block comments, with its code. -/
def lineOf (raw : List Char) : SourceLine :=
  { raw, code := skeleton raw }

theorem ofLines_eq_map {raws : List (List Char)} (h : ∀ raw ∈ raws, opensComment raw = false) :
    ofLines raws = raws.map lineOf := by
  rw [ofLines]
  induction raws with
  | nil => rfl
  | cons raw raws ih =>
      have hrest := ih fun raw hraw => h raw (List.mem_cons_of_mem _ hraw)
      rw [ofLinesFrom, h raw List.mem_cons_self, hrest]
      rfl

/-- Lines outside of block comments, with their code. -/
def linesOf (ls : List String) : List SourceLine :=
  ls.map fun line => lineOf line.toList

theorem ofText_eq_linesOf {text : List Char} {ls : List String}
    (h : lines text = ls.map String.toList) (hcode : ∀ line ∈ ls, opensComment line.toList = false) :
    ofText text = linesOf ls := by
  have hcode' : ∀ raw ∈ ls.map String.toList, opensComment raw = false := by
    intro raw hraw
    obtain ⟨line, hline, rfl⟩ := List.mem_map.1 hraw
    exact hcode line hline
  rw [ofText, h, ofLines_eq_map hcode', List.map_map]
  rfl

theorem opensComment_eq_false {raw : List Char} (h : (trimStart raw).head? ≠ some '/') :
    opensComment raw = false := by
  rw [opensComment]
  cases hstart : trimStart raw with
  | nil => rfl
  | cons c rest =>
      have hc : c ≠ '/' := by
        rintro rfl
        exact h (by rw [hstart]; rfl)
      simp [List.isPrefixOf, hc.symm]

/-! ## Braces -/

theorem isBrace_of_isIdentChar {c : Char} (h : isIdentChar c = true) : isBrace c = false := by
  have hbraces : ['{', '}'].all (!isIdentChar ·) = true := by decide
  refine Bool.eq_false_iff.2 fun hbrace => ?_
  have hmem : c ∈ ['{', '}'] := by simpa [isBrace] using hbrace
  have hother := List.all_eq_true.1 hbraces c hmem
  simp [h] at hother

theorem filter_isBrace_of_isIdentChar {word : List Char} (h : word.all isIdentChar = true) :
    word.filter isBrace = [] :=
  List.filter_eq_nil_iff.2 fun c hc =>
    Bool.eq_false_iff.1 (isBrace_of_isIdentChar (List.all_eq_true.1 h c hc))

theorem filter_isBrace_of_isBlank {cs : List Char} (h : cs.all isBlank = true) :
    cs.filter isBrace = [] := by
  refine List.filter_eq_nil_iff.2 fun c hc hbrace => ?_
  have hcases : c = '{' ∨ c = '}' := by simpa [isBrace] using hbrace
  rcases hcases with rfl | rfl <;> exact absurd (List.all_eq_true.1 h _ hc) (by decide)

/-! ## Lines that declare nothing -/

/-- How a line is read depends on its braces and on what stands behind its indentation. -/
theorem reads_of_trimStart {raw start : List Char} {names : List (List Char)} {braces : List Char}
    (hstart : trimStart (skeleton raw) = start) (hheader : Statement.header? start = none)
    (hnames : Statement.assigned start = names) (hbraces : (skeleton raw).filter isBrace = braces) :
    Reads (lineOf raw) names braces where
  header := by
    rw [lineOf, ← Statement.header?_trimStart, hstart, hheader]
  names := by
    rw [lineOf, ← Statement.assigned_trimStart, hstart, hnames]
  braces := hbraces

theorem reads_blank {raw : List Char} (h : allBlank raw = true) : Reads (lineOf raw) [] [] := by
  have hcode : allBlank (skeleton raw) = true := allBlank_skeleton h
  have hstart : trimStart (skeleton raw) = [] :=
    List.dropWhile_eq_nil_iff.2 (List.all_eq_true.1 hcode)
  exact reads_of_trimStart hstart rfl rfl (filter_isBrace_of_isBlank hcode)

/-- A condition assigns nothing. -/
theorem assigned_if (rest : List Char) :
    Statement.assigned ("if".toList ++ (" (".toList ++ rest)) = [] := by
  have htake : take? ("if".toList ++ (" (".toList ++ rest)) = some ("if".toList, " (".toList ++ rest) :=
    take?_append_of_isBlank (by decide) (by decide) ('(' :: rest)
  have hstart : trimStart ("if".toList ++ (" (".toList ++ rest)) =
      "if".toList ++ (" (".toList ++ rest) := rfl
  have hgap : trimStart (" (".toList ++ rest) = '(' :: rest := rfl
  have hassign : Statement.assignment? ("if".toList ++ (" (".toList ++ rest)) = none := by
    rw [Statement.assignment?, hstart, htake]
    rfl
  have hscope : Statement.scope? ("if".toList ++ (" (".toList ++ rest)) = none := by
    rw [Statement.scope?, hstart]
    rfl
  have hloop : Statement.loop? ("if".toList ++ (" (".toList ++ rest)) = none := by
    rw [Statement.loop?, hstart]
    rfl
  have hcommand : Statement.command? ("if".toList ++ (" (".toList ++ rest)) = none := by
    rw [Statement.command?, hstart, htake]
    rfl
  rw [Statement.assigned, hassign, hscope, hloop, hcommand]
  rfl

section Indented

variable {raw indent : List Char} (hindent : indent.all isSpaceOrTab = true)

include hindent

theorem reads_assignment {name value : List Char} (hname : isName name = true)
    (hfree : isReserved name = false)
    (hcode : skeleton raw = indent ++ (name ++ (" :=".toList ++ value)))
    (hvalue : value.head? ≠ some '=') (hbraces : value.filter isBrace = []) :
    Reads (lineOf raw) [name] [] := by
  have hblank := all_isBlank_of_isSpaceOrTab hindent
  have hword := all_isIdentChar_of_isPart (all_isPart_of_isName hname)
  have hmark : " :=".toList.filter isBrace = [] := by decide
  have hstart : trimStart (skeleton raw) = name ++ (" :=".toList ++ value) := by
    rw [hcode, Statement.trimStart_name hblank hname]
  refine reads_of_trimStart hstart ?_ ?_ ?_
  · exact @Statement.header?_of_blank [] name rfl hname (ne_static_of_isReserved hfree) ' ' (by decide)
      (":=".toList ++ value)
  · exact @Statement.assigned_assignment [] name rfl hname value hvalue
  · simp only [hcode, List.filter_append, filter_isBrace_of_isBlank hblank,
      filter_isBrace_of_isIdentChar hword, hmark, hbraces]
    rfl

theorem reads_close (hcode : skeleton raw = indent ++ ['}']) : Reads (lineOf raw) [] ['}'] := by
  have hblank := all_isBlank_of_isSpaceOrTab hindent
  have hstart : trimStart (skeleton raw) = ['}'] := by
    rw [hcode]
    exact trimStart_append hblank (by decide)
  refine reads_of_trimStart hstart ?_ ?_ ?_
  · exact Option.isNone_iff_eq_none.1 (by decide)
  · decide
  · rw [hcode, List.filter_append, filter_isBrace_of_isBlank hblank]
    rfl

theorem reads_condition {condition : List Char} (h : IsCondition condition)
    (hraw : raw = conditionLine indent condition) : Reads (lineOf raw) [] ['{'] := by
  have hblank := all_isBlank_of_isSpaceOrTab hindent
  obtain ⟨left, hcode, hopen, hclose⟩ := skeleton_conditionLine hindent h
  rw [← hraw] at hcode
  have hstart : trimStart (skeleton raw) = "if".toList ++ (" (".toList ++ (left ++ ") \x7b".toList)) := by
    rw [hcode, conditionLine]
    exact trimStart_append hblank rfl
  have hbraces : left.filter isBrace = [] := by
    refine List.filter_eq_nil_iff.2 fun c hc hbrace => ?_
    have hcases : c = '{' ∨ c = '}' := by simpa [isBrace] using hbrace
    rcases hcases with rfl | rfl
    · exact hopen hc
    · exact hclose hc
  refine reads_of_trimStart hstart ?_ ?_ ?_
  · exact @Statement.header?_of_blank [] "if".toList rfl (by decide) (by decide) ' ' (by decide)
      ('(' :: (left ++ ") \x7b".toList))
  · exact assigned_if (left ++ ") \x7b".toList)
  · rw [hcode, conditionLine]
    simp only [List.filter_append, filter_isBrace_of_isBlank hblank, hbraces]
    decide

/-- A declaration with the brace of its body at the end. -/
theorem declares_header {name params : List Char} (hname : isName name = true)
    (hfree : isReserved name = false) (hparams : params.all Statement.isNoParen = true)
    (hbraces : params.filter isBrace = [])
    (hcode : skeleton raw = indent ++ (name ++ '(' :: (params ++ ") \x7b".toList))) :
    Declares (lineOf raw) name params := by
  have hblank := all_isBlank_of_isSpaceOrTab hindent
  have hword := all_isIdentChar_of_isPart (all_isPart_of_isName hname)
  exact
    { header := by
        rw [lineOf, hcode]
        exact Statement.header?_declaration hblank hname (ne_static_of_isReserved hfree) hparams
      free := hfree
      braces := by
        have hparen : isBrace '(' = false := by decide
        have htail : ") \x7b".toList.filter isBrace = ['{'] := by decide
        simp only [lineOf, hcode, List.filter_append, List.filter_cons, hparen,
          filter_isBrace_of_isBlank hblank, filter_isBrace_of_isIdentChar hword, hbraces, htail]
        rfl }

end Indented

end Source
end ScriptSymbols
