import ScriptSymbols.Proofs.Outline.Extent

/-!
# Attribution of variables

Which method a variable belongs to is decided while its line is read, by the method that is open
then. The extent of that method is known only later. Both agree: a name is local to a method exactly
if its line lies in the method's extent, and a variable of the file exactly if its line lies in no
method.

1. `Source.assignments` lists every name that a text assigns, with its line.
2. `Assignment.firsts` keeps the first assignment of each name.
3. `Outline.Attributed` is the invariant: what is recorded so far is what the extents so far ask
   for, where the open method reaches as far as the lines that are read.
-/

namespace ScriptSymbols

open Text

/-- A name that a line assigns. -/
structure Assignment where
  name : String
  line : Nat
  deriving DecidableEq

namespace Assignment

/-! ## The first assignment of each name -/

/-- The assignments of names that no earlier assignment has, up to case. -/
def firsts : List Assignment → List Assignment
  | [] => []
  | a :: as => a :: (firsts as).filter fun b => !sameName a.name b.name

/-- The variable that an assignment declares. -/
def toVariable (owner : Option String) (a : Assignment) : Variable :=
  { name := a.name, line := a.line, owner }

/-- The variables that some assignments declare in one scope. -/
def toVariables (owner : Option String) (as : List Assignment) : List Variable :=
  (firsts as).map (toVariable owner)

theorem sameName_trans {a b c : String} (hab : sameName a b = true) (hbc : sameName b c = true) :
    sameName a c = true := by
  simp only [sameName, sameFolded, beq_iff_eq] at hab hbc ⊢
  exact hab.trans hbc

/-- Every name has a first assignment. -/
theorem any_firsts (as : List Assignment) (name : String) :
    ((firsts as).any fun a => sameName a.name name) = as.any fun a => sameName a.name name := by
  induction as with
  | nil => rfl
  | cons a as ih =>
      rw [firsts, List.any_cons, List.any_cons, ← ih]
      cases ha : sameName a.name name with
      | true => rfl
      | false =>
          -- What the filter drops has the name of `a`, so it is not the name asked for.
          rw [Bool.false_or, Bool.false_or, List.any_filter]
          refine congrArg (firsts as).any (funext fun b => ?_)
          cases hb : sameName b.name name with
          | false => simp
          | true =>
              cases hab : sameName a.name b.name with
              | false => rfl
              | true =>
                  have hcontra := sameName_trans hab hb
                  simp [ha] at hcontra

theorem firsts_append (as : List Assignment) (a : Assignment) :
    firsts (as ++ [a]) =
      if as.any (fun b => sameName b.name a.name) then firsts as else firsts as ++ [a] := by
  induction as with
  | nil => rfl
  | cons b as ih =>
      rw [List.cons_append, firsts, ih, firsts, List.any_cons]
      cases hany : as.any (fun c => sameName c.name a.name) with
      | true => simp
      | false =>
          cases hba : sameName b.name a.name with
          | true => simp [List.filter_append, hba]
          | false => simp [List.filter_append, hba]

theorem declares_toVariables (owner : Option String) (as : List Assignment) (name : String) :
    declares (toVariables owner as) name = as.any fun a => sameName a.name name := by
  rw [← any_firsts]
  simp [declares, toVariables, List.any_map, Function.comp_def, toVariable]

/-- One more assignment declares a variable unless the scope has one of that name. -/
theorem toVariables_append (owner : Option String) (as : List Assignment) (a : Assignment) :
    toVariables owner (as ++ [a]) =
      if declares (toVariables owner as) a.name then toVariables owner as
      else toVariables owner as ++ [a.toVariable owner] := by
  rw [declares_toVariables, toVariables, firsts_append]
  split
  · rfl
  · rw [List.map_append]
    rfl

end Assignment

open Assignment

/-- Whether a name is one of the method's parameters, up to case. -/
def Method.hasParam (m : Method) (name : String) : Bool :=
  m.params.any (sameName · name)

/-- The local variables that assignments in its body give to a method. -/
def Method.localsOf (m : Method) (as : List Assignment) : List Variable :=
  toVariables (some m.name) (as.filter fun a => !m.hasParam a.name)

theorem Method.addVariable_locals {m : Method} {as : List Assignment} (a : Assignment)
    (h : m.locals = m.localsOf as) :
    (m.addVariable a.name a.line).locals =
      (m.addVariable a.name a.line).localsOf (as ++ [a]) := by
  cases hparam : m.hasParam a.name with
  | true =>
      have hsame : m.addVariable a.name a.line = m := by
        have hany : m.params.any (sameName · a.name) = true := hparam
        simp [Method.addVariable, hany]
      rw [hsame, h, Method.localsOf, Method.localsOf, List.filter_append]
      simp [hparam]
  | false =>
      have hany : m.params.any (sameName · a.name) = false := hparam
      have hlocals : m.localsOf (as ++ [a]) =
          if declares m.locals a.name then m.locals
          else m.locals ++ [a.toVariable (some m.name)] := by
        rw [h, Method.localsOf, Method.localsOf, List.filter_append]
        simp [hparam, toVariables_append]
      cases hknown : declares m.locals a.name with
      | true =>
          have hsame : m.addVariable a.name a.line = m := by
            simp [Method.addVariable, hknown]
          rw [hsame, hlocals, hknown]
          rfl
      | false =>
          have hnew : m.addVariable a.name a.line =
              { m with locals := m.locals ++ [a.toVariable (some m.name)] } := by
            simp [Method.addVariable, hany, hknown, Assignment.toVariable]
          rw [hnew]
          simp only [hknown] at hlocals
          exact hlocals.symm

namespace Source

/-! ## All assignments of a text -/

/-- The assignments on the first of some lines, which is line `n` of the text. Keywords are never
assigned. -/
def assignmentsOn (n : Nat) (lines : List SourceLine) : List Assignment :=
  ((namesIn lines).filter (!Name.isReserved ·)).map fun name => ⟨String.ofList name, n⟩

/-- The assignments in some lines, of which the first is line `n` of the text. -/
def assignmentsFrom (n : Nat) : List SourceLine → List Assignment
  | [] => []
  | line :: rest => assignmentsOn n (line :: rest) ++ assignmentsFrom (n + 1) rest

/-- The assignments of a text in the order in which it makes them. -/
def assignments (source : List SourceLine) : List Assignment :=
  assignmentsFrom 0 source

theorem line_of_mem_assignmentsOn {n : Nat} {lines : List SourceLine} {a : Assignment}
    (h : a ∈ assignmentsOn n lines) : a.line = n := by
  rcases List.mem_map.1 h with ⟨name, _hname, rfl⟩
  rfl

theorem line_lt_of_mem_assignmentsFrom {n : Nat} {lines : List SourceLine} {a : Assignment}
    (h : a ∈ assignmentsFrom n lines) : a.line < n + lines.length := by
  induction lines generalizing n with
  | nil => simp [assignmentsFrom] at h
  | cons line rest ih =>
      rw [List.length_cons]
      rcases List.mem_append.1 h with hhere | hbelow
      · have := line_of_mem_assignmentsOn hhere
        omega
      · have := ih hbelow
        omega

end Source

namespace Outline

/-! ## Lines that belong to no method -/

/-- Whether a line lies in no method met so far, where the open one reaches as far as possible. -/
def isFree (o : Outline) (line : Nat) : Bool :=
  !o.methods.any (·.containsLine line) && !o.openMethod?.any fun m => m.line ≤ line

theorem isFree_addName (n : Nat) (o : Outline) (name : List Char) :
    (o.addName n name).isFree = o.isFree := by
  cases hres : Name.isReserved name with
  | true => rw [addName_of_isReserved hres]
  | false =>
      funext line
      cases hopen : o.openMethod? with
      | none => simp [isFree, addName_openMethod? hres, hopen]
      | some m => simp [isFree, addName_openMethod? hres, hopen, Method.line_addVariable]

/-- The extent of a method that is closed on a line holds the lines up to it that the open method
held. -/
theorem containsLine_close {m : Method} {last line : Nat} (hm : m.line ≤ last)
    (hline : line ≤ last) :
    ({ m with endLine := max last m.line } : Method).containsLine line =
      decide (m.line ≤ line) := by
  have hmax : max last m.line = last := Nat.max_eq_left hm
  simp [Method.containsLine, hmax, hline]

theorem isFree_closeAt {o : Outline} {last line : Nat}
    (hopen : ∀ m, o.openMethod? = some m → m.line ≤ last) (hline : line ≤ last) :
    (o.closeAt last).isFree line = o.isFree line := by
  cases h : o.openMethod? with
  | none => rw [closeAt_of_none last h]
  | some m =>
      have hcontains := containsLine_close (hopen m h) hline
      simp [isFree, closeAt_methods_of_some last h, h, hcontains, Bool.not_or]

theorem isFree_openWith {o : Outline} {m : Method} {line : Nat} (hnone : o.openMethod? = none)
    (hline : line < m.line) : (o.openWith m).isFree line = o.isFree line := by
  simp [isFree, hnone, Nat.not_le.2 hline]

/-! ## Recorded variables -/

/-- What an outline has recorded of some assignments: each closed method has those in its extent,
the open one those since it was opened, and the file those on free lines. -/
structure Attributed (as : List Assignment) (o : Outline) : Prop where
  closed : ∀ m ∈ o.methods, m.locals = m.localsOf (as.filter fun a => m.containsLine a.line)
  opened : ∀ m, o.openMethod? = some m →
    m.locals = m.localsOf (as.filter fun a => decide (m.line ≤ a.line))
  file : o.globals = toVariables none (as.filter fun a => o.isFree a.line)

namespace Attributed

variable {as : List Assignment} {o : Outline}

theorem of_sameSymbols {o' : Outline} (hsame : o'.SameSymbols o) (h : o.Attributed as) :
    o'.Attributed as := by
  have hfree : o'.isFree = o.isFree := by
    funext line
    simp [isFree, hsame.methods, hsame.openMethod]
  refine ⟨?_, ?_, ?_⟩
  · rw [hsame.methods]
    exact h.closed
  · rw [hsame.openMethod]
    exact h.opened
  · rw [hsame.globals, hfree]
    exact h.file

/-- Closing the open method gives it the extent of what it has recorded, as long as no assignment
lies behind the line on which it is closed. -/
theorem closeAt {last : Nat} (h : o.Attributed as) (has : ∀ a ∈ as, a.line ≤ last)
    (hopen : ∀ m, o.openMethod? = some m → m.line ≤ last) : (o.closeAt last).Attributed as := by
  refine ⟨?_, by simp, ?_⟩
  · cases hcur : o.openMethod? with
    | none =>
        rw [closeAt_of_none last hcur]
        exact h.closed
    | some m =>
        rw [closeAt_methods_of_some last hcur]
        intro b hb
        rcases List.mem_append.1 hb with hold | hnew
        · exact h.closed b hold
        · -- The extent ends here, and no assignment so far lies behind it.
          have hextent : (as.filter fun a => decide (m.line ≤ a.line)) = as.filter fun a =>
              ({ m with endLine := max last m.line } : Method).containsLine a.line := by
            refine List.filter_congr fun a ha => ?_
            exact (containsLine_close (hopen m hcur) (has a ha)).symm
          cases List.mem_singleton.1 hnew
          have hlocals := h.opened m hcur
          rw [hextent] at hlocals
          exact hlocals
  · rw [closeAt_globals, h.file]
    refine congrArg _ (List.filter_congr fun a ha => ?_)
    exact (isFree_closeAt hopen (has a ha)).symm

/-- A method that is just opened has recorded nothing, and all assignments so far lie above it. -/
theorem openWith {m : Method} (h : o.Attributed as) (hnone : o.openMethod? = none)
    (hm : m.locals = []) (has : ∀ a ∈ as, a.line < m.line) : (o.openWith m).Attributed as := by
  refine ⟨h.closed, ?_, ?_⟩
  · rintro _ ⟨⟩
    have hempty : (as.filter fun a => decide (m.line ≤ a.line)) = [] := by
      refine List.filter_eq_nil_iff.2 fun a ha => ?_
      simpa using has a ha
    simp [hempty, hm, Method.localsOf, toVariables, firsts]
  · rw [openWith_globals, h.file]
    refine congrArg _ (List.filter_congr fun a ha => ?_)
    exact (isFree_openWith hnone (has a ha)).symm

/-- A name goes to the open method, which holds its line, or to the file. No closed method reaches
the line. -/
theorem addName {n : Nat} {name : List Char} (h : o.Attributed as) (hord : o.Ordered n (n + 1))
    (hres : Name.isReserved name = false) :
    (o.addName n name).Attributed (as ++ [⟨String.ofList name, n⟩]) := by
  refine ⟨?_, ?_, ?_⟩
  · intro m hm
    rw [addName_methods] at hm
    have hout : m.containsLine n = false := by
      have := hord.ended m hm
      simp [Method.containsLine]
      omega
    rw [List.filter_append]
    simpa [hout] using h.closed m hm
  · intro m hm
    rw [addName_openMethod? hres] at hm
    rcases Option.map_eq_some_iff.1 hm with ⟨m₀, hm₀, rfl⟩
    have hin : m₀.line ≤ n := Nat.le_of_lt_succ (hord.opened m₀ hm₀)
    rw [Method.line_addVariable, List.filter_append]
    simp only [List.filter_cons, hin, decide_true, if_true, List.filter_nil]
    exact Method.addVariable_locals ⟨String.ofList name, n⟩ (h.opened m₀ hm₀)
  · rw [isFree_addName, addName_globals hres, List.filter_append]
    cases hcur : o.openMethod? with
    | some m =>
        -- The line belongs to the open method, and the file gets nothing.
        have hin : m.line ≤ n := Nat.le_of_lt_succ (hord.opened m hcur)
        have hfree : o.isFree n = false := by
          simp [isFree, hcur, hin]
        simp [hfree, h.file]
    | none =>
        have hfree : o.isFree n = true := by
          simp only [isFree, hcur, Option.any_none, Bool.not_false, Bool.and_true,
            Bool.not_eq_true', List.any_eq_false]
          intro m hm
          have := hord.ended m hm
          simp [Method.containsLine]
          omega
        simp [hfree, toVariables_append, ← h.file, toVariable]

/-- All names of a line are recorded before its braces are read. -/
theorem foldl_addName {n : Nat} (names : List (List Char)) (h : o.Attributed as)
    (hord : o.Ordered n (n + 1)) :
    (names.foldl (Outline.addName n) o).Attributed
      (as ++ (names.filter (!Name.isReserved ·)).map fun name => ⟨String.ofList name, n⟩) := by
  induction names generalizing as o with
  | nil => simpa using h
  | cons name names ih =>
      rw [List.foldl_cons]
      cases hres : Name.isReserved name with
      | true => simpa [addName_of_isReserved hres, hres] using ih h hord
      | false => simpa [hres] using ih (h.addName hord hres) (hord.addName n name)

theorem foldl_addChar {n : Nat} (code : List Char) (h : o.Attributed as)
    (hord : o.Ordered (n + 1) (n + 1)) (has : ∀ a ∈ as, a.line ≤ n) :
    (code.foldl (addChar n) o).Attributed as := by
  -- The order of extents is carried along: it says where a method that is closed here has started.
  have hboth : (code.foldl (addChar n) o).Attributed as ∧
      (code.foldl (addChar n) o).Ordered (n + 1) (n + 1) := by
    refine foldl_addChar_induction (P := fun o' => o'.Attributed as ∧ o'.Ordered (n + 1) (n + 1))
      ?_ ?_ code o ⟨h, hord⟩
    · rintro a b hsame ⟨ha, horda⟩
      exact ⟨ha.of_sameSymbols hsame, horda.of_sameSymbols hsame⟩
    · rintro a ⟨ha, horda⟩
      refine ⟨ha.closeAt has ?_, horda.closeAt (Nat.le_refl _) (by omega)⟩
      intro m hm
      exact Nat.le_of_lt_succ (horda.opened m hm)
  exact hboth.1

theorem startLine (uri : Uri) {above : List SourceLine} (lines : List SourceLine)
    (h : o.Attributed as) (hord : o.Ordered above.length above.length)
    (has : ∀ a ∈ as, a.line < above.length) : (o.startLine uri above lines).Attributed as := by
  cases hdecl : Source.declaration? lines with
  | none =>
      rw [startLine_of_none hdecl]
      exact h
  | some d =>
      rw [startLine_of_some hdecl]
      have hclosed : (o.closeAt (above.length - 1)).Attributed as := by
        refine h.closeAt ?_ ?_
        · intro a ha
          exact Nat.le_sub_one_of_lt (has a ha)
        · intro m hm
          exact Nat.le_sub_one_of_lt (hord.opened m hm)
      exact hclosed.openWith (by simp) rfl has

/-- A line records its own assignments and keeps the others where they are. -/
theorem addLine (uri : Uri) {above : List SourceLine} (line : SourceLine)
    (rest : List SourceLine) (h : o.Attributed as) (hord : o.Ordered above.length above.length)
    (has : ∀ a ∈ as, a.line < above.length) :
    (o.addLine uri above line rest).Attributed
      (as ++ Source.assignmentsOn above.length (line :: rest)) := by
  rw [addLine_eq]
  have hstart := hord.startLine uri (line :: rest)
  have hnames := (h.startLine uri (line :: rest) hord has).foldl_addName
    (Source.namesIn (line :: rest)) hstart
  have hextents := (hstart.foldl_addName above.length (Source.namesIn (line :: rest))).mono
    (Nat.le_succ _) (Nat.le_refl _)
  refine hnames.foldl_addChar line.code hextents ?_
  intro a ha
  rcases List.mem_append.1 ha with hold | hnew
  · exact Nat.le_of_lt (has a hold)
  · exact Nat.le_of_eq (Source.line_of_mem_assignmentsOn hnew)

theorem addLines (uri : Uri) (above rest : List SourceLine) (h : o.Attributed as)
    (hord : o.Ordered above.length above.length) (has : ∀ a ∈ as, a.line < above.length) :
    (addLines uri above o rest).Attributed
      (as ++ Source.assignmentsFrom above.length rest) := by
  induction rest generalizing above o as with
  | nil => simpa [Source.assignmentsFrom, Outline.addLines] using h
  | cons line rest ih =>
      have hhere : ∀ a ∈ as ++ Source.assignmentsOn above.length (line :: rest),
          a.line < (line :: above).length := by
        intro a ha
        rcases List.mem_append.1 ha with hold | hnew
        · exact Nat.lt_succ_of_lt (has a hold)
        · exact Nat.lt_succ_of_le (Nat.le_of_eq (Source.line_of_mem_assignmentsOn hnew))
      have hbelow := ih (line :: above) (h.addLine uri line rest hord has)
        (hord.addLine uri line rest) hhere
      rw [List.append_assoc] at hbelow
      exact hbelow

end Attributed

theorem attributed_empty : Attributed [] {} := by
  constructor <;> simp [openMethod?, toVariables, firsts]

end Outline

/-! ## Finished scripts -/

namespace Script

open Outline

theorem finished_attributed (uri : Uri) (source : List SourceLine) :
    ((addLines uri [] {} source).closeAt (source.length - 1)).Attributed
      (Source.assignments source) := by
  have hord := ordered_empty.addLines uri [] source
  rw [List.length_nil, Nat.zero_add] at hord
  have hrun := attributed_empty.addLines uri [] source ordered_empty (by simp)
  refine Attributed.closeAt hrun ?_ ?_
  · intro a ha
    have hline := Source.line_lt_of_mem_assignmentsFrom ha
    rw [Nat.zero_add] at hline
    exact Nat.le_sub_one_of_lt hline
  · intro m hm
    exact Nat.le_sub_one_of_lt (hord.opened m hm)

/-- Variables are attributed by extent. Of all assignments of a text, those on lines of no method
are the variables of the file, and those on the lines of a method that do not name a parameter are
its local variables; in both cases the first assignment of a name counts. -/
theorem variables_follow_extents (uri : Uri) (text : String) :
    let assignments := Source.assignments (Source.ofText text.toList)
    let script := Script.ofText uri text
    script.globals =
        (firsts (assignments.filter fun a =>
          !script.methods.any (·.containsLine a.line))).map (toVariable none) ∧
      ∀ m ∈ script.methods,
        m.locals =
          (firsts ((assignments.filter fun a => m.containsLine a.line).filter fun a =>
            !m.params.any (sameName · a.name))).map (toVariable (some m.name)) := by
  intro assignments script
  have hfinished := finished_attributed uri (Source.ofText text.toList)
  refine ⟨?_, hfinished.closed⟩
  have hfile := hfinished.file
  simp only [isFree, closeAt_openMethod?, Option.any_none, Bool.not_false, Bool.and_true]
    at hfile
  exact hfile

end Script
end ScriptSymbols
