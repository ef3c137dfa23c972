import ScriptSymbols.Proofs.Outline.Hidden
import ScriptSymbols.Proofs.Outline.Lines
import ScriptSymbols.Proofs.Statement.Parameters
import ScriptSymbols.Proofs.Text.Printed

/-!
# Programs and their outlines

A program is made of assignments, functions and blank lines; the bodies of functions are made of assignments
and of blocks under a condition, to any depth. It can be printed as a text, and what it declares can be read
off without any text.

1. `Program.Body`, `Program.Item` and `Program` are programs. Their parts carry what makes them well formed.
2. `Program.lines` prints a program.
3. `Program.script` is what a program declares.
4. `Program.outline_of_printed`: the outline of a printed program is what the program declares.
-/

namespace ScriptSymbols

open Text Assignment Source

namespace Program

/-! ## Programs -/

/-- A name that a script may declare. -/
structure Ident where
  text : String
  isName : Name.isName text.toList = true
  free : Name.isReserved text.toList = false

/-- Spaces and tabs before a statement. -/
structure Indent where
  text : String
  isIndent : text.toList.all isSpaceOrTab = true

/-- A value: a run of letters, digits and underscores, such as a number or a name. -/
structure Value where
  text : String
  isWord : text.toList.all Name.isPart = true

/-- A condition on one line, without braces outside of its strings and without a comment. That is a restriction:
a condition may hold literals, as in `g({a: 1})`, whose braces are balanced. -/
structure Condition where
  text : String
  isCondition : Skeleton.IsCondition text.toList
  noFeed : '\n' ∉ text.toList

/-- A line with nothing but white space. -/
structure Blank where
  text : String
  isBlank : allBlank text.toList = true
  isLine : IsLine text.toList

/-- The body of a function. -/
inductive Body
  | done
  | assign (indent : Indent) (target : Ident) (value : Value) (rest : Body)
  | block (indent : Indent) (condition : Condition) (inner : Body) (close : Indent) (rest : Body)

/-- A part of a program. -/
inductive Item
  | blank (line : Blank)
  | assign (indent : Indent) (target : Ident) (value : Value)
  | function (indent : Indent) (name : Ident) (params : List Ident) (body : Body) (close : Indent)

end Program

/-- A program. -/
abbrev Program :=
  List Program.Item

namespace Program

/-! ## Printing -/

def assignLine (indent : Indent) (target : Ident) (value : Value) : String :=
  indent.text ++ target.text ++ " := " ++ value.text

def blockLine (indent : Indent) (condition : Condition) : String :=
  indent.text ++ "if (" ++ condition.text ++ ") \x7b"

def closeLine (indent : Indent) : String :=
  indent.text ++ "\x7d"

/-- The name of a function with its parameters. -/
def signature (name : Ident) (params : List Ident) : String :=
  name.text ++ "(" ++ ", ".intercalate (params.map Ident.text) ++ ")"

def functionLine (indent : Indent) (name : Ident) (params : List Ident) : String :=
  indent.text ++ signature name params ++ " \x7b"

/-- The lines of a body. -/
def Body.lines : Body → List String
  | .done => []
  | .assign indent target value rest => assignLine indent target value :: rest.lines
  | .block indent condition inner close rest =>
    blockLine indent condition :: (inner.lines ++ closeLine close :: rest.lines)

/-- The lines of a part of a program. -/
def Item.lines : Item → List String
  | .blank line => [line.text]
  | .assign indent target value => [assignLine indent target value]
  | .function indent name params body close =>
    functionLine indent name params :: (body.lines ++ [closeLine close])

/-- The lines of a program. -/
def lines (p : Program) : List String :=
  p.flatMap Item.lines

/-! ## What a program declares -/

/-- The assignments in a body whose first line is the given one. -/
def Body.assignments (line : Nat) : Body → List Assignment
  | .done => []
  | .assign _ target _ rest => ⟨target.text, line⟩ :: rest.assignments (line + 1)
  | .block _ _ inner _ rest =>
    inner.assignments (line + 1) ++ rest.assignments (line + inner.lines.length + 2)

/-- The method that a function is. Its variables are the names assigned in its body, in order, without
repetitions up to case and without its parameters. -/
def functionMethod (uri : Uri) (line : Nat) (name : Ident) (params : List Ident) (body : Body) :
    Method :=
  { name := name.text
    signature := signature name params
    params := params.map Ident.text
    comment := none
    uri
    line
    endLine := line + body.lines.length + 1
    locals := toVariables (some name.text)
      ((body.assignments (line + 1)).filter fun a =>
        !params.any fun param => sameName param.text a.name) }

/-- The methods of a program whose first line is the given one. -/
def methods (uri : Uri) (line : Nat) : Program → List Method
  | [] => []
  | .function indent name params body close :: rest =>
    functionMethod uri line name params body ::
      methods uri (line + (Item.function indent name params body close).lines.length) rest
  | _ :: rest => methods uri (line + 1) rest

/-- The assignments outside of all functions. -/
def assignments (line : Nat) : Program → List Assignment
  | [] => []
  | .blank _ :: rest => assignments (line + 1) rest
  | .assign _ target _ :: rest => ⟨target.text, line⟩ :: assignments (line + 1) rest
  | .function indent name params body close :: rest =>
    assignments (line + (Item.function indent name params body close).lines.length) rest

/-- The symbols that a program declares. -/
def script (uri : Uri) (p : Program) : Script :=
  { uri, methods := p.methods uri 0, globals := toVariables none (p.assignments 0) }

/-! ## Assignments, blocks and ends of blocks -/

theorem Ident.isWord (name : Ident) : name.text.toList.all Name.isIdentChar = true :=
  Name.all_isIdentChar_of_isPart (Name.all_isPart_of_isName name.isName)

theorem Ident.ne_nil (name : Ident) : name.text.toList ≠ [] := fun hnil => by
  have hname := name.isName
  rw [hnil] at hname
  cases hname

theorem Value.isIdent (value : Value) : value.text.toList.all Name.isIdentChar = true :=
  Name.all_isIdentChar_of_isPart value.isWord

theorem Indent.isBlank (indent : Indent) : indent.text.toList.all Text.isBlank = true :=
  all_isBlank_of_isSpaceOrTab indent.isIndent

theorem Ident.head?_append (name : Ident) (rest : List Char) :
    ∃ c, (name.text.toList ++ rest).head? = some c ∧ Name.isIdentChar c = true := by
  have hword := List.all_eq_true.1 name.isWord
  cases hname : name.text.toList with
  | nil => exact absurd hname name.ne_nil
  | cons c cs => exact ⟨c, rfl, hword c (by simp [hname])⟩

theorem toList_assignLine (indent : Indent) (target : Ident) (value : Value) :
    (assignLine indent target value).toList =
      indent.text.toList ++ (target.text.toList ++ (" :=".toList ++ (' ' :: value.text.toList))) := by
  simp [assignLine]

theorem skeleton_assignLine (indent : Indent) (target : Ident) (value : Value) :
    skeleton (assignLine indent target value).toList = (assignLine indent target value).toList := by
  have hmarks : (" :=".toList ++ (' ' :: value.text.toList)).any Skeleton.isMark = false := by
    rw [List.any_append, List.any_cons, Skeleton.any_isMark_of_isIdentChar value.isIdent]
    decide
  have htidy : Skeleton.squeezeFrom false (" :=".toList ++ (' ' :: value.text.toList)) =
      " :=".toList ++ (' ' :: value.text.toList) := by
    have hmark : ∀ cs, Skeleton.squeezeFrom false (" :=".toList ++ (' ' :: cs)) =
        " :=".toList ++ (' ' :: Skeleton.squeezeFrom true cs) := fun _ => rfl
    rw [hmark, Skeleton.squeezeFrom_of_solid (Skeleton.solid_of_isIdentChar value.isIdent)]
  rw [toList_assignLine]
  exact Skeleton.skeleton_statement target.isWord target.ne_nil indent.isIndent hmarks htidy

theorem reads_assignLine (indent : Indent) (target : Ident) (value : Value) :
    Reads (lineOf (assignLine indent target value).toList) [target.text.toList] [] := by
  have hcode := (skeleton_assignLine indent target value).trans (toList_assignLine indent target value)
  refine reads_assignment indent.isIndent target.isName target.free hcode (by simp) ?_
  have hspace : isBrace ' ' = false := by decide
  simp [hspace, filter_isBrace_of_isIdentChar value.isIdent]

theorem reads_blockLine (indent : Indent) (condition : Condition) :
    Reads (lineOf (blockLine indent condition).toList) [] ['{'] :=
  reads_condition indent.isIndent condition.isCondition
    (by simp [blockLine, Skeleton.conditionLine])

theorem toList_closeLine (indent : Indent) :
    (closeLine indent).toList = indent.text.toList ++ ['}'] := by
  simp [closeLine]

theorem reads_closeLine (indent : Indent) : Reads (lineOf (closeLine indent).toList) [] ['}'] := by
  refine reads_close indent.isIndent ?_
  rw [toList_closeLine]
  have hmarks : (indent.text.toList ++ ['}']).any Skeleton.isMark = false := by
    rw [List.any_append, Skeleton.any_isMark_of_isBlank indent.isBlank]
    decide
  exact Skeleton.skeleton_of_tidy (Skeleton.pass_of_unmarked hmarks) indent.isIndent rfl rfl

/-! ## Functions -/

section Params

variable (params : List Ident)

/-- The parameters of a function as they are printed. -/
def paramText : List Char :=
  join ", ".toList (params.map fun param => param.text.toList)

theorem toList_signature (name : Ident) :
    (signature name params).toList = name.text.toList ++ '(' :: (paramText params ++ [')']) := by
  simp [signature, paramText, join_eq_intercalate, Function.comp_def]

theorem toList_functionLine (indent : Indent) (name : Ident) :
    (functionLine indent name params).toList =
      indent.text.toList ++ (name.text.toList ++ '(' :: (paramText params ++ ") \x7b".toList)) := by
  simp [functionLine, toList_signature]

theorem mem_paramText {c : Char} (h : c ∈ paramText params) :
    Name.isIdentChar c = true ∨ c = ',' ∨ c = ' ' := by
  have hall : (paramText params).all (fun c => Name.isIdentChar c || c == ',' || c == ' ') = true := by
    refine all_join (by decide) fun part hpart => ?_
    obtain ⟨param, -, rfl⟩ := List.mem_map.1 hpart
    refine List.all_eq_true.2 fun c hc => ?_
    rw [List.all_eq_true.1 param.isWord c hc]
    rfl
  have hc := List.all_eq_true.1 hall c h
  simpa [or_assoc] using hc

theorem paramText_cons (param next : Ident) :
    paramText (param :: next :: params) =
      param.text.toList ++ (',' :: ' ' :: paramText (next :: params)) := rfl

theorem squeezeFrom_paramText (inGap : Bool) :
    Skeleton.squeezeFrom inGap (paramText params ++ ") \x7b".toList) =
      paramText params ++ ") \x7b".toList := by
  induction params generalizing inGap with
  | nil => rfl
  | cons param params ih =>
      have hsolid := Skeleton.solid_of_isIdentChar param.isWord
      cases params with
      | nil => exact Skeleton.squeezeFrom_append_of_solid hsolid param.ne_nil inGap ") \x7b".toList
      | cons next params =>
          have hcomma : ∀ cs, Skeleton.squeezeFrom false (',' :: ' ' :: cs) =
              ',' :: ' ' :: Skeleton.squeezeFrom true cs := fun _ => rfl
          rw [paramText_cons, List.append_assoc,
            Skeleton.squeezeFrom_append_of_solid hsolid param.ne_nil]
          simp only [List.cons_append]
          rw [hcomma, ih]

theorem paramText_eq_append (param : Ident) :
    ∃ rest, paramText (param :: params) = param.text.toList ++ rest := by
  cases params with
  | nil => exact ⟨[], (List.append_nil _).symm⟩
  | cons next params => exact ⟨_, paramText_cons params param next⟩

/-- There are no blanks at the ends of a parameter list. -/
theorem trim_paramText : trim (paramText params) = paramText params := by
  have hhead : (paramText params).head?.any isBlank = false := by
    cases params with
    | nil => rfl
    | cons param params =>
        obtain ⟨rest, hrest⟩ := paramText_eq_append params param
        obtain ⟨c, hfirst, hc⟩ := param.head?_append rest
        rw [hrest, hfirst]
        exact Name.isBlank_of_isIdentChar hc
  have hlast : (paramText params).getLast?.any isBlank = false := by
    clear hhead
    induction params with
    | nil => rfl
    | cons param params ih =>
        cases params with
        | nil => exact (Name.any_isBlank_head? param.isWord).2
        | cons next params =>
            have hsplit : paramText (param :: next :: params) =
                (param.text.toList ++ ", ".toList) ++ paramText (next :: params) := by
              simp [paramText_cons]
            have hne : paramText (next :: params) ≠ [] := fun hnil => by
              obtain ⟨rest, hrest⟩ := paramText_eq_append params next
              rw [hrest] at hnil
              exact next.ne_nil (List.append_eq_nil_iff.1 hnil).1
            rw [hsplit, List.getLast?_append_of_ne_nil _ hne]
            exact ih
  exact @trim_append [] _ rfl hhead hlast

theorem skeleton_functionLine (indent : Indent) (name : Ident) :
    skeleton (functionLine indent name params).toList = (functionLine indent name params).toList := by
  have hmarks : (paramText params).any Skeleton.isMark = false := by
    refine List.any_eq_false.2 fun c hc => Bool.eq_false_iff.1 ?_
    rcases mem_paramText params hc with hident | rfl | rfl
    · exact Skeleton.isMark_of_isIdentChar hident
    · decide
    · decide
  rw [toList_functionLine]
  exact Skeleton.skeleton_header name.isWord name.ne_nil indent.isIndent hmarks
    (squeezeFrom_paramText params false)

theorem declares_functionLine (indent : Indent) (name : Ident) :
    Declares (lineOf (functionLine indent name params).toList) name.text.toList (paramText params) := by
  have hcode := (skeleton_functionLine params indent name).trans (toList_functionLine params indent name)
  refine declares_header indent.isIndent name.isName name.free ?_ ?_ hcode
  · refine List.all_eq_true.2 fun c hc => ?_
    rcases mem_paramText params hc with hident | rfl | rfl
    · exact Statement.isNoParen_of_isIdentChar hident
    · decide
    · decide
  · refine List.filter_eq_nil_iff.2 fun c hc => Bool.eq_false_iff.1 ?_
    rcases mem_paramText params hc with hident | rfl | rfl
    · exact isBrace_of_isIdentChar hident
    · decide
    · decide

theorem paramNames_paramText :
    (Statement.paramNames (paramText params)).map String.ofList = params.map Ident.text := by
  rw [paramText, Statement.paramNames_join]
  · simp
  · intro name hname
    obtain ⟨param, -, rfl⟩ := List.mem_map.1 hname
    exact param.isName
  · intro name hname
    obtain ⟨param, -, rfl⟩ := List.mem_map.1 hname
    exact param.free

/-- The method that a function declares below lines that end with no comment. -/
theorem methodOver_eq (uri : Uri) {above : List SourceLine} (h : EndsComment above) (name : Ident)
    (body : Body) :
    methodOver uri above name.text.toList (paramText params) body.lines.length
        (body.assignments (above.length + 1)) =
      functionMethod uri above.length name params body := by
  have hcomment : commentOf? above = none := by
    have hnone := h.commentOf?_append []
    exact hnone
  have hsignature : String.ofList (name.text.toList ++ ('(' :: trim (paramText params) ++ [')'])) =
      signature name params := by
    apply String.toList_injective
    simp [trim_paramText, toList_signature]
  have hparam : ∀ a : Assignment, (params.map Ident.text).any (sameName · a.name) =
      params.any fun param => sameName param.text a.name := by
    intro a
    rw [List.any_map]
    rfl
  simp only [methodOver, Outline.methodOf, functionMethod, Method.localsOf, Method.hasParam, hsignature,
    hcomment, paramNames_paramText, hparam, String.ofList_toList, Option.map_none]

end Params

/-! ## Lines of a program -/

/-- Whether a text is a single line that neither opens a block comment nor is a comment. -/
structure IsStatement (line : List Char) : Prop where
  isLine : IsLine line
  noBlock : (trimStart line).head? ≠ some '/'
  noNote : (trimStart line).head? ≠ some ';'

/-- A line that starts with a character of a statement behind its indentation. -/
theorem isStatement_of_indent (indent : Indent) {body : List Char} {c : Char} (hhead : body.head? = some c)
    (hblank : Text.isBlank c = false) (hblock : c ≠ '/') (hnote : c ≠ ';') (hfeed : '\n' ∉ body)
    (hreturn : body.getLast? ≠ some '\r') : IsStatement (indent.text.toList ++ body) := by
  have hstart : trimStart (indent.text.toList ++ body) = body :=
    trimStart_append indent.isBlank (by rw [hhead]; exact hblank)
  have hne : body ≠ [] := by
    rintro rfl
    cases hhead
  refine ⟨⟨?_, ?_⟩, ?_, ?_⟩
  · refine List.not_mem_append (fun hmem => ?_) hfeed
    exact absurd (List.all_eq_true.1 indent.isIndent _ hmem) (by decide)
  · rwa [List.getLast?_append_of_ne_nil _ hne]
  · rw [hstart, hhead]
    simpa using hblock
  · rw [hstart, hhead]
    simpa using hnote

theorem isStatement_of_name (indent : Indent) (name : Ident) {rest : List Char} (hfeed : '\n' ∉ rest)
    (hreturn : '\r' ∉ rest) : IsStatement (indent.text.toList ++ (name.text.toList ++ rest)) := by
  have hblank : ∀ c, Text.isBlank c = true → c ∉ name.text.toList := fun c hc =>
    Name.not_mem_of_isIdentChar name.isWord (Name.isIdentChar_of_isBlank hc)
  obtain ⟨c, hhead, hc⟩ := name.head?_append rest
  refine isStatement_of_indent indent hhead (Name.isBlank_of_isIdentChar hc) ?_ ?_ ?_ ?_
  · rintro rfl
    exact absurd hc (by decide)
  · rintro rfl
    exact absurd hc (by decide)
  · exact List.not_mem_append (hblank '\n' (by decide)) hfeed
  · intro hlast
    exact List.not_mem_append (hblank '\r' (by decide)) hreturn (List.mem_of_getLast? hlast)

theorem isStatement_assignLine (indent : Indent) (target : Ident) (value : Value) :
    IsStatement (assignLine indent target value).toList := by
  have hvalue : ∀ c, Text.isBlank c = true → c ∉ " := ".toList →
      c ∉ " :=".toList ++ (' ' :: value.text.toList) := by
    intro c hc hmark hmem
    have hcases : c ∈ " := ".toList ∨ c ∈ value.text.toList := by
      rw [← List.mem_append]
      exact hmem
    rcases hcases with hmem | hmem
    · exact hmark hmem
    · exact Name.not_mem_of_isIdentChar value.isIdent (Name.isIdentChar_of_isBlank hc) hmem
  rw [toList_assignLine]
  exact isStatement_of_name indent target (hvalue '\n' (by decide) (by decide))
    (hvalue '\r' (by decide) (by decide))

theorem isStatement_functionLine (indent : Indent) (name : Ident) (params : List Ident) :
    IsStatement (functionLine indent name params).toList := by
  have hparams : ∀ c, Text.isBlank c = true → c ≠ ' ' →
      c ∉ '(' :: (paramText params ++ ") \x7b".toList) := by
    intro c hc hspace hmem
    rcases List.mem_cons.1 hmem with rfl | hmem
    · exact absurd hc (by decide)
    rcases List.mem_append.1 hmem with hmem | hmem
    · rcases mem_paramText params hmem with hident | rfl | rfl
      · rw [Name.isIdentChar_of_isBlank hc] at hident
        cases hident
      · exact absurd hc (by decide)
      · exact hspace rfl
    · have hcases : c = ')' ∨ c = ' ' ∨ c = '{' := by simpa using hmem
      rcases hcases with rfl | rfl | rfl
      · exact absurd hc (by decide)
      · exact hspace rfl
      · exact absurd hc (by decide)
  rw [toList_functionLine]
  exact isStatement_of_name indent name (hparams '\n' (by decide) (by decide))
    (hparams '\r' (by decide) (by decide))

theorem isStatement_blockLine (indent : Indent) (condition : Condition) :
    IsStatement (blockLine indent condition).toList := by
  have hline : (blockLine indent condition).toList =
      indent.text.toList ++ ("if (".toList ++ condition.text.toList ++ ") \x7b".toList) := by
    simp [blockLine]
  have hfeed : '\n' ∉ "if (".toList ++ condition.text.toList ++ ") \x7b".toList :=
    List.not_mem_append (List.not_mem_append (by decide) condition.noFeed) (by decide)
  have hreturn : ("if (".toList ++ condition.text.toList ++ ") \x7b".toList).getLast? ≠ some '\r' := by
    rw [List.getLast?_append_of_ne_nil _ (by decide)]
    decide
  rw [hline]
  exact isStatement_of_indent indent (c := 'i') rfl (by decide) (by decide) (by decide) hfeed hreturn

theorem isStatement_closeLine (indent : Indent) : IsStatement (closeLine indent).toList := by
  rw [toList_closeLine]
  exact isStatement_of_indent indent (c := '}') rfl (by decide) (by decide) (by decide) (by decide)
    (by decide)

theorem isStatement_blank (line : Blank) : IsStatement line.text.toList := by
  have hstart : trimStart line.text.toList = [] :=
    List.dropWhile_eq_nil_iff.2 (List.all_eq_true.1 line.isBlank)
  refine ⟨line.isLine, ?_, ?_⟩
  · simp [hstart]
  · simp [hstart]

theorem Body.isStatement (body : Body) : ∀ line ∈ body.lines, IsStatement line.toList := by
  induction body with
  | done => simp [Body.lines]
  | assign indent target value rest ih =>
      intro line hline
      rcases List.mem_cons.1 hline with rfl | hline
      · exact isStatement_assignLine indent target value
      · exact ih line hline
  | block indent condition inner close rest ihinner ihrest =>
      intro line hline
      rcases List.mem_cons.1 hline with rfl | hline
      · exact isStatement_blockLine indent condition
      rcases List.mem_append.1 hline with hline | hline
      · exact ihinner line hline
      rcases List.mem_cons.1 hline with rfl | hline
      · exact isStatement_closeLine close
      · exact ihrest line hline

theorem Item.isStatement (item : Item) : ∀ line ∈ item.lines, IsStatement line.toList := by
  intro line hline
  cases item with
  | blank blank =>
      rw [List.mem_singleton.1 hline]
      exact isStatement_blank blank
  | assign indent target value =>
      rw [List.mem_singleton.1 hline]
      exact isStatement_assignLine indent target value
  | function indent name params body close =>
      rcases List.mem_cons.1 hline with rfl | hline
      · exact isStatement_functionLine indent name params
      rcases List.mem_append.1 hline with hline | hline
      · exact body.isStatement line hline
      · rw [List.mem_singleton.1 hline]
        exact isStatement_closeLine close

/-! ## The layout of a program -/

theorem IsStatement.endsComment {line : String} (h : IsStatement line.toList) (above : List SourceLine) :
    EndsComment (lineOf line.toList :: above) := by
  rintro last hlast
  cases hlast
  rw [head?_trim]
  exact h.noNote

theorem ofNames_ident (name : Ident) (line : Nat) :
    ofNames line [name.text.toList] = [⟨name.text, line⟩] := by
  simp [ofNames, name.free]

/-- The blocks of a body are the blocks of its lines. -/
theorem Body.nested (body : Body) (n : Nat) : Nested n (linesOf body.lines) (body.assignments n) := by
  induction body generalizing n with
  | done => exact Nested.done n
  | assign indent target value rest ih =>
      have hline := Nested.line (reads_assignLine indent target value) (ih (n + 1))
      rw [ofNames_ident] at hline
      exact hline
  | block indent condition inner close rest ihinner ihrest =>
      have hrest := ihrest (n + inner.lines.length + 2)
      have hlength : (linesOf inner.lines).length = inner.lines.length := List.length_map _
      rw [← hlength] at hrest
      have hblock := Nested.block (reads_blockLine indent condition) (ihinner (n + 1))
        (reads_closeLine close) hrest
      rw [hlength] at hblock
      simpa [Body.lines, Body.assignments, linesOf] using hblock

theorem layout (uri : Uri) (p : Program) {above : List SourceLine} (h : EndsComment above) :
    Layout uri above (linesOf p.lines) (p.methods uri above.length) (p.assignments above.length) := by
  induction p generalizing above with
  | nil => exact Layout.done above
  | cons item p ih =>
      cases item with
      | blank line =>
          have hrest := ih ((isStatement_blank line).endsComment above)
          exact Layout.line (reads_blank line.isBlank) hrest
      | assign indent target value =>
          have hrest := ih ((isStatement_assignLine indent target value).endsComment above)
          have hline := Layout.line (reads_assignLine indent target value) hrest
          rw [ofNames_ident] at hline
          exact hline
      | function indent name params body close =>
          have hrest := ih ((isStatement_closeLine close).endsComment
            ((linesOf body.lines).reverse ++ lineOf (functionLine indent name params).toList :: above))
          have hmethod := Layout.method (declares_functionLine params indent name)
            (body.nested (above.length + 1)) (reads_closeLine close) hrest
          have hlength : (linesOf body.lines).length = body.lines.length := List.length_map _
          have hbehind : (lineOf (closeLine close).toList :: ((linesOf body.lines).reverse ++
              lineOf (functionLine indent name params).toList :: above)).length =
                above.length + (Item.function indent name params body close).lines.length := by
            simp [Item.lines, hlength]
            omega
          rw [hbehind, hlength, methodOver_eq params uri h name body] at hmethod
          simpa [lines, Item.lines, linesOf, methods, assignments] using hmethod

/-- The text of a program has its lines. -/
theorem lines_printed_lines (p : Program) :
    Text.lines (printed p.lines).toList = p.lines.map String.toList := by
  refine lines_printed fun line hline => ?_
  obtain ⟨item, -, hline⟩ := List.mem_flatMap.1 hline
  exact (item.isStatement line hline).isLine

/-- Reading undoes printing. From the text of a program, and from any text with the same lines, all that the
program declares is read, and nothing else: its functions in order, each with its name, its signature, its
parameters, its first and its last line and the names assigned in its body, and the names assigned outside of
all functions. The conditions of blocks are restricted: they have no braces outside of their strings, not even
those of a literal. -/
theorem outline_of_printed (uri : Uri) (p : Program) :
    Script.ofText uri (printed p.lines) = p.script uri ∧
      ∀ text : String, Text.lines text.toList = p.lines.map String.toList →
        Script.ofText uri text = p.script uri := by
  have hread : ∀ text : String, Text.lines text.toList = p.lines.map String.toList →
      Script.ofText uri text = p.script uri := by
    intro text htext
    have hsource : Source.ofText text.toList = linesOf p.lines := by
      refine ofText_eq_linesOf htext fun line hline => ?_
      obtain ⟨item, -, hline⟩ := List.mem_flatMap.1 hline
      exact opensComment_eq_false (item.isStatement line hline).noBlock
    have htop : EndsComment [] := fun _ hnone => nomatch hnone
    rw [Script.ofText, hsource, (layout uri p htop).ofSource]
    rfl
  exact ⟨hread _ (lines_printed_lines p), hread⟩

/-- A function with a block inside a block, whose condition has a brace in a string; two of its assignments
declare nothing new. The lines end with carriage returns. -/
theorem outline_of_printed_blocks :
    let uri : Uri := ⟨"file:///ws/a.ahk"⟩
    let total : Ident := ⟨"total", by decide, by decide⟩
    let add : Ident := ⟨"add", by decide, by decide⟩
    let left : Ident := ⟨"left", by decide, by decide⟩
    let sum : Ident := ⟨"sum", by decide, by decide⟩
    let upperSum : Ident := ⟨"SUM", by decide, by decide⟩
    let last : Ident := ⟨"last", by decide, by decide⟩
    let flat : Indent := ⟨"", by decide⟩
    let deep : Indent := ⟨" \t", by decide⟩
    let one : Value := ⟨"1", by decide⟩
    let isBrace : Condition :=
      ⟨"left  = \"\x7b\"", ⟨by decide, by decide, by decide⟩, by decide⟩
    let p : Program :=
      [.assign flat total one,
        .function flat add [left, last]
          (.block deep isBrace
            (.assign deep sum one
              (.block deep isBrace (.assign flat left one .done) flat (.assign deep upperSum one .done)))
            deep .done)
          flat]
    let text := String.join (p.lines.map (· ++ "\r\n"))
    Text.lines text.toList = p.lines.map String.toList ∧
      Script.ofText uri text =
        { uri
          methods :=
            [{ name := "add", signature := "add(left, last)", params := ["left", "last"], comment := none,
               uri, line := 1, endLine := 9, locals := [⟨"sum", 3, some "add"⟩] }]
          globals := [⟨"total", 0, none⟩] } := by
  intro uri total add left sum upperSum last flat deep one isBrace p text
  have hlines : Text.lines text.toList = p.lines.map String.toList := by decide +kernel
  have hscript : p.script uri =
      { uri
        methods :=
          [{ name := "add", signature := "add(left, last)", params := ["left", "last"], comment := none,
             uri, line := 1, endLine := 9, locals := [⟨"sum", 3, some "add"⟩] }]
        globals := [⟨"total", 0, none⟩] } := by
    decide +kernel
  exact ⟨hlines, ((outline_of_printed uri p).2 text hlines).trans hscript⟩

/-- Balanced braces in a condition are not enough. Once the literal is taken out, a comment starts behind it and
hides the brace of the block, so that the function ends with the block. -/
example :
    (Script.ofText ⟨"file:///ws/a.ahk"⟩
        "f() \x7b\n  if (x = \x7ba\x7d;b) \x7b\n  \x7d\n  y := 2\n\x7d\n").methods.map
      (fun m => (m.name, m.line, m.endLine)) = [("f", 0, 2)] := by
  decide +kernel

end Program
end ScriptSymbols
