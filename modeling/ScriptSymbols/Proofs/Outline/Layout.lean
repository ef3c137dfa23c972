import ScriptSymbols.Proofs.Outline.Attribution
import ScriptSymbols.Proofs.Outline.Reading

/-!
# Sources that are laid out plainly

A source is laid out plainly if every method has its brace on the line that declares it, a line opens or
closes one block at most, and every block is closed. Its symbols can be read off line by line, without an
outline.

1. `Source.Reads` and `Source.Declares` say what a single line is.
2. `Source.Nested` relates the lines of a body, with blocks inside blocks, to the assignments in them.
3. `Source.Layout` relates the lines of a source to its methods and to the assignments at file scope.
4. `Source.Layout.ofSource` is the result: these are the symbols of the script.
-/

namespace ScriptSymbols

open Text Assignment

/-! ## Variables of a scope -/

/-- The assignments that some names on one line make. Keywords are never assigned. -/
def Assignment.ofNames (line : Nat) (names : List (List Char)) : List Assignment :=
  (names.filter (!Name.isReserved ·)).map fun name => ⟨String.ofList name, line⟩

/-- The method with the variables that some assignments declare in it. -/
def Method.addVariables (m : Method) (as : List Assignment) : Method :=
  as.foldl (fun m a => m.addVariable a.name a.line) m

theorem Method.addVariables_append (m : Method) (as bs : List Assignment) :
    m.addVariables (as ++ bs) = (m.addVariables as).addVariables bs :=
  List.foldl_append

theorem Method.addVariables_eq {m : Method} {as : List Assignment} (h : m.locals = m.localsOf as)
    (bs : List Assignment) : m.addVariables bs = { m with locals := m.localsOf (as ++ bs) } := by
  induction bs generalizing m as with
  | nil =>
      rw [List.append_nil, ← h]
      rfl
  | cons b bs ih =>
      -- A variable leaves the name and the parameters alone, by which locals are chosen.
      have hvariable : ∃ vs, m.addVariable b.name b.line = { m with locals := vs } := by
        unfold Method.addVariable
        split
        · exact ⟨m.locals, rfl⟩
        · exact ⟨_, rfl⟩
      obtain ⟨vs, hvs⟩ := hvariable
      have hlocals := Method.addVariable_locals b h
      rw [hvs] at hlocals
      have hstep := ih hlocals
      rw [List.append_assoc] at hstep
      calc
        m.addVariables (b :: bs) = (m.addVariable b.name b.line).addVariables bs := rfl
        _ = Method.addVariables { m with locals := vs } bs := by rw [hvs]
        _ = { m with locals := m.localsOf (as ++ b :: bs) } := hstep

namespace Outline

/-! ## Between methods and within one -/

/-- The outline between two methods, with the given methods and assignments above. -/
def between (ms : List Method) (as : List Assignment) : Outline :=
  { methods := ms, globals := toVariables none as }

/-- The outline within a method that stands at file scope, and within the given number of its blocks. -/
def within (ms : List Method) (as : List Assignment) (m : Method) (blocks : Nat) : Outline :=
  { methods := ms
    current := some { method := m, startDepth := 0, entered := true }
    globals := toVariables none as
    depth := blocks + 1 }

section

variable (ms : List Method) (as : List Assignment) (m : Method) (line : Nat)

theorem addName_between {name : List Char} (h : Name.isReserved name = false) :
    (between ms as).addName line name = between ms (as ++ [⟨String.ofList name, line⟩]) := by
  have hvariables := toVariables_append none as ⟨String.ofList name, line⟩
  cases hknown : declares (toVariables none as) (String.ofList name) with
  | true =>
      rw [hknown, if_pos rfl] at hvariables
      simp [addName, h, between, hknown, hvariables]
  | false =>
      rw [hknown, if_neg Bool.false_ne_true] at hvariables
      simp [addName, h, between, hknown, hvariables, toVariable]

/-- Names between methods declare variables of the file. -/
theorem foldl_addName_between (names : List (List Char)) :
    names.foldl (addName line) (between ms as) = between ms (as ++ ofNames line names) := by
  induction names generalizing as with
  | nil => simp [ofNames]
  | cons name names ih =>
      cases hres : Name.isReserved name with
      | true => simp [addName_of_isReserved hres, ih, ofNames, hres]
      | false => simp [addName_between ms as line hres, ih, ofNames, hres]

/-- Names within a method declare variables of the method. -/
theorem foldl_addName_within (blocks : Nat) (names : List (List Char)) :
    names.foldl (addName line) (within ms as m blocks) =
      within ms as (m.addVariables (ofNames line names)) blocks := by
  induction names generalizing m with
  | nil => rfl
  | cons name names ih =>
      cases hres : Name.isReserved name with
      | true => simp [addName_of_isReserved hres, ih, ofNames, hres]
      | false =>
          have hadd : (within ms as m blocks).addName line name =
              within ms as (m.addVariable (String.ofList name) line) blocks := by
            simp [addName, hres, within]
          simp [hadd, ih, ofNames, hres, Method.addVariables]

theorem addChar_open_within (blocks : Nat) :
    (within ms as m blocks).addChar line '{' = within ms as m (blocks + 1) := rfl

theorem addChar_close_within (blocks : Nat) :
    (within ms as m (blocks + 1)).addChar line '}' = within ms as m blocks := rfl

/-- The brace that closes no block of the method closes the method. -/
theorem addChar_close_method :
    (within ms as m 0).addChar line '}' =
      between (ms ++ [{ m with endLine := max line m.line }]) as := rfl

end

end Outline

namespace Source

open Outline

/-! ## Single lines -/

/-- Whether a line declares no method and is read as some names and braces. -/
structure Reads (line : SourceLine) (names : List (List Char)) (braces : List Char) : Prop where
  header : Statement.header? line.code = none
  names : Statement.assigned line.code = names
  braces : line.code.filter isBrace = braces

instance (line : SourceLine) (names : List (List Char)) (braces : List Char) :
    Decidable (Reads line names braces) :=
  decidable_of_iff
    ((Statement.header? line.code).isNone = true ∧ Statement.assigned line.code = names ∧
      line.code.filter isBrace = braces)
    ⟨fun ⟨header, names, braces⟩ => ⟨Option.isNone_iff_eq_none.1 header, names, braces⟩,
      fun h => ⟨Option.isNone_iff_eq_none.2 h.header, h.names, h.braces⟩⟩

/-- Whether a line declares a method and has the brace of its body at the end. -/
structure Declares (line : SourceLine) (name params : List Char) : Prop where
  header : Statement.header? line.code = some { name, params, body := some [] }
  free : Name.isReserved name = false
  braces : line.code.filter isBrace = ['{']

theorem Reads.addLine {line : SourceLine} {names : List (List Char)} {braces : List Char}
    (h : Reads line names braces) (uri : Uri) (above : List SourceLine) (o : Outline)
    (rest : List SourceLine) :
    o.addLine uri above line rest =
      braces.foldl (addChar above.length) (names.foldl (addName above.length) o) := by
  have hdecl : declaration? (line :: rest) = none := by
    simp [declaration?, h.header]
  have hnames : namesIn (line :: rest) = names := by
    simp [namesIn, hdecl, h.names]
  rw [addLine_eq, startLine_of_none hdecl, hnames, ← foldl_addChar_filter, h.braces]

theorem Declares.addLine {line : SourceLine} {name params : List Char}
    (h : Declares line name params) (uri : Uri) (above : List SourceLine) (ms : List Method)
    (as : List Assignment) (rest : List SourceLine) :
    (between ms as).addLine uri above line rest =
      within ms as (methodOf uri above above.length { name, params, body := none }) 0 := by
  have hdecl : declaration? (line :: rest) = some { name, params, body := none } := by
    simp [declaration?, h.header, h.free, trim, trimStart, trimEnd, dropEndWhile]
  have hnames : namesIn (line :: rest) = [] := by
    simp [namesIn, hdecl]
  rw [addLine_eq, startLine_of_some hdecl, hnames, ← foldl_addChar_filter, h.braces]
  rfl

/-! ## Bodies -/

/-- The lines of a body, from line `n` on, and the assignments in them. Blocks may stand inside it and
inside each other. -/
inductive Nested : Nat → List SourceLine → List Assignment → Prop
  | done (n : Nat) : Nested n [] []
  | line {n : Nat} {line : SourceLine} {rest : List SourceLine} {names : List (List Char)}
      {as : List Assignment} (first : Reads line names []) (behind : Nested (n + 1) rest as) :
      Nested n (line :: rest) (ofNames n names ++ as)
  | block {n : Nat} {opening closing : SourceLine} {inner rest : List SourceLine}
      {as bs : List Assignment} (opens : Reads opening [] ['{']) (inside : Nested (n + 1) inner as)
      (closes : Reads closing [] ['}']) (behind : Nested (n + inner.length + 2) rest bs) :
      Nested n (opening :: (inner ++ closing :: rest)) (as ++ bs)

/-- A body is read within its method, and within as many blocks behind it as before it. -/
theorem Nested.addLines {n : Nat} {lines : List SourceLine} {bs : List Assignment}
    (h : Nested n lines bs) (uri : Uri) {above : List SourceLine} (hn : above.length = n)
    (ms : List Method) (as : List Assignment) (m : Method) (blocks : Nat) (rest : List SourceLine) :
    Outline.addLines uri above (within ms as m blocks) (lines ++ rest) =
      Outline.addLines uri (lines.reverse ++ above) (within ms as (m.addVariables bs) blocks) rest := by
  -- `m` is the method as far as it is read, and `blocks` how deep the lines stand in it.
  induction h generalizing above m blocks rest with
  | done n => rfl
  | @line n line behind names bs first _ ih =>
      have hstep : (within ms as m blocks).addLine uri above line (behind ++ rest) =
          within ms as (m.addVariables (ofNames n names)) blocks := by
        rw [first.addLine, hn]
        exact foldl_addName_within ms as m n blocks names
      have hnext : (line :: above).length = n + 1 := by
        rw [List.length_cons, hn]
      rw [List.cons_append, Outline.addLines, hstep, ih hnext, Method.addVariables_append]
      simp
  | @block n opening closing inner behind bs cs opens _ closes _ ihinner ihbehind =>
      have hsplit : opening :: (inner ++ closing :: behind) ++ rest =
          opening :: (inner ++ closing :: (behind ++ rest)) := by
        simp
      have hinner : (opening :: above).length = n + 1 := by
        rw [List.length_cons, hn]
      have hbehind : (closing :: (inner.reverse ++ opening :: above)).length =
          n + inner.length + 2 := by
        simp [hn]
        omega
      -- The block is read one deeper, up to the line that closes it, and the rest as deep as before.
      rw [hsplit, Outline.addLines, opens.addLine]
      dsimp only [List.foldl_cons, List.foldl_nil]
      rw [addChar_open_within, ihinner hinner, Outline.addLines, closes.addLine]
      dsimp only [List.foldl_cons, List.foldl_nil]
      rw [addChar_close_within, ihbehind hbehind, Method.addVariables_append]
      simp

/-! ## Sources -/

/-- The method that a line declares, with a body of the given height and assignments. -/
def methodOver (uri : Uri) (above : List SourceLine) (name params : List Char) (height : Nat)
    (as : List Assignment) : Method :=
  let m := methodOf uri above above.length { name, params, body := none }
  { m with endLine := above.length + height + 1, locals := m.localsOf as }

theorem close_eq_methodOver (uri : Uri) (above : List SourceLine) (name params : List Char)
    (height : Nat) (as : List Assignment) :
    let m := (methodOf uri above above.length { name, params, body := none }).addVariables as
    { m with endLine := max (above.length + height + 1) m.line } =
      methodOver uri above name params height as := by
  intro m
  have hvariables : m = { methodOf uri above above.length { name, params, body := none } with
      locals := (methodOf uri above above.length { name, params, body := none }).localsOf as } :=
    @Method.addVariables_eq _ [] rfl as
  have hbehind : above.length ≤ above.length + height + 1 := by omega
  rw [hvariables]
  simp [methodOver, methodOf, Nat.max_eq_left hbehind]

/-- The lines below `above`, their methods and the assignments outside of these. -/
inductive Layout (uri : Uri) :
    List SourceLine → List SourceLine → List Method → List Assignment → Prop
  | done (above : List SourceLine) : Layout uri above [] [] []
  | line {above rest : List SourceLine} {line : SourceLine} {names : List (List Char)}
      {ms : List Method} {as : List Assignment} (first : Reads line names [])
      (behind : Layout uri (line :: above) rest ms as) :
      Layout uri above (line :: rest) ms (ofNames above.length names ++ as)
  | method {above body rest : List SourceLine} {opening closing : SourceLine}
      {name params : List Char} {ms : List Method} {as bs : List Assignment}
      (declares : Declares opening name params) (inside : Nested (above.length + 1) body bs)
      (closes : Reads closing [] ['}'])
      (behind : Layout uri (closing :: (body.reverse ++ opening :: above)) rest ms as) :
      Layout uri above (opening :: (body ++ closing :: rest))
        (methodOver uri above name params body.length bs :: ms) as

namespace Layout

variable {uri : Uri} {above lines : List SourceLine} {ms : List Method} {as : List Assignment}

theorem addLines (h : Layout uri above lines ms as) (ms' : List Method) (as' : List Assignment) :
    Outline.addLines uri above (between ms' as') lines = between (ms' ++ ms) (as' ++ as) := by
  -- `ms'` and `as'` are what the lines above have given.
  induction h generalizing ms' as' with
  | done above => simp [Outline.addLines]
  | @line above rest line names ms as first _ ih =>
      have hstep : (between ms' as').addLine uri above line rest =
          between ms' (as' ++ ofNames above.length names) := by
        rw [first.addLine]
        exact foldl_addName_between ms' as' above.length names
      rw [Outline.addLines, hstep, ih, List.append_assoc]
  | @method above body rest opening closing name params ms as bs declares inside closes _ ih =>
      have hlast : (body.reverse ++ opening :: above).length = above.length + body.length + 1 := by
        simp
        omega
      rw [Outline.addLines, declares.addLine, inside.addLines uri rfl, Outline.addLines, closes.addLine]
      dsimp only [List.foldl_cons, List.foldl_nil]
      rw [addChar_close_method, hlast, close_eq_methodOver, ih, List.append_assoc]
      rfl

/-- Two parts that are laid out plainly, one below the other. -/
theorem append {below : List SourceLine} {ms' : List Method} {as' : List Assignment}
    (h : Layout uri above lines ms as) (hbelow : Layout uri (lines.reverse ++ above) below ms' as') :
    Layout uri above (lines ++ below) (ms ++ ms') (as ++ as') := by
  induction h with
  | done above => exact hbelow
  | line first _ ih =>
      rw [List.reverse_cons, List.append_assoc] at hbelow
      rw [List.append_assoc]
      exact .line first (ih hbelow)
  | @method above body rest opening closing name params ms as bs declares inside closes _ ih =>
      have hlines : opening :: (body ++ closing :: rest) ++ below =
          opening :: (body ++ closing :: (rest ++ below)) := by
        simp
      have habove : (opening :: (body ++ closing :: rest)).reverse ++ above =
          rest.reverse ++ closing :: (body.reverse ++ opening :: above) := by
        simp
      rw [habove] at hbelow
      rw [hlines]
      exact .method declares inside closes (ih hbelow)

/-- The symbols of a source that is laid out plainly. -/
theorem ofSource (h : Layout uri [] lines ms as) :
    Script.ofSource uri lines = { uri, methods := ms, globals := toVariables none as } := by
  have hrun : Outline.addLines uri [] {} lines = between ms as := h.addLines [] []
  rw [Script.ofSource, hrun]
  rfl

end Layout
end Source
end ScriptSymbols
