import ScriptSymbols.Proofs.Outline.Extent

/-!
# Blocks of methods

Where a method ends is said twice. While lines are read, a depth, a saved depth and a flag decide about
each brace. From the text as a whole, a method ends with the first brace that closes what its
declaration has opened, or else before the next declaration.

1. `Block.ClosedBy` says of a brace that it closes a block, from the text before it alone.
2. `Block.End` is the line on which a block ends.
3. `Block.Tracks` compares what is kept of an open method with the text since its declaration.
4. `Outline.Blocks` is the invariant: closed methods end with their blocks, and the open one is
   tracked.
-/

namespace ScriptSymbols

/-! ## Depth of braces -/

namespace Text

/-- The depth behind a character that may be a brace; at depth zero nothing closes. -/
def braceDepth (depth : Nat) (c : Char) : Nat :=
  if c = '{' then depth + 1 else if c = '}' then depth - 1 else depth

/-- The depth behind a text. -/
def depthAfter (depth : Nat) (code : List Char) : Nat :=
  code.foldl braceDepth depth

@[simp]
theorem depthAfter_nil (depth : Nat) : depthAfter depth [] = depth := rfl

theorem depthAfter_cons (depth : Nat) (c : Char) (code : List Char) :
    depthAfter depth (c :: code) = depthAfter (braceDepth depth c) code := rfl

theorem depthAfter_append (depth : Nat) (code more : List Char) :
    depthAfter depth (code ++ more) = depthAfter (depthAfter depth code) more := by
  simp [depthAfter]

end Text

open Text

/-! ## The end of a block -/

namespace Block

/-- Whether an opening brace in a text brings the depth above that before the text. -/
def HasOpened (depth : Nat) (read : List Char) : Prop :=
  ∃ front, front ++ ['{'] <+: read ∧ depth < depthAfter depth (front ++ ['{'])

/-- Whether a character closes the block that the text before it has opened. -/
def ClosedBy (depth : Nat) (read : List Char) (c : Char) : Prop :=
  c = '}' ∧ depthAfter depth (read ++ [c]) ≤ depth ∧ HasOpened depth read

/-- Whether no character of a text closes the block. -/
def StaysOpen (depth : Nat) (read : List Char) : Prop :=
  ∀ front c, front ++ [c] <+: read → ¬ ClosedBy depth front c

/-- The line on which a block ends, given its characters with their lines and the line behind it: the
line of the first character that closes the block, or the last line if there is none. -/
inductive End (depth : Nat) (chars : List (Nat × Char)) (stop : Nat) : Nat → Prop
  | closed {read rest : List (Nat × Char)} {line : Nat} {c : Char}
      (split : chars = read ++ (line, c) :: rest)
      (first : StaysOpen depth (read.map Prod.snd))
      (closes : ClosedBy depth (read.map Prod.snd) c) : End depth chars stop line
  | unclosed (never : StaysOpen depth (chars.map Prod.snd)) : End depth chars stop (stop - 1)

theorem not_hasOpened_nil (depth : Nat) : ¬ HasOpened depth [] := by
  rintro ⟨front, hfront, -⟩
  simp at hfront

theorem concat_isPrefix_concat_iff {front read : List Char} {d c : Char} :
    front ++ [d] <+: read ++ [c] ↔ (front = read ∧ d = c) ∨ front ++ [d] <+: read := by
  rw [List.prefix_concat_iff]
  simp

theorem hasOpened_concat {depth : Nat} {read : List Char} {c : Char} :
    HasOpened depth (read ++ [c]) ↔
      HasOpened depth read ∨ c = '{' ∧ depth < depthAfter depth (read ++ [c]) := by
  constructor
  · rintro ⟨front, hfront, hdepth⟩
    rcases concat_isPrefix_concat_iff.1 hfront with ⟨rfl, rfl⟩ | hbefore
    · exact Or.inr ⟨rfl, hdepth⟩
    · exact Or.inl ⟨front, hbefore, hdepth⟩
  · rintro (⟨front, hfront, hdepth⟩ | ⟨rfl, hdepth⟩)
    · exact ⟨front, hfront.trans (List.prefix_append _ _), hdepth⟩
    · exact ⟨read, List.prefix_rfl, hdepth⟩

theorem staysOpen_nil (depth : Nat) : StaysOpen depth [] := by
  intro front c hfront
  simp at hfront

theorem StaysOpen.concat {depth : Nat} {read : List Char} {c : Char} (h : StaysOpen depth read)
    (hc : ¬ ClosedBy depth read c) : StaysOpen depth (read ++ [c]) := by
  intro front d hfront
  rcases concat_isPrefix_concat_iff.1 hfront with ⟨rfl, rfl⟩ | hbefore
  · exact hc
  · exact h front d hbefore

/-- What is kept of an open method agrees with the text since its declaration, which has not closed
it. -/
structure Tracks (cur : OpenMethod) (depth : Nat) (read : List Char) : Prop where
  depth : depth = depthAfter cur.startDepth read
  entered : cur.entered = true ↔ HasOpened cur.startDepth read
  unclosed : StaysOpen cur.startDepth read

theorem tracks_nil {cur : OpenMethod} (h : cur.entered = false) : Tracks cur cur.startDepth [] where
  depth := rfl
  entered := by simp [h, not_hasOpened_nil]
  unclosed := staysOpen_nil _

namespace Tracks

variable {cur : OpenMethod} {depth : Nat} {read : List Char}

theorem depthAfter_concat (h : Tracks cur depth read) (c : Char) :
    depthAfter cur.startDepth (read ++ [c]) = braceDepth depth c := by
  rw [depthAfter_append, ← h.depth]
  rfl

/-- The test that is made at each character finds the characters that close the block. -/
theorem closedBy_iff (h : Tracks cur depth read) (c : Char) :
    ClosedBy cur.startDepth read c ↔
      c = '}' ∧ cur.entered = true ∧ braceDepth depth c ≤ cur.startDepth := by
  rw [ClosedBy, h.depthAfter_concat, ← h.entered, and_comm (a := cur.entered = true)]

/-- The flag is set where an opening brace brings the depth above the saved one. -/
theorem concat (h : Tracks cur depth read) {c : Char} (hc : ¬ ClosedBy cur.startDepth read c) :
    Tracks
      { cur with
        entered := cur.entered || decide (c = '{' ∧ cur.startDepth < braceDepth depth c) }
      (braceDepth depth c) (read ++ [c]) where
  depth := (h.depthAfter_concat c).symm
  entered := by
    rw [Bool.or_eq_true, decide_eq_true_iff, h.entered, hasOpened_concat, h.depthAfter_concat]
  unclosed := h.unclosed.concat hc

end Tracks
end Block

open Block

/-! ## Braces of an outline -/

namespace Outline

theorem addChar_of_none {o : Outline} (line : Nat) (c : Char) (h : o.current = none) :
    o.addChar line c = { o with depth := braceDepth o.depth c } := by
  unfold addChar braceDepth
  split
  · simp [h]
  · split
    · simp [h]
    · rfl

/-- A character closes the open method or is kept track of. -/
theorem addChar_of_some {o : Outline} {cur : OpenMethod} (line : Nat) (c : Char)
    (h : o.current = some cur) :
    o.addChar line c =
      if c = '}' ∧ cur.entered = true ∧ braceDepth o.depth c ≤ cur.startDepth then
        { o with
          depth := braceDepth o.depth c
          current := none
          methods := o.methods ++ [cur.close line] }
      else
        { o with
          depth := braceDepth o.depth c
          current := some
            { cur with
              entered :=
                cur.entered || decide (c = '{' ∧ cur.startDepth < braceDepth o.depth c) } } := by
  rcases o with ⟨methods, current, globals, depth⟩
  cases h
  unfold addChar braceDepth
  by_cases hopen : c = '{'
  · simp [hopen]
  · by_cases hclose : c = '}'
    · simp [hclose]
    · simp [hopen, hclose]

theorem depth_addChar (line : Nat) (o : Outline) (c : Char) :
    (o.addChar line c).depth = braceDepth o.depth c := by
  cases h : o.current with
  | none => rw [addChar_of_none line c h]
  | some cur =>
      rw [addChar_of_some line c h]
      split <;> rfl

theorem depth_foldl_addChar (line : Nat) (o : Outline) (code : List Char) :
    (code.foldl (addChar line) o).depth = depthAfter o.depth code := by
  induction code generalizing o with
  | nil => rfl
  | cons c code ih => rw [List.foldl_cons, ih, depth_addChar, depthAfter_cons]

theorem addName_current (line : Nat) (o : Outline) (name : List Char) :
    (o.addName line name).current = o.current ∨
      ∃ cur, o.current = some cur ∧ (o.addName line name).current =
        some { cur with method := cur.method.addVariable (String.ofList name) line } := by
  unfold addName
  split
  · exact Or.inl rfl
  · cases hcur : o.current with
    | none =>
        left
        dsimp only
        split
        · exact hcur
        · rfl
    | some cur => exact Or.inr ⟨cur, rfl, rfl⟩

@[simp]
theorem depth_addName (line : Nat) (o : Outline) (name : List Char) :
    (o.addName line name).depth = o.depth := by
  unfold addName
  split
  · rfl
  · dsimp only
    split
    · rfl
    · split <;> rfl

@[simp]
theorem depth_closeAt (o : Outline) (line : Nat) : (o.closeAt line).depth = o.depth := by
  unfold closeAt
  split <;> rfl

theorem depth_startLine (uri : Uri) (above : List SourceLine) (o : Outline)
    (lines : List SourceLine) : (o.startLine uri above lines).depth = o.depth := by
  cases hdecl : Source.declaration? lines with
  | none => rw [startLine_of_none hdecl]
  | some d =>
      rw [startLine_of_some hdecl]
      simp [openWith]

/-- Only its braces count for the depth behind a line. -/
theorem depth_addLine (uri : Uri) (above : List SourceLine) (o : Outline) (line : SourceLine)
    (rest : List SourceLine) :
    (o.addLine uri above line rest).depth = depthAfter o.depth line.code := by
  have hnames : ∀ (names : List (List Char)) (o' : Outline),
      (names.foldl (addName above.length) o').depth = o'.depth := by
    intro names o'
    refine List.foldlRecOn (motive := fun o'' : Outline => o''.depth = o'.depth) names _ rfl ?_
    intro a ha name _hname
    rw [depth_addName, ha]
  rw [addLine_eq, depth_foldl_addChar, hnames, depth_startLine]

end Outline

/-! ## The lines of a block -/

namespace Source

/-- The characters of the code of some lines, of which the first is line `n` of the text, each with
its line. -/
def charsFrom (n : Nat) : List SourceLine → List (Nat × Char)
  | [] => []
  | line :: rest => line.code.map (n, ·) ++ charsFrom (n + 1) rest

theorem le_of_mem_charsFrom {n : Nat} {lines : List SourceLine} {p : Nat × Char}
    (h : p ∈ charsFrom n lines) : n ≤ p.1 := by
  induction lines generalizing n with
  | nil => cases h
  | cons line rest ih =>
      rcases List.mem_append.1 h with hhere | hbelow
      · rcases List.mem_map.1 hhere with ⟨c, -, rfl⟩
        exact Nat.le_refl n
      · exact Nat.le_of_succ_le (ih hbelow)

/-- The depth of braces before a line. -/
def depthBefore (source : List SourceLine) (line : Nat) : Nat :=
  depthAfter 0 ((source.take line).flatMap SourceLine.code)

/-- The line behind the block of a declaration: that of the next declaration, or the number of lines
if there is none. -/
structure IsStop (source : List SourceLine) (line stop : Nat) : Prop where
  behind : line < stop
  within : stop ≤ source.length
  between : ∀ i, line < i → i < stop → declaration? (source.drop i) = none
  next : stop = source.length ∨ (declaration? (source.drop stop)).isSome = true

/-- The lines before the next declaration. -/
def untilDeclaration : List SourceLine → List SourceLine
  | [] => []
  | line :: rest =>
    if (declaration? (line :: rest)).isSome then [] else line :: untilDeclaration rest

theorem untilDeclaration_isPrefix (rest : List SourceLine) : untilDeclaration rest <+: rest := by
  induction rest with
  | nil => exact List.prefix_rfl
  | cons line rest ih =>
      rw [untilDeclaration]
      split
      · exact List.nil_prefix
      · exact List.cons_prefix_cons.2 ⟨rfl, ih⟩

theorem declaration?_of_lt_untilDeclaration {rest : List SourceLine} {i : Nat}
    (h : i < (untilDeclaration rest).length) : declaration? (rest.drop i) = none := by
  induction rest generalizing i with
  | nil => cases h
  | cons line rest ih =>
      rw [untilDeclaration] at h
      split at h
      · cases h
      · rename_i hnone
        cases i with
        | zero => simpa using hnone
        | succ i => exact ih (Nat.lt_of_succ_lt_succ h)

theorem untilDeclaration_stops (rest : List SourceLine) :
    (untilDeclaration rest).length = rest.length ∨
      (declaration? (rest.drop (untilDeclaration rest).length)).isSome = true := by
  induction rest with
  | nil => exact Or.inl rfl
  | cons line rest ih =>
      rw [untilDeclaration]
      split
      · rename_i hdecl
        exact Or.inr hdecl
      · rcases ih with hall | hnext
        · exact Or.inl (congrArg Nat.succ hall)
        · exact Or.inr hnext

section Split

variable {source above rest : List SourceLine} {line : SourceLine}

theorem drop_above (hsource : source = above.reverse ++ rest) (i : Nat) :
    source.drop (above.length + i) = rest.drop i := by
  rw [hsource, ← List.length_reverse, List.drop_length_add_append]

theorem take_above (hsource : source = above.reverse ++ rest) (i : Nat) :
    source.take (above.length + i) = above.reverse ++ rest.take i := by
  rw [hsource, ← List.length_reverse, List.take_length_add_append]

/-- The block of a declaration reaches to the next declaration behind it. -/
theorem isStop_untilDeclaration (hsource : source = above.reverse ++ line :: rest) :
    IsStop source above.length (above.length + ((untilDeclaration rest).length + 1)) where
  behind := by omega
  within := by
    have hle := (untilDeclaration_isPrefix rest).length_le
    simp only [hsource, List.length_append, List.length_reverse, List.length_cons]
    omega
  between := by
    intro i hbehind hbefore
    obtain ⟨k, rfl⟩ := Nat.exists_eq_add_of_lt hbehind
    rw [Nat.add_assoc, drop_above hsource, List.drop_succ_cons]
    exact declaration?_of_lt_untilDeclaration (by omega)
  next := by
    rw [drop_above hsource]
    rcases untilDeclaration_stops rest with hall | hnext
    · exact Or.inl (by simp [hsource, hall])
    · exact Or.inr hnext

theorem slice_untilDeclaration (hsource : source = above.reverse ++ line :: rest) :
    (source.take (above.length + ((untilDeclaration rest).length + 1))).drop above.length =
      line :: untilDeclaration rest := by
  rw [take_above hsource, List.drop_left' List.length_reverse, List.take_succ_cons,
    ← List.prefix_iff_eq_take.1 (untilDeclaration_isPrefix rest)]

theorem depthBefore_succ (hsource : source = above.reverse ++ line :: rest) :
    depthBefore source (above.length + 1) =
      depthAfter (depthBefore source above.length) line.code := by
  have habove : source.take above.length = above.reverse := by
    simpa using take_above hsource 0
  rw [depthBefore, depthBefore, take_above hsource, habove, List.flatMap_append, depthAfter_append]
  simp

end Split

/-- Whether a line is the last one of the block that a declaration opens. -/
def EndsBlock (source : List SourceLine) (line last : Nat) : Prop :=
  ∃ stop, IsStop source line stop ∧
    Block.End (depthBefore source line) (charsFrom line ((source.take stop).drop line)) stop last

end Source

open Source

/-! ## Methods end with their blocks -/

namespace Outline

/-- Every closed method ends with its block. The open one, if there is one, is tracked through the
characters since its declaration; those of its block that are still to be read are `ahead`, and its
block stops before line `stop`. -/
structure Blocks (source : List SourceLine) (ahead : List (Nat × Char)) (stop : Nat) (o : Outline) :
    Prop where
  closed : ∀ m ∈ o.methods, EndsBlock source m.line m.endLine
  opened : ∀ cur, o.current = some cur →
    IsStop source cur.method.line stop ∧
      cur.startDepth = depthBefore source cur.method.line ∧
      ∃ read, charsFrom cur.method.line ((source.take stop).drop cur.method.line) = read ++ ahead ∧
        Tracks cur o.depth (read.map Prod.snd)

namespace Blocks

variable {source : List SourceLine} {ahead : List (Nat × Char)} {stop : Nat} {o : Outline}

/-- A method whose block has been read in full without being closed ends with the last line of it. -/
theorem closeAt (h : o.Blocks source [] stop) (ahead : List (Nat × Char)) (stop' : Nat) :
    (o.closeAt (stop - 1)).Blocks source ahead stop' := by
  refine ⟨?_, ?_⟩
  · unfold Outline.closeAt
    split
    · rename_i cur hcur
      intro m hm
      rcases List.mem_append.1 hm with hold | hnew
      · exact h.closed m hold
      · cases List.mem_singleton.1 hnew
        rcases h.opened cur hcur with ⟨hstop, hstart, read, hread, htracks⟩
        have hbehind := hstop.behind
        have hlast : max (stop - 1) cur.method.line = stop - 1 := by omega
        rw [List.append_nil] at hread
        refine ⟨stop, hstop, ?_⟩
        simp only [OpenMethod.close, hlast, hread, ← hstart]
        exact .unclosed htracks.unclosed
    · exact h.closed
  · intro cur hcur
    have hnone := o.closeAt_openMethod? (stop - 1)
    simp [openMethod?, hcur] at hnone

/-- A method that is just opened has its whole block ahead. -/
theorem openWith (h : o.Blocks source ahead stop) {m : Method} {stop' : Nat}
    (hstop : IsStop source m.line stop') (hdepth : o.depth = depthBefore source m.line) :
    (o.openWith m).Blocks source (charsFrom m.line ((source.take stop').drop m.line)) stop' := by
  refine ⟨h.closed, ?_⟩
  rintro cur ⟨⟩
  exact ⟨hstop, hdepth, [], rfl, tracks_nil rfl⟩

theorem addName (line : Nat) (name : List Char) (h : o.Blocks source ahead stop) :
    (o.addName line name).Blocks source ahead stop := by
  refine ⟨by simpa using h.closed, ?_⟩
  intro cur' hcur'
  rw [depth_addName]
  rcases addName_current line o name with hsame | ⟨cur, hcur, hnew⟩
  · rw [hsame] at hcur'
    exact h.opened cur' hcur'
  · -- The method may have one more variable, which has nothing to do with its lines and braces.
    rw [hnew] at hcur'
    cases hcur'
    rcases h.opened cur hcur with ⟨hstop, hstart, read, hread, htracks⟩
    rw [Method.line_addVariable]
    exact ⟨hstop, hstart, read, hread, htracks.depth, htracks.entered, htracks.unclosed⟩

theorem foldl_addName (line : Nat) (names : List (List Char)) (h : o.Blocks source ahead stop) :
    (names.foldl (Outline.addName line) o).Blocks source ahead stop := by
  refine List.foldlRecOn names (Outline.addName line) h ?_
  intro a ha name _hname
  exact ha.addName line name

theorem addChar {line : Nat} {c : Char} (h : o.Blocks source ((line, c) :: ahead) stop) :
    (o.addChar line c).Blocks source ahead stop := by
  cases hcur : o.current with
  | none =>
      rw [addChar_of_none line c hcur]
      refine ⟨h.closed, ?_⟩
      intro cur hsome
      simp [hcur] at hsome
  | some cur =>
      rcases h.opened cur hcur with ⟨hstop, hstart, read, hread, htracks⟩
      rw [addChar_of_some line c hcur]
      by_cases hcloses : ClosedBy cur.startDepth (read.map Prod.snd) c
      · rw [if_pos ((htracks.closedBy_iff c).1 hcloses)]
        refine ⟨?_, by simp⟩
        intro m hm
        rcases List.mem_append.1 hm with hold | hnew
        · exact h.closed m hold
        · cases List.mem_singleton.1 hnew
          have hmem : (line, c) ∈
              charsFrom cur.method.line ((source.take stop).drop cur.method.line) := by
            simp [hread]
          have hlast : max line cur.method.line = line := Nat.max_eq_left (le_of_mem_charsFrom hmem)
          refine ⟨stop, hstop, ?_⟩
          simp only [OpenMethod.close, hlast, ← hstart]
          exact .closed hread htracks.unclosed hcloses
      · rw [if_neg fun hall => hcloses ((htracks.closedBy_iff c).2 hall)]
        refine ⟨h.closed, ?_⟩
        rintro cur' ⟨⟩
        refine ⟨hstop, hstart, read ++ [(line, c)], by simp [hread], ?_⟩
        rw [List.map_append]
        exact htracks.concat hcloses

theorem foldl_addChar {line : Nat} (code : List Char)
    (h : o.Blocks source (code.map (line, ·) ++ ahead) stop) :
    (code.foldl (Outline.addChar line) o).Blocks source ahead stop := by
  induction code generalizing o with
  | nil => exact h
  | cons c code ih => exact ih h.addChar

/-- Between two lines, what is ahead of the open method are the lines before the next declaration. -/
theorem addLine (uri : Uri) {above rest : List SourceLine} {line : SourceLine}
    (hsource : source = above.reverse ++ line :: rest)
    (hdepth : o.depth = depthBefore source above.length)
    (h : o.Blocks source (charsFrom above.length (untilDeclaration (line :: rest)))
      (above.length + (untilDeclaration (line :: rest)).length)) :
    (o.addLine uri above line rest).Blocks source
      (charsFrom (above.length + 1) (untilDeclaration rest))
      (above.length + 1 + (untilDeclaration rest).length) := by
  have hstop : above.length + 1 + (untilDeclaration rest).length =
      above.length + ((untilDeclaration rest).length + 1) := by omega
  rw [addLine_eq, hstop]
  refine foldl_addChar _ (foldl_addName _ _ ?_)
  cases hdecl : declaration? (line :: rest) with
  | none =>
      rw [startLine_of_none hdecl]
      simp only [untilDeclaration, hdecl, Option.isSome_none, Bool.false_eq_true, if_false] at h
      exact h
  | some d =>
      -- The declaration ends the block of the method above it, which has been read in full.
      rw [startLine_of_some hdecl]
      simp only [untilDeclaration, hdecl, Option.isSome_some, if_true, List.length_nil] at h
      have hdepth' : (o.closeAt (above.length - 1)).depth = depthBefore source above.length := by
        rw [depth_closeAt, hdepth]
      have hopen := (h.closeAt [] 0).openWith (m := methodOf uri above above.length d)
        (isStop_untilDeclaration hsource) hdepth'
      have hline : (methodOf uri above above.length d).line = above.length := rfl
      rw [hline, slice_untilDeclaration hsource] at hopen
      exact hopen

theorem addLines (uri : Uri) {above rest : List SourceLine}
    (hsource : source = above.reverse ++ rest) (hdepth : o.depth = depthBefore source above.length)
    (h : o.Blocks source (charsFrom above.length (untilDeclaration rest))
      (above.length + (untilDeclaration rest).length)) :
    (Outline.addLines uri above o rest).Blocks source [] source.length := by
  induction rest generalizing above o with
  | nil =>
      -- At the end of the text, the block of an open method has been read in full.
      have hlength : above.length = source.length := by
        simp [hsource]
      rw [← hlength]
      exact h
  | cons line rest ih =>
      have hnext : source = (line :: above).reverse ++ rest := by
        simpa using hsource
      refine ih hnext ?_ (h.addLine uri hsource hdepth)
      rw [depth_addLine, List.length_cons, depthBefore_succ hsource, hdepth]

end Blocks
end Outline

/-! ## Finished scripts -/

namespace Script

open Outline

/-- Every method ends with its block. From its line on up to the next declaration or the end of the
text, the braces are read from the depth before its line. It ends on the line of the first closing brace
that brings the depth back to that, once an opening brace has brought it above that; if there is none,
it ends with the last of those lines. -/
theorem methods_end_with_blocks (uri : Uri) (text : String) :
    let source := Source.ofText text.toList
    ∀ m ∈ (Script.ofText uri text).methods,
      ∃ stop, IsStop source m.line stop ∧
        Block.End (depthBefore source m.line)
          (charsFrom m.line ((source.take stop).drop m.line)) stop m.endLine := by
  intro source m hm
  have hstart : Blocks source (charsFrom 0 (untilDeclaration source))
      (0 + (untilDeclaration source).length) {} := by
    constructor <;> simp
  have hall : source = [].reverse ++ source := rfl
  have hrun := hstart.addLines uri hall rfl
  exact (hrun.closeAt [] 0).closed m hm

/-- The second method starts inside the first one, which is never closed, and ends at the first of two
closing braces on its last line. -/
theorem methods_end_with_blocks_behind_unclosed :
    let text := "\x7d\nf(a) \x7b b := 1\ng(x)\n\x7b\n  \x7b\n  \x7d\n\x7d \x7d\nh() \x7b y := 2 \x7d\n"
    let source := Source.ofText text.toList
    let script := Script.ofText ⟨"file:///a.ahk"⟩ text
    (script.methods.map fun m => (m.line, m.endLine)) = [(1, 1), (2, 6), (7, 7)] ∧
      ∃ stop, IsStop source 2 stop ∧
        Block.End (depthBefore source 2) (charsFrom 2 ((source.take stop).drop 2)) stop 6 := by
  intro text source script
  have hextents : (script.methods.map fun m => (m.line, m.endLine)) = [(1, 1), (2, 6), (7, 7)] := by
    decide +kernel
  have hmem : (2, 6) ∈ script.methods.map fun m => (m.line, m.endLine) := by
    simp [hextents]
  rcases List.mem_map.1 hmem with ⟨m, hm, hextent⟩
  have hends := methods_end_with_blocks ⟨"file:///a.ahk"⟩ text m hm
  rw [show m.line = 2 from congrArg Prod.fst hextent,
    show m.endLine = 6 from congrArg Prod.snd hextent] at hends
  exact ⟨hextents, hends⟩

end Script
end ScriptSymbols
