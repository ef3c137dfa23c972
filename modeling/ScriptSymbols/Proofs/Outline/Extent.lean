import ScriptSymbols.Proofs.Outline.Step

/-!
# Extents of methods

A script has one method for each line that declares one, and the extents of its methods neither
overlap nor leave the text. A method is pushed at three places: at its closing brace, at the next
declaration, and at the end of the text. The argument treats all three as `Outline.closeAt`.

1. `Outline.heads` lists the methods met so far, the open one included, as their declarations opened
   them. Only a declaration adds to it.
2. `Outline.Ordered` is the invariant on extents. It has two bounds, since the line that is read may
   already be the first line of the open method while no closed method reaches it yet.
-/

namespace ScriptSymbols

/-- The method as its declaration opens it, before anything is known of its body. -/
def Method.head (m : Method) : Method :=
  { m with endLine := m.line, locals := [] }

theorem Method.head_addVariable (m : Method) (name : String) (line : Nat) :
    (m.addVariable name line).head = m.head := by
  unfold Method.addVariable
  split <;> rfl

theorem Method.line_addVariable (m : Method) (name : String) (line : Nat) :
    (m.addVariable name line).line = m.line := by
  have hline := congrArg Method.line (m.head_addVariable name line)
  exact hline

theorem Source.length_ofLines (lines : List (List Char)) :
    (Source.ofLines lines).length = lines.length := by
  have hfrom : ∀ inComment, (Source.ofLinesFrom inComment lines).length = lines.length := by
    induction lines with
    | nil =>
        intro inComment
        rfl
    | cons raw rest ih =>
        intro inComment
        rw [Source.ofLinesFrom]
        split <;> simp [ih]
  exact hfrom false

namespace Outline

/-! ## One method for each declaration -/

/-- The methods met so far, as their declarations opened them. -/
def heads (o : Outline) : List Method :=
  (o.methods ++ o.openMethod?.toList).map Method.head

theorem SameSymbols.heads_eq {o o' : Outline} (h : o.SameSymbols o') : o.heads = o'.heads := by
  simp [heads, h.methods, h.openMethod]

theorem heads_closeAt (o : Outline) (line : Nat) : (o.closeAt line).heads = o.heads := by
  cases hopen : o.openMethod? with
  | none => rw [closeAt_of_none line hopen]
  | some m => simp [heads, closeAt_methods_of_some line hopen, hopen, Method.head]

theorem heads_addName (line : Nat) (o : Outline) (name : List Char) :
    (o.addName line name).heads = o.heads := by
  cases hres : Name.isReserved name with
  | true => rw [addName_of_isReserved hres]
  | false =>
      cases hopen : o.openMethod? with
      | none => simp [heads, addName_openMethod? hres, hopen]
      | some m => simp [heads, addName_openMethod? hres, hopen, Method.head_addVariable]

theorem heads_foldl_addName (line : Nat) (o : Outline) (names : List (List Char)) :
    (names.foldl (addName line) o).heads = o.heads := by
  refine List.foldlRecOn (motive := fun o' => o'.heads = o.heads) names (addName line) rfl ?_
  intro a ha name _hname
  rw [heads_addName, ha]

theorem heads_foldl_addChar (line : Nat) (o : Outline) (code : List Char) :
    (code.foldl (addChar line) o).heads = o.heads := by
  refine foldl_addChar_induction (P := fun o' => o'.heads = o.heads) ?_ ?_ code o rfl
  · intro a b hsame ha
    rw [hsame.heads_eq, ha]
  · intro a ha
    rw [heads_closeAt, ha]

theorem heads_startLine (uri : Uri) (above : List SourceLine) (o : Outline)
    (lines : List SourceLine) :
    (o.startLine uri above lines).heads =
      o.heads ++ ((Source.declaration? lines).map (methodOf uri above above.length)).toList := by
  cases hdecl : Source.declaration? lines with
  | none => simp [startLine_of_none hdecl]
  | some d =>
      have hclosed : (o.closeAt (above.length - 1)).methods.map Method.head = o.heads := by
        rw [← heads_closeAt o (above.length - 1)]
        simp [heads]
      rw [startLine_of_some hdecl]
      simp [heads, hclosed, Method.head, methodOf]

/-- A line adds a method exactly if it holds a declaration. -/
theorem heads_addLine (uri : Uri) (above : List SourceLine) (o : Outline) (line : SourceLine)
    (rest : List SourceLine) :
    (o.addLine uri above line rest).heads =
      o.heads ++
        ((Source.declaration? (line :: rest)).map (methodOf uri above above.length)).toList := by
  rw [addLine_eq, heads_foldl_addChar, heads_foldl_addName, heads_startLine]

/-- The methods that some lines declare, where `above` lists the lines before them from the last to
the first. -/
def declaredFrom (uri : Uri) (above : List SourceLine) : List SourceLine → List Method
  | [] => []
  | line :: rest =>
    ((Source.declaration? (line :: rest)).map (methodOf uri above above.length)).toList
      ++ declaredFrom uri (line :: above) rest

theorem heads_addLines (uri : Uri) (above : List SourceLine) (o : Outline)
    (rest : List SourceLine) :
    (addLines uri above o rest).heads = o.heads ++ declaredFrom uri above rest := by
  induction rest generalizing above o with
  | nil => simp [addLines, declaredFrom]
  | cons line rest ih => rw [addLines, ih, heads_addLine, declaredFrom, List.append_assoc]

theorem uri_of_mem_declaredFrom {uri : Uri} {above rest : List SourceLine} {m : Method}
    (h : m ∈ declaredFrom uri above rest) : m.uri = uri := by
  induction rest generalizing above with
  | nil => simp [declaredFrom] at h
  | cons line rest ih =>
      rcases List.mem_append.1 h with hhere | hbelow
      · rcases Option.map_eq_some_iff.1 (Option.mem_toList.1 hhere) with ⟨d, _hd, rfl⟩
        rfl
      · exact ih hbelow

/-- The declared methods start on the lines of the declarations, from the first to the last. -/
theorem declaredFrom_lines (uri : Uri) {source above rest : List SourceLine}
    (hsource : source = above.reverse ++ rest) :
    (declaredFrom uri above rest).map Method.line =
      (List.range' above.length rest.length).filter fun i =>
        (Source.declaration? (source.drop i)).isSome := by
  induction rest generalizing above with
  | nil => simp [declaredFrom]
  | cons line rest ih =>
      have hnext : source = (line :: above).reverse ++ rest := by
        simpa using hsource
      have hbelow := ih hnext
      have hhere : source.drop above.length = line :: rest := by
        rw [hsource, List.drop_left' (by simp)]
      simp only [declaredFrom, List.map_append, hbelow, List.length_cons, List.range'_succ,
        List.filter_cons, hhere]
      cases Source.declaration? (line :: rest) with
      | none => simp
      | some d => simp [methodOf]

/-! ## Extents in order -/

/-- Closed methods lie one behind the other and end before line `reached`. The open method starts
before line `started` and behind all of them. -/
structure Ordered (reached started : Nat) (o : Outline) : Prop where
  nonempty : ∀ m ∈ o.methods, m.line ≤ m.endLine
  ended : ∀ m ∈ o.methods, m.endLine < reached
  disjoint : o.methods.Pairwise fun a b => a.endLine < b.line
  opened : ∀ m, o.openMethod? = some m → m.line < started
  behind : ∀ m, o.openMethod? = some m → ∀ a ∈ o.methods, a.endLine < m.line

namespace Ordered

variable {reached started : Nat} {o : Outline}

theorem of_sameSymbols {o' : Outline} (hsame : o'.SameSymbols o) (h : o.Ordered reached started) :
    o'.Ordered reached started := by
  constructor
  · rw [hsame.methods]
    exact h.nonempty
  · rw [hsame.methods]
    exact h.ended
  · rw [hsame.methods]
    exact h.disjoint
  · rw [hsame.openMethod]
    exact h.opened
  · rw [hsame.methods, hsame.openMethod]
    exact h.behind

/-- Closing the open method keeps the order, up to a bound that the closed method does not reach. -/
theorem closeAt {line bound : Nat} (h : o.Ordered reached started) (hbound : reached ≤ bound)
    (hline : ∀ l < started, max line l < bound) : (o.closeAt line).Ordered bound started := by
  cases hopen : o.openMethod? with
  | none =>
      rw [closeAt_of_none line hopen]
      exact { h with ended := fun m hm => Nat.lt_of_lt_of_le (h.ended m hm) hbound }
  | some m =>
      have hmethods := closeAt_methods_of_some line hopen
      refine ⟨?_, ?_, ?_, by simp, by simp⟩
      · intro a ha
        rw [hmethods] at ha
        rcases List.mem_append.1 ha with hold | hnew
        · exact h.nonempty a hold
        · cases List.mem_singleton.1 hnew
          exact Nat.le_max_right _ _
      · intro a ha
        rw [hmethods] at ha
        rcases List.mem_append.1 ha with hold | hnew
        · exact Nat.lt_of_lt_of_le (h.ended a hold) hbound
        · cases List.mem_singleton.1 hnew
          exact hline m.line (h.opened m hopen)
      · -- The method that is closed started behind all those closed before it.
        rw [hmethods]
        refine List.pairwise_append.2 ⟨h.disjoint, List.pairwise_singleton _ _, ?_⟩
        intro a ha b hb
        cases List.mem_singleton.1 hb
        exact h.behind m hopen a ha

theorem openWith {m : Method} (h : o.Ordered m.line started) :
    (o.openWith m).Ordered m.line (m.line + 1) := by
  refine ⟨h.nonempty, h.ended, h.disjoint, ?_, ?_⟩
  · rintro _ ⟨⟩
    exact Nat.lt_succ_self _
  · rintro _ ⟨⟩
    exact h.ended

theorem addName (line : Nat) (name : List Char) (h : o.Ordered reached started) :
    (o.addName line name).Ordered reached started := by
  cases hres : Name.isReserved name with
  | true =>
      rw [addName_of_isReserved hres]
      exact h
  | false =>
      -- The open method may have one more variable; its line is the same.
      have hopen : ∀ m, (o.addName line name).openMethod? = some m →
          ∃ m₀, o.openMethod? = some m₀ ∧ m.line = m₀.line := by
        intro m hm
        rw [addName_openMethod? hres] at hm
        rcases Option.map_eq_some_iff.1 hm with ⟨m₀, hm₀, rfl⟩
        exact ⟨m₀, hm₀, m₀.line_addVariable _ _⟩
      refine ⟨?_, ?_, ?_, ?_, ?_⟩
      · simpa using h.nonempty
      · simpa using h.ended
      · simpa using h.disjoint
      · intro m hm
        rcases hopen m hm with ⟨m₀, hm₀, hline⟩
        rw [hline]
        exact h.opened m₀ hm₀
      · intro m hm a ha
        rcases hopen m hm with ⟨m₀, hm₀, hline⟩
        rw [hline]
        exact h.behind m₀ hm₀ a (by simpa using ha)

theorem foldl_addName (line : Nat) (names : List (List Char)) (h : o.Ordered reached started) :
    (names.foldl (Outline.addName line) o).Ordered reached started := by
  refine List.foldlRecOn names (Outline.addName line) h ?_
  intro a ha name _hname
  exact ha.addName line name

/-- On a line, the open method may be closed at any character. -/
theorem foldl_addChar {line : Nat} (code : List Char) (h : o.Ordered (line + 1) (line + 1)) :
    (code.foldl (addChar line) o).Ordered (line + 1) (line + 1) := by
  refine foldl_addChar_induction (P := Ordered (line + 1) (line + 1)) ?_ ?_ code o h
  · intro a b hsame ha
    exact ha.of_sameSymbols hsame
  · intro a ha
    exact ha.closeAt (Nat.le_refl _) (by omega)

theorem mono {reached' started' : Nat} (h : o.Ordered reached started) (hr : reached ≤ reached')
    (hs : started ≤ started') : o.Ordered reached' started' :=
  { h with
    ended := fun m hm => Nat.lt_of_lt_of_le (h.ended m hm) hr
    opened := fun m hm => Nat.lt_of_lt_of_le (h.opened m hm) hs }

/-- While the names of a line are recorded, no closed method reaches the line, though the open one
may start on it. -/
theorem startLine (uri : Uri) {above : List SourceLine} (lines : List SourceLine)
    (h : o.Ordered above.length above.length) :
    (o.startLine uri above lines).Ordered above.length (above.length + 1) := by
  cases hdecl : Source.declaration? lines with
  | none =>
      rw [startLine_of_none hdecl]
      exact h.mono (Nat.le_refl _) (Nat.le_succ _)
  | some d =>
      rw [startLine_of_some hdecl]
      -- On the first line nothing can be open, so the line above is never missed.
      have hclosed : (o.closeAt (above.length - 1)).Ordered above.length above.length :=
        h.closeAt (Nat.le_refl _) (by omega)
      exact hclosed.openWith (m := methodOf uri above above.length d)

theorem addLine (uri : Uri) {above : List SourceLine} (line : SourceLine)
    (rest : List SourceLine) (h : o.Ordered above.length above.length) :
    (o.addLine uri above line rest).Ordered (above.length + 1) (above.length + 1) := by
  rw [addLine_eq]
  have hnames := (h.startLine uri (line :: rest)).foldl_addName above.length
    (Source.namesIn (line :: rest))
  exact (hnames.mono (Nat.le_succ _) (Nat.le_refl _)).foldl_addChar line.code

theorem addLines (uri : Uri) (above rest : List SourceLine)
    (h : o.Ordered above.length above.length) :
    (addLines uri above o rest).Ordered (above.length + rest.length)
      (above.length + rest.length) := by
  induction rest generalizing above o with
  | nil => exact h
  | cons line rest ih =>
      have hrest := ih (line :: above) (h.addLine uri line rest)
      rw [List.length_cons, Nat.add_right_comm] at hrest
      exact hrest

end Ordered

theorem ordered_empty : Ordered 0 0 {} := by
  constructor <;> simp [openMethod?]

end Outline

/-! ## Finished scripts -/

namespace Script

open Outline

/-- The methods of a script are those that its lines declare. -/
theorem methods_heads (uri : Uri) (source : List SourceLine) :
    (Script.ofSource uri source).methods.map Method.head = declaredFrom uri [] source := by
  have hheads : ((addLines uri [] {} source).closeAt (source.length - 1)).heads =
      declaredFrom uri [] source := by
    rw [heads_closeAt, heads_addLines]
    simp [heads, openMethod?]
  rw [← hheads]
  simp [heads, Script.ofSource]

theorem uri_of_mem_methods {uri : Uri} {source : List SourceLine} {m : Method}
    (h : m ∈ (Script.ofSource uri source).methods) : m.uri = uri := by
  have hhead : m.head ∈ declaredFrom uri [] source := by
    rw [← methods_heads]
    exact List.mem_map_of_mem h
  have huri := uri_of_mem_declaredFrom hhead
  exact huri

theorem methods_lines (uri : Uri) (source : List SourceLine) :
    (Script.ofSource uri source).methods.map Method.line =
      (List.range source.length).filter fun i => (Source.declaration? (source.drop i)).isSome := by
  have hall : source = [].reverse ++ source := rfl
  have hlines := declaredFrom_lines uri hall
  rw [← methods_heads, List.map_map] at hlines
  rw [List.range_eq_range']
  exact hlines

theorem finished_ordered (uri : Uri) (source : List SourceLine) :
    ((addLines uri [] {} source).closeAt (source.length - 1)).Ordered source.length
      source.length := by
  have hrun := ordered_empty.addLines uri [] source
  rw [List.length_nil, Nat.zero_add] at hrun
  exact hrun.closeAt (Nat.le_refl _) (by omega)

/-- The methods of a script are in order, one for each line with a declaration. Each starts on its
line and ends on a line of the text, before the next one starts. -/
theorem methods_match_declarations (uri : Uri) (text : String) :
    let lines := Text.lines text.toList
    let source := Source.ofLines lines
    let script := Script.ofText uri text
    script.methods.map Method.line =
        (List.range lines.length).filter
          (fun i => (Source.declaration? (source.drop i)).isSome) ∧
      (∀ m ∈ script.methods, m.line ≤ m.endLine ∧ m.endLine < lines.length) ∧
      (script.methods.Pairwise fun a b => a.endLine < b.line) ∧
      script.uri = uri ∧ ∀ m ∈ script.methods, m.uri = uri := by
  intro lines source script
  have hlength : source.length = lines.length := Source.length_ofLines lines
  have hordered := finished_ordered uri source
  have hdeclared := methods_lines uri source
  rw [hlength] at hdeclared
  refine ⟨hdeclared, ?_, hordered.disjoint, rfl, ?_⟩
  · intro m hm
    have hended := hordered.ended m hm
    rw [hlength] at hended
    exact ⟨hordered.nonempty m hm, hended⟩
  · intro m hm
    exact uri_of_mem_methods hm

end Script
end ScriptSymbols
