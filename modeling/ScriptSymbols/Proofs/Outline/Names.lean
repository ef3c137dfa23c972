import Mathlib.Data.List.Infix
import ScriptSymbols.Proofs.Outline.Attribution
import ScriptSymbols.Proofs.Outline.View
import ScriptSymbols.Proofs.Skeleton.Passes
import ScriptSymbols.Proofs.Statement.Words

/-!
# Names of symbols

Every name of a script stands on its line of the text as a whole word, unless the deletion of an object
literal has joined it to the word `return` before the literal.

1. `Source.stands_of_mem_namesIn` and `Source.stands_of_declaration?`: what is read from a line are words of
   its code.
2. `Script.symbols` lists all names of a script with their lines; each of them comes from a reading.
3. `Script.names_made_from_lines` is the result for whole texts, and `Script.literal_joins_words` a text with
   a name that no line of it has.
-/

namespace ScriptSymbols

open Text Name

namespace Source

variable {line : SourceLine} {rest : List SourceLine}

/-- The name that a line declares is a word of its code, and so is every word of the body that it starts. -/
theorem stands_of_declaration? {d : Declaration} (h : declaration? (line :: rest) = some d) :
    Stands d.name line.code ∧
      ∀ body ∈ d.body, ∀ word, Stands word body → Stands word line.code := by
  rw [declaration?] at h
  cases hheader : Statement.header? line.code with
  | none => simp [hheader] at h
  | some header =>
      obtain ⟨hname, hbody⟩ := Statement.stands_of_header? hheader
      simp only [hheader] at h
      split at h
      · cases h
      · split at h
        · cases h
          refine ⟨hname, ?_⟩
          intro body hmem word hword
          obtain ⟨hmem, -⟩ := Option.filter_eq_some_iff.1 hmem
          obtain ⟨text, htext, rfl⟩ := Option.map_eq_some_iff.1 hmem
          exact hword.of_trim.of_behind (hbody text htext)
        · cases h

theorem stands_of_mem_namesIn {name : List Char} (h : name ∈ namesIn (line :: rest)) :
    Stands name line.code := by
  rw [namesIn] at h
  cases hdecl : declaration? (line :: rest) with
  | none =>
      rw [hdecl] at h
      exact Statement.stands_of_mem_assigned h
  | some d =>
      rw [hdecl] at h
      cases hbody : d.body with
      | none => simp [hbody] at h
      | some body =>
          simp only [hbody, Option.map_some, Option.getD_some] at h
          exact (stands_of_declaration? hdecl).2 body hbody name (Statement.stands_of_mem_assigned h)

/-- Every assignment is made on a line of which its name is a word. -/
theorem stands_of_mem_assignmentsFrom {n : Nat} {lines : List SourceLine} {a : Assignment}
    (h : a ∈ assignmentsFrom n lines) :
    ∃ i line, lines[i]? = some line ∧ a.line = n + i ∧ Stands a.name.toList line.code := by
  induction lines generalizing n with
  | nil => cases h
  | cons line rest ih =>
      rcases List.mem_append.1 h with hhere | hbelow
      · obtain ⟨name, hname, rfl⟩ := List.mem_map.1 hhere
        have hmem := (List.mem_filter.1 hname).1
        exact ⟨0, line, rfl, rfl, by simpa using stands_of_mem_namesIn hmem⟩
      · obtain ⟨i, line', hi, hline, hstands⟩ := ih hbelow
        exact ⟨i + 1, line', hi, by omega, hstands⟩

end Source

/-- Every declared method stands on a line of which its name is a word. -/
theorem Outline.stands_of_mem_declaredFrom {uri : Uri} {above rest : List SourceLine} {m : Method}
    (h : m ∈ declaredFrom uri above rest) :
    ∃ i line, rest[i]? = some line ∧ m.line = above.length + i ∧ Stands m.name.toList line.code := by
  induction rest generalizing above with
  | nil => cases h
  | cons line rest ih =>
      rcases List.mem_append.1 h with hhere | hbelow
      · obtain ⟨d, hd, rfl⟩ := Option.map_eq_some_iff.1 (Option.mem_toList.1 hhere)
        exact ⟨0, line, rfl, rfl, by simpa [methodOf] using (Source.stands_of_declaration? hd).1⟩
      · obtain ⟨i, line', hi, hline, hstands⟩ := ih hbelow
        rw [List.length_cons] at hline
        exact ⟨i + 1, line', hi, by omega, hstands⟩

theorem Assignment.mem_of_mem_firsts {as : List Assignment} {a : Assignment} (h : a ∈ firsts as) :
    a ∈ as := by
  induction as with
  | nil => exact h
  | cons b as ih =>
      rcases List.mem_cons.1 h with rfl | h
      · exact List.mem_cons_self
      · exact List.mem_cons_of_mem b (ih (List.mem_filter.1 h).1)

theorem Assignment.exists_of_mem_toVariables {owner : Option String} {as : List Assignment}
    {v : Variable} (h : v ∈ toVariables owner as) : ∃ a ∈ as, v.name = a.name ∧ v.line = a.line := by
  obtain ⟨a, ha, rfl⟩ := List.mem_map.1 h
  exact ⟨a, mem_of_mem_firsts ha, rfl, rfl⟩

namespace Script

/-! ## Names of finished scripts -/

/-- All names of a script with their lines: those of its methods, each with its local variables behind it,
and then those of the file. -/
def symbols (s : Script) : List (String × Nat) :=
  (s.methods.flatMap fun m => (m.name, m.line) :: m.locals.map fun v => (v.name, v.line)) ++
    s.globals.map fun v => (v.name, v.line)

/-- Every name of a script is a word of the code of its line. -/
theorem stands_of_mem_symbols {uri : Uri} {source : List SourceLine} {symbol : String × Nat}
    (h : symbol ∈ (Script.ofSource uri source).symbols) :
    ∃ line, source[symbol.2]? = some line ∧ Stands symbol.1.toList line.code := by
  have hfinished := finished_attributed uri source
  -- A variable of either kind comes from an assignment.
  have hvariable : ∀ (owner : Option String) (as : List Assignment) (v : Variable),
      (∀ a ∈ as, a ∈ Source.assignments source) → v ∈ Assignment.toVariables owner as →
      ∃ line, source[v.line]? = some line ∧ Stands v.name.toList line.code := by
    intro owner as v has hv
    obtain ⟨a, ha, hname, hline⟩ := Assignment.exists_of_mem_toVariables hv
    obtain ⟨i, line, hi, hpos, hstands⟩ := Source.stands_of_mem_assignmentsFrom (has a ha)
    rw [hname, hline, hpos, Nat.zero_add]
    exact ⟨line, hi, hstands⟩
  rcases List.mem_append.1 h with hmethod | hglobal
  · obtain ⟨m, hm, hmem⟩ := List.mem_flatMap.1 hmethod
    rcases List.mem_cons.1 hmem with rfl | hlocal
    · have hhead : m.head ∈ Outline.declaredFrom uri [] source := by
        rw [← methods_heads]
        exact List.mem_map_of_mem hm
      obtain ⟨i, line, hi, hpos, hstands⟩ := Outline.stands_of_mem_declaredFrom hhead
      have hline : m.line = 0 + i := hpos
      rw [Nat.zero_add] at hline
      exact ⟨line, by rw [hline]; exact hi, hstands⟩
    · obtain ⟨v, hv, rfl⟩ := List.mem_map.1 hlocal
      rw [hfinished.closed m hm] at hv
      refine hvariable _ _ v ?_ hv
      intro a ha
      exact (List.mem_filter.1 (List.mem_filter.1 ha).1).1
  · obtain ⟨v, hv, rfl⟩ := List.mem_map.1 hglobal
    have hv' : v ∈ ((Outline.addLines uri [] {} source).closeAt (source.length - 1)).globals := hv
    rw [hfinished.file] at hv'
    exact hvariable _ _ v (fun a ha => (List.mem_filter.1 ha).1) hv'

/-- No name of a script is made up. Each is a maximal run of identifier characters on its line of the text,
or it is made of two of them: of the word `return`, in any case, right before a brace, and of the run right
behind a closing brace further on. -/
theorem names_made_from_lines (uri : Uri) (text : String) :
    ∀ symbol ∈ (Script.ofText uri text).symbols,
      ∃ line, (lines text.toList)[symbol.2]? = some line ∧ MadeFrom line symbol.1.toList := by
  intro symbol hsymbol
  obtain ⟨line, hline, hstands⟩ := stands_of_mem_symbols hsymbol
  rw [Source.ofText, Source.getElem?_ofLines] at hline
  obtain ⟨raw, hraw, rfl⟩ := Option.map_eq_some_iff.1 hline
  refine ⟨raw, hraw, ?_⟩
  dsimp only at hstands
  split at hstands
  · obtain ⟨front, back, hword⟩ := hstands
    have hnil := hword.line_eq
    simp [hword.nonempty] at hnil
  · exact .of_skeleton hstands

/-- The name of a local variable is put together over two literals. -/
theorem names_made_from_lines_over_literals :
    let uri : Uri := ⟨"file:///a.ahk"⟩
    let text := "f() \x7b\n  Return\x7ba\x7d\x7bb\x7dfoo := 1\n\x7d\n"
    ("Returnfoo", 1) ∈ (Script.ofText uri text).symbols ∧
      ∃ line, (lines text.toList)[1]? = some line ∧ MadeFrom line "Returnfoo".toList := by
  intro uri text
  have hsymbols : (Script.ofText uri text).symbols = [("f", 0), ("Returnfoo", 1)] := by decide +kernel
  have hsymbol : ("Returnfoo", 1) ∈ (Script.ofText uri text).symbols := by
    rw [hsymbols]
    decide
  exact ⟨hsymbol, names_made_from_lines uri text ("Returnfoo", 1) hsymbol⟩

/-- The literal between `return` and `foo` is deleted, and both together are taken for a variable that
the line does not have. -/
theorem literal_joins_words :
    let text := "return\x7ba\x7dfoo := 1\n"
    let script := Script.ofText ⟨"file:///a.ahk"⟩ text
    script.symbols = [("returnfoo", 0)] ∧
      ¬ ∀ symbol ∈ script.symbols,
        ∃ line, (lines text.toList)[symbol.2]? = some line ∧ Stands symbol.1.toList line := by
  intro text script
  have hsymbols : script.symbols = [("returnfoo", 0)] := by decide +kernel
  refine ⟨hsymbols, ?_⟩
  intro hall
  obtain ⟨line, hline, front, back, hword⟩ := hall ("returnfoo", 0) (by simp [hsymbols])
  have htext : (lines text.toList)[0]? = some "return\x7ba\x7dfoo := 1".toList := by decide +kernel
  rw [htext] at hline
  cases hline
  have hinfix : "returnfoo".toList <:+: "return\x7ba\x7dfoo := 1".toList :=
    ⟨front, back, by rw [hword.line_eq, List.append_assoc]⟩
  exact absurd hinfix (by decide)

end Script
end ScriptSymbols
