import ScriptSymbols.Proofs.Skeleton.NormalForm

/-!
# Values in skeletons

Strings and object literals are the values that a skeleton hides. Of a string the quotes stay, and of a
literal nothing does.

1. The braces of a literal are matched when its strings are empty already. So a literal goes as a whole if
   it is balanced then, whatever its strings say (`Skeleton.dropLiterals_emptyStrings_of_literal`). An
   assignment is left with nothing behind its sign (`Skeleton.assigned_literal_vanishes`).
2. `Skeleton.MarksQuoted` says that whatever could cost a line more than the text of its strings stands
   inside a string itself. Such a line keeps its quotes in a pass, and what is left has no such marks at
   all, so that it keeps them in all passes (`Skeleton.quotes_are_kept`).
-/

namespace ScriptSymbols

open Text Name

namespace Skeleton

/-! ## Literals -/

instance decidableCloses : (depth : Nat) → (cs : List Char) → Decidable (Closes depth cs)
  | depth, [] => decidable_of_iff _ (closes_nil_iff depth).symm
  | depth, c :: cs =>
    have := decidableCloses (depth + 1) cs
    have := decidableCloses (depth - 1) cs
    have := decidableCloses depth cs
    decidable_of_iff _ (closes_cons_iff depth c cs).symm

instance (cs : List Char) : Decidable (Balanced cs) :=
  decidable_of_iff _ (closes_zero_iff cs)

theorem afterClose_of_balanced {inside : List Char} (h : Balanced inside) (rest : List Char) :
    afterClose 1 (inside ++ '}' :: rest) = some rest :=
  (afterClose_eq_some_iff 0 _ rest).2 ⟨inside, rfl, (closes_zero_iff inside).2 h⟩

/-- The strings of a literal are emptied apart from what stands before it. -/
theorem emptyStrings_of_literal {front body : List Char} (hfront : front.any isMark = false)
    (hscan : modeAfter? .code (some '{') body = some .code) :
    emptyStrings (front ++ '{' :: (body ++ ['}'])) =
      front ++ '{' :: (emptyStringsFrom .code (some '{') body ++ ['}']) := by
  have hquote : '"' ∉ front := not_mem_of_isMark hfront rfl
  have hmark : ';' ∉ front := not_mem_of_isMark hfront rfl
  have hopen : ∀ prev cs, emptyStringsFrom .code prev ('{' :: cs) =
      '{' :: emptyStringsFrom .code (some '{') cs := by
    intro prev cs
    simp [emptyStringsFrom, startsComment, Mode.next]
  have hclose : ∀ prev, emptyStringsFrom .code prev ['}'] = ['}'] := fun prev =>
    emptyStringsFrom_of_not_mem (by decide) (by decide) prev
  rw [emptyStrings, emptyStringsFrom_append (modeAfter?_of_not_mem hquote hmark none),
    emptyStringsFrom_of_not_mem hquote hmark, hopen, emptyStringsFrom_append hscan, hclose]

/-- A literal at the end of a line is removed with all its strings and all the literals in it. -/
theorem dropLiterals_emptyStrings_of_literal {front body : List Char} (hfront : front.any isMark = false)
    (hvalue : ExpectsValue front) (hscan : modeAfter? .code (some '{') body = some .code)
    (hbalanced : Balanced (emptyStringsFrom .code (some '{') body)) :
    dropLiterals (emptyStrings (front ++ '{' :: (body ++ ['}']))) = front := by
  have hexpected : valueExpected (front.reverse ++ []) = true := by
    rw [List.append_nil]
    exact (valueExpected_reverse_iff front).2 hvalue
  rw [emptyStrings_of_literal hfront hscan, dropLiterals,
    dropLiteralsFrom_append (not_mem_of_isMark hfront rfl),
    dropLiteralsFrom_of_closed ⟨rfl, hexpected⟩ (afterClose_of_balanced hbalanced []), dropLiteralsFrom,
    List.append_nil]

/-- So only what stands before the literal is left, if there is nothing more to do to it. -/
theorem skeleton_of_literal {front body : List Char} (hfront : front.any isMark = false)
    (htidy : squeeze front = front) (hvalue : ExpectsValue front)
    (hscan : modeAfter? .code (some '{') body = some .code)
    (hbalanced : Balanced (emptyStringsFrom .code (some '{') body)) :
    skeleton (front ++ '{' :: (body ++ ['}'])) = front := by
  have hcode : dropLiterals (emptyStrings front) = front := by
    rw [emptyStrings_of_unmarked hfront, dropLiterals_of_not_mem (not_mem_of_isMark hfront rfl)]
  exact skeleton_of_stripped (dropLiterals_emptyStrings_of_literal hfront hvalue hscan hbalanced) hcode
    (plainCommand_of_not_mem (not_mem_of_isMark hfront rfl)) htidy

/-- An object literal that is assigned vanishes, whatever it contains: its body is any text in which no
comment starts, whose strings are closed, and which is balanced without what stands in its strings. -/
theorem assigned_literal_vanishes {name body : List Char} (hne : name ≠ [])
    (hname : name.all isIdentChar = true) (hscan : modeAfter? .code (some '{') body = some .code)
    (hbalanced : Balanced (emptyStringsFrom .code (some '{') body)) :
    skeleton (name ++ " := \x7b".toList ++ body ++ "\x7d".toList) = name ++ " := ".toList := by
  have hline : name ++ " := \x7b".toList ++ body ++ "\x7d".toList =
      (name ++ " := ".toList) ++ '{' :: (body ++ ['}']) := by
    simp
  have hplain : (name ++ " := ".toList).any isMark = false := any_isMark_word hname (by decide)
  have htidy : squeeze (name ++ " := ".toList) = name ++ " := ".toList :=
    squeeze_word hname hne (rfl : [].all isSpaceOrTab = true) (by decide)
  -- Behind the blank stands the sign of the assignment, after which a brace opens a literal.
  have hvalue : ExpectsValue (name ++ " := ".toList) :=
    ⟨name ++ " :=".toList, [' '], by simp, by decide, Or.inl ⟨'=', by decide, by simp⟩⟩
  rw [hline]
  exact skeleton_of_literal hplain htidy hvalue hscan hbalanced

/-- A literal in a literal, with a lone brace, quotes and a semicolon in strings. -/
theorem assigned_literal_vanishes_with_strings :
    let body := "a: \x7b\x7d, s: \"\x7d\"\" ;\", k: \x7bp: 50 % 3\x7d".toList
    modeAfter? .code (some '{') body = some .code ∧
      Balanced (emptyStringsFrom .code (some '{') body) ∧
      skeleton ("obj".toList ++ " := \x7b".toList ++ body ++ "\x7d".toList) = "obj := ".toList := by
  intro body
  have hscan : modeAfter? .code (some '{') body = some .code := by decide
  have hbalanced : Balanced (emptyStringsFrom .code (some '{') body) := by decide
  have hname : "obj".toList.all isIdentChar = true := by decide
  exact ⟨hscan, hbalanced, assigned_literal_vanishes (by decide) hname hscan hbalanced⟩

/-! ## Quotes -/

/-- The marks that can cost a line more than the text of a string: those of comments, literals and
commands. -/
def cuttingMarks : List Char :=
  [';', '{', '%']

/-- Whether every cutting mark of a text stands inside a string, where the text follows `prev` and is
scanned from the given mode on. -/
def MarksQuotedFrom (mode : Mode) (prev : Option Char) (cs : List Char) : Prop :=
  ∀ front c back, cs = front ++ c :: back → c ∈ cuttingMarks → modeAfter? mode prev front = some .quoted

/-- Whether every semicolon, opening brace and percent sign of a line stands inside a string. -/
def MarksQuoted (line : List Char) : Prop :=
  MarksQuotedFrom .code none line

/-- A line without cutting marks has all of them inside strings. -/
theorem marksQuoted_of_forall_not_mem {line : List Char} (h : ∀ c ∈ cuttingMarks, c ∉ line) :
    MarksQuoted line := by
  rintro front c back rfl hc
  exact absurd (by simp) (h c hc)

/-- A mark in front needs the scan to be inside a string already. In particular no comment starts there, and
the rest is scanned in the next mode. -/
theorem marksQuotedFrom_cons_iff (mode : Mode) (prev : Option Char) (c : Char) (cs : List Char) :
    MarksQuotedFrom mode prev (c :: cs) ↔
      (c ∈ cuttingMarks → mode = .quoted) ∧ startsComment mode prev c = false ∧
        MarksQuotedFrom (mode.next c) (some c) cs := by
  rw [MarksQuotedFrom, forall_places_cons]
  simp only [modeAfter?, Option.some.injEq]
  refine and_congr_right fun hc => ?_
  have hstarts : startsComment mode prev c = false := by
    refine Bool.eq_false_iff.2 fun hstarts => ?_
    obtain ⟨⟨hmode, hsemi⟩, -⟩ : (mode = .code ∧ c = ';') ∧ prev.all isBlank = true := by
      simpa [startsComment] using hstarts
    have hquoted := hc (by simp [hsemi, cuttingMarks])
    rw [hmode] at hquoted
    cases hquoted
  simp only [hstarts, Bool.false_eq_true, if_false, true_and]
  rfl

instance decidableMarksQuotedFrom :
    (mode : Mode) → (prev : Option Char) → (cs : List Char) → Decidable (MarksQuotedFrom mode prev cs)
  | _, _, [] => isTrue (by simp [MarksQuotedFrom])
  | mode, prev, c :: cs =>
    have := decidableMarksQuotedFrom (mode.next c) (some c) cs
    decidable_of_iff _ (marksQuotedFrom_cons_iff mode prev c cs).symm

instance (line : List Char) : Decidable (MarksQuoted line) :=
  decidableMarksQuotedFrom .code none line

/-- The first step keeps the quotes, and none of the cutting marks. -/
theorem quotes_emptyStringsFrom {mode : Mode} {prev : Option Char} {cs : List Char}
    (h : MarksQuotedFrom mode prev cs) :
    (emptyStringsFrom mode prev cs).count '"' = cs.count '"' ∧
      ∀ c ∈ cuttingMarks, c ∉ emptyStringsFrom mode prev cs := by
  induction cs generalizing mode prev with
  | nil => simp [emptyStringsFrom]
  | cons d cs ih =>
      obtain ⟨hmark, hstarts, hrest⟩ := (marksQuotedFrom_cons_iff mode prev d cs).1 h
      obtain ⟨hcount, hfree⟩ := ih hrest
      rw [emptyStringsFrom, hstarts]
      simp only [Bool.false_eq_true, if_false]
      split
      · rename_i hkept
        refine ⟨by rw [List.count_cons, List.count_cons, hcount], fun c hc hmem => ?_⟩
        rcases List.mem_cons.1 hmem with rfl | hmem
        · -- A mark is kept neither in code, where there is none, nor in a string, where it is no quote.
          rcases hkept with hcode | rfl
          · rw [hmark hc] at hcode
            cases hcode
          · exact absurd hc (by decide)
        · exact hfree c hc hmem
      · rename_i hgone
        have hquote : d ≠ '"' := fun hquote => hgone (Or.inr hquote)
        exact ⟨by rw [List.count_cons_of_ne hquote, hcount], hfree⟩

theorem count_squeezeFrom {c : Char} (hc : isSpaceOrTab c = false) (inGap : Bool) (cs : List Char) :
    (squeezeFrom inGap cs).count c = cs.count c := by
  induction cs generalizing inGap with
  | nil => rfl
  | cons d cs ih =>
      have hspace : ' ' ≠ c := by
        rintro rfl
        exact absurd hc (by decide)
      rw [squeezeFrom]
      split
      · rename_i hd
        have hne : d ≠ c := by
          rintro rfl
          rw [hd] at hc
          cases hc
        rw [List.count_cons_of_ne hne]
        split
        · exact ih true
        · rw [List.count_cons_of_ne hspace, ih true]
      · rw [List.count_cons, List.count_cons, ih false]

theorem count_squeeze {c : Char} (hc : isSpaceOrTab c = false) (line : List Char) :
    (squeeze line).count c = line.count c := by
  rw [squeeze, List.count_append, count_squeezeFrom hc, ← List.count_append,
    List.takeWhile_append_dropWhile]

/-- With its marks inside strings a line has only its strings emptied and its gaps squeezed in a pass. -/
theorem MarksQuoted.pass_eq {line : List Char} (h : MarksQuoted line) :
    Skeleton.pass line = squeeze (emptyStrings line) := by
  have hfree := (quotes_emptyStringsFrom h).2
  have hopen : '{' ∉ emptyStrings line := hfree '{' (by decide)
  have hpercent : '%' ∉ emptyStrings line := hfree '%' (by decide)
  rw [Skeleton.pass, dropLiterals_of_not_mem hopen, plainCommand_of_not_mem hpercent]

/-- A pass keeps the quotes of such a line, and what is left is such a line. -/
theorem MarksQuoted.pass {line : List Char} (h : MarksQuoted line) :
    MarksQuoted (Skeleton.pass line) ∧ (Skeleton.pass line).count '"' = line.count '"' := by
  obtain ⟨hcount, hfree⟩ := quotes_emptyStringsFrom h
  rw [h.pass_eq]
  constructor
  · refine marksQuoted_of_forall_not_mem fun c hc hmem => ?_
    rcases (squeeze_erodes _).mem hmem with hmem | rfl
    · exact hfree c hc hmem
    · exact absurd hc (by decide)
  · rw [count_squeeze (by decide)]
    exact hcount

/-- The quotes of a line are never lost if all that could cost it more than the text of its strings stands
inside strings. A quote inside a string is written as two of them, and the last string need not be
closed. -/
theorem quotes_are_kept {line : List Char} (h : MarksQuoted line) :
    (skeleton line).count '"' = line.count '"' := by
  induction line using skeleton.induct with
  | case1 line hfixed => rw [skeleton_of_fixed hfixed]
  | case2 line _ ih =>
      rw [← skeleton_pass, ih h.pass.1]
      exact h.pass.2

/-- A comment sign, braces and percent signs in strings, of which one has a quote inside and the last is
open. -/
theorem quotes_are_kept_in_open_string :
    let line := "MsgBox, \"a \"\"%b% ;c\" . \"\x7b\x7d\"  . \" %".toList
    MarksQuoted line ∧ (skeleton line).count '"' = 7 := by
  intro line
  have hquoted : MarksQuoted line := by decide
  have hcount : line.count '"' = 7 := by decide
  exact ⟨hquoted, (quotes_are_kept hquoted).trans hcount⟩

end Skeleton
end ScriptSymbols
