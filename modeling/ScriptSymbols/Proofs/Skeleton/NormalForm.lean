import Mathlib.Algebra.Group.Nat.Even
import Mathlib.Data.List.Induction
import ScriptSymbols.Proofs.Skeleton.Plain

/-!
# Normal form of skeletons

A skeleton is left alone by the four steps together, and so by each of them. What a step leaves alone can be
said without the step, by what no place of the line has.

1. `Skeleton.StringsEmpty` and `Skeleton.NoComment`, `Skeleton.NoLiteral`, `Skeleton.NoCommandText` and
   `Skeleton.Squeezed` describe the lines that the four steps leave alone: `emptyStrings_eq_self_iff`,
   `dropLiterals_eq_self_iff`, `plainCommand_eq_self_iff` and `squeeze_eq_self_iff`.
2. `Skeleton.Lightens.comp_eq_self_iff`: no step can undo what another one does, since each of them costs weight.
   So a pass leaves a line alone only if every step does (`Skeleton.pass_eq_self_iff`).
3. `Skeleton.skeleton_is_normal` puts them together for all skeletons.
-/

namespace ScriptSymbols

open Text Name

namespace Skeleton

/-- What holds at every place of a line holds at its first character and behind it. -/
theorem forall_places_cons {P : List Char → Char → List Char → Prop} {d : Char} {cs : List Char} :
    (∀ front c back, d :: cs = front ++ c :: back → P front c back) ↔
      P [] d cs ∧ ∀ front c back, cs = front ++ c :: back → P (d :: front) c back := by
  constructor
  · intro h
    exact ⟨h [] d cs rfl, fun front c back heq => h (d :: front) c back (by rw [heq]; rfl)⟩
  · rintro ⟨hfirst, hrest⟩ front c back heq
    cases front with
    | nil =>
        cases heq
        exact hfirst
    | cons e front =>
        cases heq
        exact hrest front c back rfl

/-- What is left of a line of which a character is gone is another line. -/
theorem ne_cons_of_length_le {left cs : List Char} {c : Char} (h : left.length ≤ cs.length) :
    left ≠ c :: cs := by
  rintro rfl
  exact Nat.not_succ_le_self _ h

/-! ## Strings and comments -/

/-- The mode behind a text without comments. -/
def modeBehind (front : List Char) : Mode :=
  front.foldl Mode.next .code

/-- Whether no string has any text: a quote that opens a string, since it has an even number of quotes before
it, is the last character or has the closing one right behind it. -/
def StringsEmpty (line : List Char) : Prop :=
  ∀ front back, line = front ++ '"' :: back → Even (front.count '"') →
    back = [] ∨ back.head? = some '"'

/-- Whether no semicolon starts the line or follows a blank. -/
def NoComment (line : List Char) : Prop :=
  ∀ front back, line = front ++ ';' :: back → ∃ c, front.getLast? = some c ∧ isBlank c = false

theorem modeBehind_concat (front : List Char) (c : Char) :
    modeBehind (front ++ [c]) = (modeBehind front).next c := by
  simp [modeBehind]

theorem modeBehind_eq_code_iff (front : List Char) :
    modeBehind front = .code ↔ Even (front.count '"') := by
  induction front using List.reverseRecOn with
  | nil => simp [modeBehind]
  | append_singleton front c ih =>
      rw [modeBehind_concat, List.count_append]
      by_cases hc : c = '"'
      · subst hc
        have hflip : (modeBehind front).next '"' = .code ↔ ¬ modeBehind front = .code := by
          cases modeBehind front <;> simp [Mode.next]
        rw [hflip, ih]
        simp [Nat.even_add_one]
      · have hsame : (modeBehind front).next c = modeBehind front := by
          cases modeBehind front <;> simp [Mode.next, hc]
        rw [hsame, ih]
        simp [hc]

/-- The first step leaves a text alone if it keeps every character of it. -/
theorem emptyStringsFrom_eq_self_iff (mode : Mode) (prev : Option Char) (cs : List Char) :
    emptyStringsFrom mode prev cs = cs ↔
      ∀ front c back, cs = front ++ c :: back →
        startsComment (front.foldl Mode.next mode) (front.getLast?.or prev) c = false ∧
          (front.foldl Mode.next mode = .code ∨ c = '"') := by
  induction cs generalizing mode prev with
  | nil => simp [emptyStringsFrom]
  | cons d cs ih =>
      rw [forall_places_cons, emptyStringsFrom]
      simp only [List.foldl_cons, getLast?_cons_or, ← ih (mode.next d) (some d)]
      cases hstarts : startsComment mode prev d with
      | true => simp [hstarts]
      | false =>
          by_cases hkept : mode = .code ∨ d = '"'
          · simp [hstarts, hkept]
          · -- Inside a string the character is deleted, so that the text gets shorter.
            have hne : emptyStringsFrom (mode.next d) (some d) cs ≠ d :: cs :=
              ne_cons_of_length_le (emptyStringsFrom_sublist _ _ cs).length_le
            simp [hkept, hne]

/-- Inside a string the next character can only be the quote that closes it. -/
theorem StringsEmpty.eq_quote {line : List Char} (h : StringsEmpty line) {front back : List Char} {c : Char}
    (hline : line = front ++ c :: back) (hmode : modeBehind front ≠ .code) : c = '"' := by
  induction front using List.reverseRecOn generalizing c back with
  | nil => exact absurd rfl hmode
  | append_singleton front d ih =>
      have hplace : line = front ++ d :: (c :: back) := by simpa using hline
      rw [modeBehind_concat] at hmode
      by_cases hcode : modeBehind front = .code
      · -- Only a quote leads from code into a string, and this one must be closed at once.
        have hd : d = '"' := by
          by_contra hd
          rw [hcode, Mode.next, if_neg hd] at hmode
          exact hmode rfl
        subst hd
        have hclosed := h front (c :: back) hplace ((modeBehind_eq_code_iff front).1 hcode)
        simpa using hclosed
      · -- Inside the string before this character already, it is the closing quote itself.
        have hd : d = '"' := ih hplace hcode
        have hback : (modeBehind front).next d = .code := by
          cases hq : modeBehind front with
          | code => exact absurd hq hcode
          | quoted => simp [Mode.next, hd]
        exact absurd hback hmode

/-- Strings are empty if only quotes stand inside them. -/
theorem stringsEmpty_iff (line : List Char) :
    StringsEmpty line ↔
      ∀ front c back, line = front ++ c :: back → modeBehind front = .code ∨ c = '"' := by
  constructor
  · intro h front c back hline
    exact or_iff_not_imp_left.2 (h.eq_quote hline)
  · intro h front back hline heven
    cases back with
    | nil => exact Or.inl rfl
    | cons c back =>
        have hquoted : modeBehind (front ++ ['"']) = .quoted := by
          rw [modeBehind_concat, (modeBehind_eq_code_iff front).2 heven]
          rfl
        have hmode := h (front ++ ['"']) c back (by simpa using hline)
        simpa [hquoted] using hmode

/-- The first step leaves a line alone if it has neither a string with text nor a comment. -/
theorem emptyStrings_eq_self_iff (line : List Char) :
    emptyStrings line = line ↔ StringsEmpty line ∧ NoComment line := by
  have hkeeps : emptyStrings line = line ↔ ∀ front c back, line = front ++ c :: back →
      startsComment (modeBehind front) front.getLast? c = false ∧
        (modeBehind front = .code ∨ c = '"') := by
    simpa [modeBehind, emptyStrings] using emptyStringsFrom_eq_self_iff .code none line
  rw [hkeeps, stringsEmpty_iff]
  constructor
  · intro h
    refine ⟨fun front c back hline => (h front c back hline).2, ?_⟩
    intro front back hline
    obtain ⟨hstarts, hmode⟩ := h front ';' back hline
    have hcode : modeBehind front = .code := by simpa using hmode
    cases hlast : front.getLast? with
    | none => simp [startsComment, hcode, hlast] at hstarts
    | some c => exact ⟨c, rfl, by simpa [startsComment, hcode, hlast] using hstarts⟩
  · rintro ⟨hstrings, hcomment⟩ front c back hline
    refine ⟨?_, hstrings front c back hline⟩
    by_cases hc : c = ';'
    · subst hc
      obtain ⟨d, hlast, hblank⟩ := hcomment front back hline
      simp [startsComment, hlast, hblank]
    · simp [startsComment, hc]

/-! ## Literals -/

/-- Whether every brace of a text is closed in it, and none that is opened before it. -/
def Balanced (cs : List Char) : Prop :=
  cs.count '{' = cs.count '}' ∧ ∀ part, part <+: cs → part.count '}' ≤ part.count '{'

/-- Whether a value is expected behind a text: before the blanks at its end there is a mark that takes one, or
the word `return`. -/
def ExpectsValue (front : List Char) : Prop :=
  ∃ stem blanks, front = stem ++ blanks ∧ blanks.all isBlank = true ∧
    ((∃ mark ∈ valueMarks, stem.getLast? = some mark) ∨
      ∃ rest word, stem = rest ++ word ∧ sameFolded word "return".toList = true ∧ IsEdge rest.getLast?)

/-- Whether no brace that is closed on the line stands where a value is expected. -/
def NoLiteral (line : List Char) : Prop :=
  ∀ front inside back, line = front ++ '{' :: (inside ++ '}' :: back) → Balanced inside →
    ¬ ExpectsValue front

/-- Whether a text closes `depth` braces that are open before it, each of its own being closed before them. -/
def Closes (depth : Nat) (cs : List Char) : Prop :=
  cs.count '{' + depth = cs.count '}' ∧ ∀ part, part <+: cs → part.count '}' ≤ part.count '{' + depth

theorem closes_zero_iff (cs : List Char) : Closes 0 cs ↔ Balanced cs := Iff.rfl

theorem closes_nil_iff (depth : Nat) : Closes depth [] ↔ depth = 0 := by
  simp [Closes]

/-- A brace in front of a text changes the number of braces that it has to close. -/
theorem closes_cons_iff (depth : Nat) (c : Char) (cs : List Char) :
    Closes depth (c :: cs) ↔
      if c = '{' then Closes (depth + 1) cs
      else if c = '}' then 0 < depth ∧ Closes (depth - 1) cs
      else Closes depth cs := by
  have hparts : (∀ part, part <+: c :: cs → part.count '}' ≤ part.count '{' + depth) ↔
      ∀ part, part <+: cs → (c :: part).count '}' ≤ (c :: part).count '{' + depth := by
    constructor
    · intro h part hpart
      exact h (c :: part) (List.cons_prefix_cons.2 ⟨rfl, hpart⟩)
    · intro h part hpart
      rcases List.prefix_cons_iff.1 hpart with rfl | ⟨rest, rfl, hrest⟩
      · exact Nat.zero_le _
      · exact h rest hrest
  rw [Closes, hparts]
  split
  · rename_i hopen
    subst hopen
    simp only [Closes, List.count_cons_self, List.count_cons_of_ne (show '{' ≠ '}' by decide)]
    refine and_congr (by omega) (forall₂_congr fun part _ => by omega)
  · split
    · rename_i hclose
      subst hclose
      simp only [Closes, List.count_cons_self, List.count_cons_of_ne (show '}' ≠ '{' by decide)]
      constructor
      · rintro ⟨hcount, hpart⟩
        have hpos := hpart [] List.nil_prefix
        simp at hpos
        refine ⟨hpos, by omega, fun part hprefix => ?_⟩
        have := hpart part hprefix
        omega
      · rintro ⟨hpos, hcount, hpart⟩
        refine ⟨by omega, fun part hprefix => ?_⟩
        have := hpart part hprefix
        omega
    · rename_i hopen hclose
      simp only [Closes, List.count_cons_of_ne hopen, List.count_cons_of_ne hclose]

theorem afterClose_eq_some_iff (depth : Nat) (cs rest : List Char) :
    afterClose (depth + 1) cs = some rest ↔ ∃ inside, cs = inside ++ '}' :: rest ∧ Closes depth inside := by
  induction cs generalizing depth with
  | nil => simp [afterClose]
  | cons c cs ih =>
      have hcons : (∃ inside, c :: cs = inside ++ '}' :: rest ∧ Closes depth inside) ↔
          (c = '}' ∧ cs = rest ∧ depth = 0) ∨
            ∃ inside, cs = inside ++ '}' :: rest ∧ Closes depth (c :: inside) := by
        constructor
        · rintro ⟨inside, heq, hcloses⟩
          cases inside with
          | nil =>
              cases heq
              exact Or.inl ⟨rfl, rfl, (closes_nil_iff depth).1 hcloses⟩
          | cons d inside =>
              cases heq
              exact Or.inr ⟨inside, rfl, hcloses⟩
        · rintro (⟨rfl, rfl, hdepth⟩ | ⟨inside, rfl, hcloses⟩)
          · exact ⟨[], rfl, (closes_nil_iff depth).2 hdepth⟩
          · exact ⟨c :: inside, rfl, hcloses⟩
      -- One brace more to close, one less, or as many as before.
      simp only [hcons, afterClose, closes_cons_iff]
      by_cases hopen : c = '{'
      · subst hopen
        simp [ih]
      · by_cases hclose : c = '}'
        · subst hclose
          cases depth with
          | zero => simp
          | succ depth => simp [ih]
        · simp [hopen, hclose, ih]

theorem endsInReturn_reverse_iff (stem : List Char) :
    endsInReturn stem.reverse = true ↔
      ∃ rest word, stem = rest ++ word ∧ sameFolded word "return".toList = true ∧
        IsEdge rest.getLast? := by
  have hword : ∀ word : List Char, sameFolded word.reverse "nruter".toList = true ↔
      sameFolded word "return".toList = true := by
    intro word
    simp only [sameFolded, foldCase_reverse, beq_iff_eq]
    rw [List.reverse_eq_iff]
    rfl
  constructor
  · intro h
    obtain ⟨hfolded, hedge⟩ : sameFolded (stem.reverse.take 6) "nruter".toList = true ∧
        IsEdge (stem.reverse.drop 6).head? := by
      simpa [endsInReturn, IsEdge] using h
    refine ⟨(stem.reverse.drop 6).reverse, (stem.reverse.take 6).reverse, ?_, ?_, ?_⟩
    · rw [← List.reverse_append, List.take_append_drop, List.reverse_reverse]
    · rw [← hword, List.reverse_reverse]
      exact hfolded
    · rwa [List.getLast?_reverse]
  · rintro ⟨rest, word, rfl, hfolded, hedge⟩
    -- The word has six letters, so the cut at six finds it again.
    have hlength : word.reverse.length = 6 := by
      have hfold := congrArg List.length (beq_iff_eq.1 hfolded)
      simpa [foldCase] using hfold
    have hfolded' := (hword word).2 hfolded
    rw [List.reverse_append, endsInReturn, List.take_left' hlength, List.drop_left' hlength, hfolded',
      List.head?_reverse]
    simpa [IsEdge] using hedge

theorem valueExpected_of_solid {c : Char} (hc : isBlank c = false) (before : List Char) :
    valueExpected (c :: before) = (valueMarks.contains c || endsInReturn (c :: before)) := by
  rw [valueExpected, List.dropWhile_cons_of_neg (by simp [hc])]

/-- The word `return` is not blank at its end. -/
theorem exists_solid_of_endsInReturn {before : List Char} (h : endsInReturn before = true) :
    ∃ c rest, before = c :: rest ∧ isBlank c = false := by
  cases before with
  | nil => exact absurd h (by decide)
  | cons c rest =>
      refine ⟨c, rest, rfl, ?_⟩
      rw [endsInReturn, Bool.and_eq_true] at h
      have hfold := beq_iff_eq.1 h.1
      have hlast : c.toLower = 'n' := (List.cons.inj hfold).1
      rw [← caseBlind_isBlank c, hlast]
      decide

theorem valueExpected_of_endsInReturn {before : List Char} (h : endsInReturn before = true) :
    valueExpected before = true := by
  obtain ⟨c, rest, rfl, hsolid⟩ := exists_solid_of_endsInReturn h
  rw [valueExpected_of_solid hsolid, h, Bool.or_true]

/-- The two ways to say that a value is expected: from the end of the text backwards, and by its parts. -/
theorem valueExpected_reverse_iff (front : List Char) :
    valueExpected front.reverse = true ↔ ExpectsValue front := by
  constructor
  · intro h
    have hfront : front = (front.reverse.dropWhile isBlank).reverse ++
        (front.reverse.takeWhile isBlank).reverse := by
      rw [← List.reverse_append, List.takeWhile_append_dropWhile, List.reverse_reverse]
    refine ⟨_, _, hfront, ?_, ?_⟩
    · rw [List.all_reverse]
      exact List.all_takeWhile
    · rw [← endsInReturn_reverse_iff, List.reverse_reverse]
      rw [valueExpected] at h
      split at h
      · cases h
      · rename_i c cs hlast
        rw [hlast]
        simpa using h
  · rintro ⟨stem, blanks, rfl, hblanks, hstem⟩
    rw [← endsInReturn_reverse_iff, ← List.head?_reverse] at hstem
    -- The blanks at the end are passed, and the stem has none there.
    have hpassed : valueExpected (stem ++ blanks).reverse = valueExpected stem.reverse := by
      have hall : ∀ c ∈ blanks.reverse, isBlank c = true := by
        simpa using hblanks
      rw [List.reverse_append, valueExpected, List.dropWhile_append_of_pos hall, ← valueExpected]
    rw [hpassed]
    generalize stem.reverse = before at hstem
    rcases hstem with ⟨mark, hmark, hhead⟩ | hreturn
    · obtain ⟨rest, rfl⟩ := List.head?_eq_some_iff.1 hhead
      have hsolid : valueMarks.all (!isBlank ·) = true := by decide
      rw [valueExpected_of_solid (by simpa using List.all_eq_true.1 hsolid mark hmark), Bool.or_eq_true]
      exact Or.inl (List.contains_iff_mem.2 hmark)
    · exact valueExpected_of_endsInReturn hreturn

/-- The second step leaves a text alone if it keeps every brace of it. -/
theorem dropLiteralsFrom_eq_self_iff (before cs : List Char) :
    dropLiteralsFrom before cs = cs ↔
      ∀ front c back, cs = front ++ c :: back → c = '{' →
        valueExpected (front.reverse ++ before) = true → afterClose 1 back = none := by
  have hbehind : ∀ (c : Char) (front before : List Char),
      (c :: front).reverse ++ before = front.reverse ++ (c :: before) := by
    simp
  fun_induction dropLiteralsFrom before cs with
  | case1 => simp
  | case2 before c cs hvalue rest hclose _ =>
      have hlength := (dropLiteralsFrom_sublist before rest).length_le
      have hshorter := length_afterClose hclose
      refine iff_of_false (ne_cons_of_length_le (by omega)) fun h => ?_
      have hnone := h [] c cs rfl hvalue.1 hvalue.2
      rw [hclose] at hnone
      cases hnone
  | case3 before c cs hvalue hclose ih =>
      rw [forall_places_cons, List.cons_inj_right]
      simp only [hbehind, hclose, implies_true, true_and]
      exact ih
  | case4 before c cs hvalue ih =>
      have hkept : c = '{' → valueExpected ([].reverse ++ before) = true → afterClose 1 cs = none :=
        fun hc hexpected => absurd ⟨hc, hexpected⟩ hvalue
      rw [forall_places_cons, List.cons_inj_right, iff_true_intro hkept, true_and]
      simp only [hbehind]
      exact ih

/-- The second step leaves a line alone if it has no literal. -/
theorem dropLiterals_eq_self_iff (line : List Char) : dropLiterals line = line ↔ NoLiteral line := by
  rw [dropLiterals, dropLiteralsFrom_eq_self_iff]
  constructor
  · intro h front inside back hline hbalanced hvalue
    have hnone := h front '{' (inside ++ '}' :: back) hline rfl
      (by rw [List.append_nil]; exact (valueExpected_reverse_iff front).2 hvalue)
    rw [(afterClose_eq_some_iff 0 _ back).2 ⟨inside, rfl, (closes_zero_iff inside).2 hbalanced⟩] at hnone
    cases hnone
  · rintro h front c behind hline rfl hvalue
    rw [List.append_nil, valueExpected_reverse_iff] at hvalue
    refine Option.eq_none_iff_forall_ne_some.2 fun back hclose => ?_
    obtain ⟨inside, rfl, hcloses⟩ := (afterClose_eq_some_iff 0 behind back).1 hclose
    exact h front inside back hline ((closes_zero_iff inside).1 hcloses) hvalue

/-! ## Commands -/

/-- Whether a line that starts with a word is no command whose arguments are text, as a comma and a percent sign
behind it say, and has no lone percent sign behind the word. -/
def NoCommandText (line : List Char) : Prop :=
  ∀ name gap tail, line.dropWhile isSpaceOrTab = name ++ (gap ++ tail) → name ≠ [] →
    name.all isIdentChar = true → gap.all isSpaceOrTab = true →
    ¬ (tail.head? = some ',' ∧ '%' ∈ tail) ∧
      ¬ (gap ≠ [] ∧ ∃ blank expr, tail = '%' :: blank :: expr ∧ isSpaceOrTab blank = true)

theorem NoCommandText.plainCommand_eq {line : List Char} (h : NoCommandText line) :
    plainCommand line = line := by
  unfold plainCommand
  extract_lets indent body name rest gap tail
  have hbody : body = name ++ (gap ++ tail) := by
    simp only [name, gap, tail, rest, List.takeWhile_append_dropWhile]
  split
  · rfl
  · rename_i hname
    obtain ⟨htext, hmark⟩ := h name gap tail hbody (by simpa using hname) List.all_takeWhile
      List.all_takeWhile
    split
    · rename_i hcommand
      exact absurd ⟨hcommand.1, by simpa using hcommand.2⟩ htext
    · split
      · rfl
      · rename_i hgap
        cases hexpr : afterMark? tail with
        | none => rfl
        | some expr =>
            obtain ⟨blanks, htail, hblanks, hall⟩ := afterMark?_eq_some hexpr
            obtain ⟨blank, blanks, rfl⟩ := List.exists_cons_of_ne_nil hblanks
            have hsign : tail = '%' :: blank :: (blanks ++ expr) ∧ isSpaceOrTab blank = true :=
              ⟨htail, hall blank List.mem_cons_self⟩
            exact absurd ⟨by simpa using hgap, blank, blanks ++ expr, hsign⟩ hmark

/-- The third step leaves a line alone if it has no text of a command. -/
theorem plainCommand_eq_self_iff (line : List Char) :
    plainCommand line = line ↔ NoCommandText line := by
  refine ⟨?_, NoCommandText.plainCommand_eq⟩
  intro hfixed name gap tail hbody hne hname hgap
  have hline : line = line.takeWhile isSpaceOrTab ++ (name ++ (gap ++ tail)) := by
    rw [← hbody, List.takeWhile_append_dropWhile]
  have hindent : (line.takeWhile isSpaceOrTab).all isSpaceOrTab = true := List.all_takeWhile
  generalize line.takeWhile isSpaceOrTab = indent at hline hindent
  subst hline
  constructor
  · rintro ⟨hcomma, hpercent⟩
    -- The whole line would be dropped, word and all.
    obtain ⟨rest, rfl⟩ := List.head?_eq_some_iff.1 hcomma
    have hstop : (',' :: rest).head?.any isSpaceOrTab = false := (by decide : isSpaceOrTab ',' = false)
    rw [plainCommand_of_parts hindent hname hne hgap hstop (isEdge_gap hgap (by decide) rest),
      if_pos ⟨rfl, List.contains_iff_mem.2 hpercent⟩] at hfixed
    simp [hne] at hfixed
  · rintro ⟨hgapped, blank, expr, rfl, hblank⟩
    -- The sign would go, and the blanks behind it, so that the line would be shorter.
    have hstop : ('%' :: blank :: expr).head?.any isSpaceOrTab = false :=
      (by decide : isSpaceOrTab '%' = false)
    have hmark : afterMark? ('%' :: blank :: expr) = some (expr.dropWhile isSpaceOrTab) := by
      simp [afterMark?, hblank]
    rw [plainCommand_of_parts hindent hname hne hgap hstop (isEdge_gap hgap (by decide) _), hmark,
      if_neg (by simp), if_neg (by simpa using hgapped)] at hfixed
    have hlength := congrArg List.length hfixed
    have hshorter := List.length_dropWhile_le isSpaceOrTab expr
    simp at hlength
    omega

/-! ## Spacing -/

/-- Whether behind its indentation a line has neither tabs nor two spaces in a row. -/
def Squeezed (line : List Char) : Prop :=
  '\t' ∉ line.dropWhile isSpaceOrTab ∧ ¬ [' ', ' '] <:+: line.dropWhile isSpaceOrTab

theorem spaces_infix_cons_iff (c : Char) (cs : List Char) :
    [' ', ' '] <:+: c :: cs ↔ (c = ' ' ∧ cs.head? = some ' ') ∨ [' ', ' '] <:+: cs := by
  rw [List.infix_cons_iff, List.cons_prefix_cons]
  cases cs with
  | nil => simp
  | cons d cs => simp [eq_comm]

/-- A text that is squeezed has no gap to pass; inside a gap it does not start with a space either. -/
theorem squeezeFrom_eq_self_iff (inGap : Bool) (cs : List Char) :
    squeezeFrom inGap cs = cs ↔
      '\t' ∉ cs ∧ ¬ (inGap = true ∧ cs.head? = some ' ') ∧ ¬ [' ', ' '] <:+: cs := by
  induction cs generalizing inGap with
  | nil => simp [squeezeFrom]
  | cons c cs ih =>
      rw [squeezeFrom, spaces_infix_cons_iff]
      cases hc : isSpaceOrTab c with
      | false =>
          have hsolid : c ≠ ' ' ∧ c ≠ '\t' := by
            simpa [isSpaceOrTab] using hc
          simp [ih, hsolid.1, hsolid.2.symm]
      | true =>
          have hblank : c = ' ' ∨ c = '\t' := by
            simpa [isSpaceOrTab] using hc
          cases inGap with
          | true =>
              have hne : squeezeFrom true cs ≠ c :: cs :=
                ne_cons_of_length_le (squeezeFrom_erodes true cs).length_le
              rcases hblank with rfl | rfl
              · simp [hne]
              · simp [hne]
          | false =>
              rcases hblank with rfl | rfl
              · simp [ih]
              · simp

/-- The last step leaves a line alone if it is squeezed. -/
theorem squeeze_eq_self_iff (line : List Char) : squeeze line = line ↔ Squeezed line := by
  have hbody : squeezeFrom false (line.dropWhile isSpaceOrTab) = line.dropWhile isSpaceOrTab ↔
      Squeezed line := by
    simpa [Squeezed] using squeezeFrom_eq_self_iff false (line.dropWhile isSpaceOrTab)
  have hline : line.takeWhile isSpaceOrTab ++ line.dropWhile isSpaceOrTab = line :=
    List.takeWhile_append_dropWhile
  have hsplit : squeeze line = line ↔
      line.takeWhile isSpaceOrTab ++ squeezeFrom false (line.dropWhile isSpaceOrTab) =
        line.takeWhile isSpaceOrTab ++ line.dropWhile isSpaceOrTab := by
    rw [hline, squeeze]
  rw [hsplit, List.append_right_inj, hbody]

/-! ## All steps -/

/-- Whether a step keeps every line as it is or makes it lighter. -/
def Lightens (step : List Char → List Char) : Prop :=
  ∀ line, step line = line ∨ weight (step line) < weight line

namespace Lightens

variable {f g : List Char → List Char}

theorem of_sublist (h : ∀ line, (f line).Sublist line) : Lightens f :=
  fun line => weight_of_sublist (h line)

theorem comp (hf : Lightens f) (hg : Lightens g) : Lightens (g ∘ f) :=
  fun line => weight_trans (hf line) (hg (f line))

/-- The second step cannot give back the weight that the first one takes, so both together keep a line only if
each of them does. -/
theorem comp_eq_self_iff (hf : Lightens f) (hg : Lightens g) (line : List Char) :
    (g ∘ f) line = line ↔ f line = line ∧ g line = line := by
  constructor
  · intro hfixed
    rw [Function.comp_apply] at hfixed
    have hfirst : f line = line := by
      refine (hf line).resolve_right fun hlighter => ?_
      have hsecond := hg (f line)
      rw [hfixed] at hsecond
      rcases hsecond with hsame | hlighter'
      · rw [← hsame] at hlighter
        exact Nat.lt_irrefl _ hlighter
      · exact Nat.lt_asymm hlighter hlighter'
    rw [hfirst] at hfixed
    exact ⟨hfirst, hfixed⟩
  · rintro ⟨hfirst, hsecond⟩
    rw [Function.comp_apply, hfirst, hsecond]

end Lightens

theorem pass_eq_self_iff (line : List Char) :
    Skeleton.pass line = line ↔
      emptyStrings line = line ∧ dropLiterals line = line ∧ plainCommand line = line ∧
        squeeze line = line := by
  have hstrings : Lightens emptyStrings := .of_sublist emptyStrings_sublist
  have hliterals : Lightens dropLiterals := .of_sublist dropLiterals_sublist
  have hcommand : Lightens plainCommand := .of_sublist plainCommand_sublist
  have hpass : Skeleton.pass = squeeze ∘ (plainCommand ∘ (dropLiterals ∘ emptyStrings)) := rfl
  rw [hpass, ((hstrings.comp hliterals).comp hcommand).comp_eq_self_iff squeeze_weight,
    (hstrings.comp hliterals).comp_eq_self_iff hcommand, hstrings.comp_eq_self_iff hliterals, and_assoc,
    and_assoc]

/-- What is known of a line that no step changes: its strings are empty, it has no comment, no literal, no text
of a command and no gaps. -/
structure NormalForm (line : List Char) : Prop where
  strings : StringsEmpty line
  comment : NoComment line
  literals : NoLiteral line
  command : NoCommandText line
  spacing : Squeezed line

theorem normalForm_iff (line : List Char) : NormalForm line ↔ Skeleton.pass line = line := by
  rw [pass_eq_self_iff, emptyStrings_eq_self_iff, dropLiterals_eq_self_iff, plainCommand_eq_self_iff,
    squeeze_eq_self_iff]
  constructor
  · intro h
    exact ⟨⟨h.strings, h.comment⟩, h.literals, h.command, h.spacing⟩
  · rintro ⟨⟨hstrings, hcomment⟩, hliterals, hcommand, hspacing⟩
    exact ⟨hstrings, hcomment, hliterals, hcommand, hspacing⟩

/-- Every skeleton is in normal form: each of the four steps alone leaves it as it is. The lines in normal form
are exactly those that are their own skeletons. -/
theorem skeleton_is_normal (line : List Char) :
    let left := skeleton line
    (emptyStrings left = left ∧ dropLiterals left = left ∧ plainCommand left = left ∧
        squeeze left = left) ∧
      NormalForm left ∧ (NormalForm line ↔ left = line) := by
  intro left
  have hfixed : Skeleton.pass left = left := pass_skeleton line
  refine ⟨(pass_eq_self_iff left).1 hfixed, (normalForm_iff left).2 hfixed, ?_⟩
  rw [normalForm_iff]
  constructor
  · exact skeleton_of_fixed
  · intro hsame
    rwa [hsame] at hfixed

end Skeleton
end ScriptSymbols
