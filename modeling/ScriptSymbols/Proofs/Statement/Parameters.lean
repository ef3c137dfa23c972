import ScriptSymbols.Proofs.Statement.Forms

/-!
# Parameter lists as they are written

Around its name a parameter may have a marker, a star, a default and blanks, and a list may have entries without
any parameter. The default is cut off first, at the first `:=` of the parameter, or else at the first `=`; either
sign may stand in the value as well. None of it changes which name is read.

1. `Statement.withoutDefault_append`: wherever the default is cut off, the marker and the name stay.
2. `Statement.nameWord?_append`: the word with the name is found behind each marker.
3. `Statement.paramName?_append`: a name is read whatever stands behind it, as long as the name is not continued.
4. `Statement.Parameter` and `Statement.Entry` are the parameters and the entries that can be written, and
   `Statement.parameters_are_read_as_names` reads lists of them.
-/

namespace ScriptSymbols

namespace Text

/-! ## Cutting texts that start alike -/

theorem trimEnd_isPrefix (cs : List Char) : trimEnd cs <+: cs := by
  rw [← List.reverse_suffix, trimEnd, dropEndWhile, List.reverse_reverse]
  exact List.dropWhile_suffix isBlank

/-- Blanks are trimmed only behind the last other character. -/
theorem trimEnd_append {a : List Char} (ha : a.getLast?.any isBlank = false) (b : List Char) :
    trimEnd (a ++ b) = a ++ trimEnd b := by
  have hkept : a.reverse.dropWhile isBlank = a.reverse := by
    have hsolid := trimEnd_of_solid ha
    rwa [trimEnd, dropEndWhile, List.reverse_eq_iff] at hsolid
  rw [trimEnd, dropEndWhile, List.reverse_append, List.dropWhile_append, trimEnd, dropEndWhile]
  split
  · rename_i hblank
    rw [hkept, List.isEmpty_iff.1 hblank, List.reverse_reverse, List.reverse_nil, List.append_nil]
  · rw [List.reverse_append, List.reverse_reverse]

theorem before?_append {c : Char} {a : List Char} (h : c ∉ a) (part b : List Char) :
    before? (c :: part) (a ++ b) = (before? (c :: part) b).map (a ++ ·) := by
  induction a with
  | nil => simp
  | cons d a ih =>
      obtain ⟨hd, h⟩ := List.ne_and_not_mem_of_not_mem_cons h
      rw [List.cons_append, before?, ih h]
      simp [hd, Function.comp_def]

theorem before?_isPrefix {part cs front : List Char} (h : before? part cs = some front) :
    front <+: cs := by
  induction cs generalizing front with
  | nil =>
      rw [before?] at h
      split at h
      · cases h
        exact List.nil_prefix
      · cases h
  | cons c cs ih =>
      rw [before?] at h
      split at h
      · cases h
        exact List.nil_prefix
      · obtain ⟨rest, hrest, rfl⟩ := Option.map_eq_some_iff.1 h
        exact List.cons_prefix_cons.2 ⟨rfl, ih hrest⟩

/-- The first word goes on up to the next blank. -/
theorem firstWord?_append {word : List Char} (hne : word ≠ []) (h : ∀ c ∈ word, isBlank c = false)
    (rest : List Char) :
    firstWord? (word ++ rest) =
      some (word ++ rest.takeWhile (!isBlank ·), rest.dropWhile (!isBlank ·)) := by
  have hsolid : ∀ c ∈ word, (!isBlank c) = true := fun c hc => by
    rw [h c hc]
    rfl
  cases word with
  | nil => exact absurd rfl hne
  | cons c word =>
      have hstart : trimStart (c :: (word ++ rest)) = c :: (word ++ rest) :=
        List.dropWhile_cons_of_neg (by simp [h c List.mem_cons_self])
      rw [List.cons_append, firstWord?, hstart]
      dsimp only
      rw [← List.cons_append, List.takeWhile_append_of_pos hsolid, List.dropWhile_append_of_pos hsolid]

/-- Behind a blank the first word is at its end. -/
theorem firstWord?_append_gap {word gap : List Char} (hne : word ≠ []) (h : ∀ c ∈ word, isBlank c = false)
    (hgap : gap.all isBlank = true) (hapart : gap ≠ []) (rest : List Char) :
    firstWord? (word ++ (gap ++ rest)) = some (word, gap ++ rest) := by
  rw [firstWord?_append hne h]
  cases gap with
  | nil => exact absurd rfl hapart
  | cons c gap =>
      have hc : isBlank c = true := List.all_eq_true.1 hgap c List.mem_cons_self
      simp [hc]

theorem firstWord?_blanks_append {gap : List Char} (h : gap.all isBlank = true) (cs : List Char) :
    firstWord? (gap ++ cs) = firstWord? cs := by
  have hstart : trimStart (gap ++ cs) = trimStart cs :=
    List.dropWhile_append_of_pos (List.all_eq_true.1 h)
  rw [firstWord?, hstart, firstWord?]

/-- Parts without a separator are read back from the text that joins them. -/
theorem splitOn_join {sep : Char} {parts : List (List Char)} (hne : parts ≠ [])
    (h : ∀ part ∈ parts, sep ∉ part) : splitOn sep (join [sep] parts) = parts := by
  induction parts with
  | nil => exact absurd rfl hne
  | cons part parts ih =>
      have hpart := h part List.mem_cons_self
      cases parts with
      | nil => exact splitOn_of_not_mem hpart
      | cons next parts =>
          have hrest := ih (by simp) fun part hmem => h part (List.mem_cons_of_mem _ hmem)
          have hjoin : join [sep] (part :: next :: parts) = part ++ sep :: join [sep] (next :: parts) := rfl
          rw [hjoin, splitOn_append hpart, hrest]

/-- Blanks that belong to the separator may as well belong to the parts behind it. -/
theorem join_append_gap (sep gap part : List Char) (parts : List (List Char)) :
    join (sep ++ gap) (part :: parts) = join sep (part :: parts.map (gap ++ ·)) := by
  induction parts generalizing part with
  | nil => rfl
  | cons next parts ih =>
      have hjoin : ∀ (sep part next : List Char) (parts : List (List Char)),
          join sep (part :: next :: parts) = part ++ (sep ++ join sep (next :: parts)) := fun _ _ _ _ => rfl
      have hnext : join sep ((gap ++ next) :: parts.map (gap ++ ·)) =
          gap ++ join sep (next :: parts.map (gap ++ ·)) := by
        cases parts with
        | nil => rfl
        | cons other parts => rw [List.map_cons, hjoin, hjoin, List.append_assoc]
      rw [hjoin, ih, List.map_cons, hjoin, hnext, List.append_assoc]

end Text

open Text Name

namespace Statement

/-! ## The name of one parameter -/

/-- A text with no assignment sign in it, and no blank at its end, stays before whatever default is cut off. -/
theorem withoutDefault_append {a : List Char} (hcolon : ':' ∉ a) (hequals : '=' ∉ a)
    (hsolid : a.getLast?.any isBlank = false) (b : List Char) :
    withoutDefault (a ++ b) = a ++ withoutDefault b := by
  rw [withoutDefault, before?_append hcolon, before?_append hequals, withoutDefault, ← Option.map_or]
  cases (before? [':', '='] b).or (before? ['='] b) with
  | none => rfl
  | some front => exact trimEnd_append hsolid front

theorem withoutDefault_isPrefix (cs : List Char) : withoutDefault cs <+: cs := by
  unfold withoutDefault
  split
  · rename_i front hfront
    refine (trimEnd_isPrefix front).trans ?_
    rcases Option.or_eq_some_iff.1 hfront with h | ⟨-, h⟩
    · exact before?_isPrefix h
    · exact before?_isPrefix h
  · exact List.prefix_refl cs

theorem isEdge_of_isPrefix {a b : List Char} (h : a <+: b) (hb : IsEdge b.head?) : IsEdge a.head? := by
  obtain ⟨more, rfl⟩ := h
  cases a with
  | nil => exact isEdge_none
  | cons c a => exact hb

/-- A text of blanks. -/
structure Blanks where
  text : List Char
  blank : text.all isBlank = true

theorem Blanks.not_mem_text (gap : Blanks) {c : Char} (h : isBlank c = false) : c ∉ gap.text := fun hmem => by
  rw [List.all_eq_true.1 gap.blank c hmem] at h
  cases h

/-- No name goes on in blanks. -/
theorem Blanks.isEdge_head?_append (gap : Blanks) {rest : List Char} (h : IsEdge rest.head?) :
    IsEdge (gap.text ++ rest).head? := by
  cases htext : gap.text with
  | nil => exact h
  | cons c text => exact isIdentChar_of_isBlank (List.all_eq_true.1 gap.blank c (htext ▸ List.mem_cons_self))

/-- What stands before the name of a parameter that is passed by reference: the word `ByRef` in any case and
blanks behind it, or an ampersand. Other parameters have no marker. -/
inductive Marker
  | none
  | word (text : List Char) (same : sameFolded text "byref".toList = true) (gap : Blanks)
      (apart : gap.text ≠ [])
  | ampersand

/-- A marker as it is written. -/
def Marker.text : Marker → List Char
  | none => []
  | word text _ gap _ => text ++ gap.text
  | ampersand => ['&']

/-- The word of the marker is made of letters. -/
theorem isWord_of_sameFolded {word : List Char} (h : sameFolded word "byref".toList = true) :
    word.all isIdentChar = true ∧ word ≠ [] := by
  have hfold : foldCase word = foldCase "byref".toList := by simpa [sameFolded] using h
  constructor
  · rw [← all_foldCase word caseBlind_isIdentChar, hfold]
    decide
  · rintro rfl
    exact absurd h (by decide)

/-- A word with a character that belongs to no name is not the word of the marker. -/
theorem sameFolded_eq_false {word : List Char} {c : Char} (hmem : c ∈ word) (hc : isIdentChar c = false) :
    sameFolded word "byref".toList = false :=
  Bool.eq_false_iff.2 fun hsame => not_mem_of_isIdentChar (isWord_of_sameFolded hsame).1 hc hmem

theorem Marker.not_mem_text (marker : Marker) {c : Char} (hident : isIdentChar c = false)
    (hblank : isBlank c = false) (hmark : c ≠ '&') : c ∉ marker.text := by
  cases marker with
  | none => exact List.not_mem_nil
  | word text same gap apart =>
      exact List.not_mem_append (not_mem_of_isIdentChar (isWord_of_sameFolded same).1 hident)
        (gap.not_mem_text hblank)
  | ampersand => simpa [Marker.text] using hmark

section Named

variable {name tail : List Char} (hname : name.all isIdentChar = true) (hne : name ≠ [])
  (hfree : sameFolded name "byref".toList = false) (htail : IsEdge tail.head?)

include hname hne

theorem head?_word_append (rest : List Char) : (name ++ rest).head?.any isBlank = false := by
  rw [List.head?_append_of_ne_nil _ hne]
  exact (any_isBlank_head? hname).1

theorem Marker.head?_text_append (marker : Marker) :
    (marker.text ++ (name ++ tail)).head?.any isBlank = false := by
  cases marker with
  | none => exact head?_word_append hname hne tail
  | word text same gap apart =>
      have hword := isWord_of_sameFolded same
      rw [Marker.text, List.append_assoc]
      exact head?_word_append hword.1 hword.2 _
  | ampersand => rfl

include hfree htail

/-- The word with the name starts with the name, up to an ampersand, and does not go on with it. -/
theorem nameWord?_append (marker : Marker) :
    ∃ mark rest, mark.all (· == '&') = true ∧ IsEdge rest.head? ∧
      nameWord? (marker.text ++ (name ++ tail)) = some (mark ++ (name ++ rest)) := by
  have hsolid : ∀ {word : List Char}, word.all isIdentChar = true → ∀ c ∈ word, isBlank c = false :=
    fun hword c hc => isBlank_of_isIdentChar (List.all_eq_true.1 hword c hc)
  have hfirst := firstWord?_append hne (hsolid hname) tail
  have hrest : IsEdge (tail.takeWhile (!isBlank ·)).head? :=
    isEdge_of_isPrefix (List.takeWhile_prefix _) htail
  cases marker with
  | none =>
      -- With more characters behind it the name is not the word of the marker either, since the first of them
      -- belongs to no name.
      have hother : sameFolded (name ++ tail.takeWhile (!isBlank ·)) "byref".toList = false := by
        cases hmore : tail.takeWhile (!isBlank ·) with
        | nil => rwa [List.append_nil]
        | cons c more =>
            rw [hmore] at hrest
            exact sameFolded_eq_false (List.mem_append_right _ List.mem_cons_self) (isEdge_some.1 hrest)
      refine ⟨[], _, rfl, hrest, ?_⟩
      simp only [Marker.text, List.nil_append, nameWord?, hfirst, hother]
      rfl
  | word text same gap apart =>
      have hword := isWord_of_sameFolded same
      have hmarker := firstWord?_append_gap hword.2 (hsolid hword.1) gap.blank apart (name ++ tail)
      refine ⟨[], _, rfl, hrest, ?_⟩
      simp only [Marker.text, List.append_assoc, nameWord?, hmarker, same, if_true,
        firstWord?_blanks_append gap.blank, hfirst]
      rfl
  | ampersand =>
      have hmarked : ∀ c ∈ '&' :: name, isBlank c = false := by
        simpa using ⟨by decide, hsolid hname⟩
      have hword := firstWord?_append (List.cons_ne_nil '&' name) hmarked tail
      have hother := @sameFolded_eq_false (('&' :: name) ++ tail.takeWhile (!isBlank ·)) '&' (by simp)
        (by decide)
      refine ⟨['&'], _, rfl, hrest, ?_⟩
      rw [Marker.text, ← List.append_assoc, List.singleton_append, nameWord?, hword]
      simp only [hother]
      rfl

/-- A name is read behind each marker, whatever stands behind the name, as long as the name is not continued. -/
theorem paramName?_append {indent : List Char} (hindent : indent.all isBlank = true) (marker : Marker) :
    paramName? (indent ++ (marker.text ++ (name ++ tail))) = some name := by
  have hsolid : (marker.text ++ name).getLast?.any isBlank = false := by
    rw [List.getLast?_append_of_ne_nil _ hne]
    exact (any_isBlank_head? hname).2
  have hsign : ∀ c ∈ [':', '='], c ∉ marker.text ++ name := by
    intro c hc
    have hnone : isIdentChar c = false ∧ isBlank c = false ∧ c ≠ '&' := by
      rcases List.mem_pair.1 hc with rfl | rfl
      · decide
      · decide
    exact List.not_mem_append (marker.not_mem_text hnone.1 hnone.2.1 hnone.2.2)
      (not_mem_of_isIdentChar hname hnone.1)
  -- Neither trimming nor cutting the default touches the name, and what they leave behind it does not go on with it.
  have hleft : withoutDefault (trim (indent ++ (marker.text ++ (name ++ tail)))) =
      marker.text ++ (name ++ withoutDefault (trimEnd tail)) := by
    rw [trim, trimStart_append hindent (marker.head?_text_append hname hne), ← List.append_assoc,
      trimEnd_append hsolid, withoutDefault_append (hsign ':' (by simp)) (hsign '=' (by simp)) hsolid,
      List.append_assoc]
  have hedge := isEdge_of_isPrefix ((withoutDefault_isPrefix _).trans (trimEnd_isPrefix tail)) htail
  obtain ⟨mark, rest, hmark, hrest, hword⟩ := nameWord?_append hname hne hfree hedge marker
  have hmark' : (name ++ rest).head?.any (· == '&') = false := by
    rw [List.head?_append_of_ne_nil _ hne]
    cases name with
    | nil => exact absurd rfl hne
    | cons c name =>
        rw [List.head?_cons, Option.any_some, beq_eq_false_iff_ne]
        rintro rfl
        exact not_mem_of_isIdentChar hname (by decide) List.mem_cons_self
  rw [paramName?, hleft, hword]
  simp only [dropWhile_append_of_stop hmark hmark', takeWhile_append_of_stop hname hrest]
  rw [if_neg (by simpa using hne)]

end Named

/-! ## Lists of parameters -/

/-- A default as it may be written: an assignment sign, with blanks before it, and a value without a comma. -/
structure Default where
  gap : Blanks
  colon : Bool
  value : List Char
  closed : ',' ∉ value

def Default.text (d : Default) : List Char :=
  d.gap.text ++ ((if d.colon then [':', '='] else ['=']) ++ d.value)

/-- A parameter as it may be written. -/
structure Parameter where
  before : Blanks
  marker : Marker
  name : List Char
  isWord : name.all isIdentChar = true
  nonempty : name ≠ []
  free : sameFolded name "byref".toList = false
  starred : Bool
  default? : Option Default
  after : Blanks

namespace Parameter

/-- What is written behind the name. -/
def tail (p : Parameter) : List Char :=
  (if p.starred then ['*'] else []) ++ (p.default?.elim [] Default.text ++ p.after.text)

def text (p : Parameter) : List Char :=
  p.before.text ++ (p.marker.text ++ (p.name ++ p.tail))

end Parameter

/-- What may stand between two commas of a parameter list. -/
inductive Entry
  | blank (gap : Blanks)
  | param (p : Parameter)

namespace Entry

def text : Entry → List Char
  | blank gap => gap.text
  | param p => p.text

/-- The name that an entry declares, if it is not blank. -/
def name? : Entry → Option (List Char)
  | blank _ => none
  | param p => some p.name

end Entry

theorem Default.not_mem_text (d : Default) : ',' ∉ d.text := by
  have hsign : ',' ∉ if d.colon then [':', '='] else ['='] := by
    split
    · decide
    · decide
  exact List.not_mem_append (d.gap.not_mem_text (by decide)) (List.not_mem_append hsign d.closed)

theorem Default.isEdge_head?_text_append (d : Default) (rest : List Char) : IsEdge (d.text ++ rest).head? := by
  rw [Default.text, List.append_assoc]
  refine d.gap.isEdge_head?_append ?_
  split
  · exact isEdge_some.2 (by decide)
  · exact isEdge_some.2 (by decide)

namespace Parameter

theorem not_mem_text (p : Parameter) : ',' ∉ p.text := by
  have hstar : ',' ∉ if p.starred then ['*'] else [] := by
    split
    · decide
    · decide
  have hdefault : ',' ∉ p.default?.elim [] Default.text := by
    cases p.default? with
    | none => exact List.not_mem_nil
    | some d => exact d.not_mem_text
  refine List.not_mem_append (p.before.not_mem_text (by decide)) ?_
  refine List.not_mem_append (p.marker.not_mem_text (by decide) (by decide) (by decide)) ?_
  refine List.not_mem_append (not_mem_of_isIdentChar p.isWord (by decide)) ?_
  exact List.not_mem_append hstar (List.not_mem_append hdefault (p.after.not_mem_text (by decide)))

/-- The name ends where the star, the default or the blanks start. -/
theorem isEdge_head?_tail (p : Parameter) : IsEdge p.tail.head? := by
  unfold tail
  split
  · exact isEdge_some.2 (by decide)
  · rw [List.nil_append]
    cases p.default? with
    | none =>
        have hafter := @Blanks.isEdge_head?_append p.after [] isEdge_none
        rwa [List.append_nil] at hafter
    | some d => exact d.isEdge_head?_text_append _

end Parameter

theorem paramName?_text (entry : Entry) : paramName? entry.text = entry.name? := by
  cases entry with
  | blank gap =>
      have htrim : trim gap.text = [] := by
        have hgap := @trim_append gap.text [] gap.blank rfl rfl
        rwa [List.append_nil] at hgap
      rw [Entry.text, paramName?, htrim]
      rfl
  | param p => exact paramName?_append p.isWord p.nonempty p.free p.isEdge_head?_tail p.before.blank p.marker

theorem paramNames_join_parts {parts : List (List Char)} (hne : parts ≠ [])
    (h : ∀ part ∈ parts, ',' ∉ part) : paramNames (join [','] parts) = parts.filterMap paramName? := by
  rw [paramNames, splitOn_join hne h]

/-- Names with a comma and a space between neighbours are the names of parameters. -/
theorem paramNames_join {names : List (List Char)} (h : ∀ name ∈ names, isName name = true)
    (hfree : ∀ name ∈ names, isReserved name = false) :
    paramNames (join ", ".toList names) = names := by
  have hword : ∀ name ∈ names, name.all isIdentChar = true := fun name hmem =>
    all_isIdentChar_of_isPart (all_isPart_of_isName (h name hmem))
  have hread : ∀ name ∈ names, ∀ indent, indent.all isBlank = true →
      paramName? (indent ++ name) = some name := by
    intro name hmem indent hindent
    have hne : name ≠ [] := by
      rintro rfl
      exact Bool.false_ne_true (h [] hmem)
    have hbyref : sameFolded name "byref".toList = false := by
      have hall := List.any_eq_false.1 (hfree name hmem) "byref" (by decide)
      exact Bool.eq_false_iff.2 hall
    have hname := @paramName?_append name [] (hword name hmem) hne hbyref isEdge_none indent hindent .none
    rwa [Marker.text, List.nil_append, List.append_nil] at hname
  cases names with
  | nil => rfl
  | cons name names =>
      -- The space behind a comma is read as the indentation of the next name.
      have hsep : ", ".toList = [','] ++ " ".toList := rfl
      have hparts : ∀ part ∈ name :: names.map (" ".toList ++ ·), ',' ∉ part := by
        intro part hpart
        rcases List.mem_cons.1 hpart with rfl | hpart
        · exact not_mem_of_isIdentChar (hword _ List.mem_cons_self) (by decide)
        · obtain ⟨other, hmem, rfl⟩ := List.mem_map.1 hpart
          exact List.not_mem_append (by decide)
            (not_mem_of_isIdentChar (hword other (List.mem_cons_of_mem _ hmem)) (by decide))
      have hfirst : paramName? name = some name := hread name List.mem_cons_self [] rfl
      have hrest : names.filterMap (paramName? ∘ (" ".toList ++ ·)) = names.filterMap some :=
        List.filterMap_congr fun other hmem => hread other (List.mem_cons_of_mem _ hmem) _ (by decide)
      rw [hsep, join_append_gap, paramNames_join_parts (by simp) hparts, List.filterMap_cons_some hfirst,
        List.filterMap_map, hrest, List.filterMap_some]

/-- A list of parameters is read as their names, in order. Each parameter may have blanks on both sides, the word
`ByRef` in any case or an ampersand before its name, and a star and a default behind it, whatever stands in the
value of the default; and any entries of the list may be blank. -/
theorem parameters_are_read_as_names (entries : List Entry) :
    paramNames (join [','] (entries.map Entry.text)) = entries.filterMap Entry.name? := by
  cases entries with
  | nil => rfl
  | cons entry entries =>
      have hparts : ∀ part ∈ (entry :: entries).map Entry.text, ',' ∉ part := by
        intro part hpart
        obtain ⟨written, -, rfl⟩ := List.mem_map.1 hpart
        cases written with
        | blank gap => exact gap.not_mem_text (by decide)
        | param p => exact p.not_mem_text
      rw [paramNames_join_parts (by simp) hparts, List.filterMap_map]
      exact List.filterMap_congr fun written _ => paramName?_text written

/-- Either sign may start a default and stand in the value of another one. -/
theorem parameters_are_read_as_names_in_every_form :
    paramNames "ByRef a, b := x = 1,, &c \t,d*=y := 2".toList = [['a'], ['b'], ['c'], ['d']] := by
  let nothing : Blanks := ⟨[], rfl⟩
  let space : Blanks := ⟨[' '], by decide⟩
  exact parameters_are_read_as_names
    [.param ⟨nothing, .word "ByRef".toList (by decide) space (by simp [space]), ['a'], by decide, by simp, by decide,
        false, none, nothing⟩,
      .param ⟨space, .none, ['b'], by decide, by simp, by decide, false,
        some ⟨space, true, " x = 1".toList, by decide⟩, nothing⟩,
      .blank nothing,
      .param ⟨space, .ampersand, ['c'], by decide, by simp, by decide, false, none, ⟨[' ', '\t'], by decide⟩⟩,
      .param ⟨nothing, .none, ['d'], by decide, by simp, by decide, true,
        some ⟨nothing, false, "y := 2".toList, by decide⟩, nothing⟩]

end Statement
end ScriptSymbols
