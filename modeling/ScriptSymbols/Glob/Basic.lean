/-!
# Glob patterns

A pattern is matched against a whole relative path. A question mark stands for one character, a star
for any sequence, a pair of stars that is a path component of its own for any directories, and
brackets for one character of a set or outside it. Slashes and leading dots are not special to the
wildcards.

- `Glob.compile` reads a pattern.
- `Glob.isMatch` matches a text.
-/

namespace ScriptSymbols
namespace Glob

/-- A closed range of characters in a set. -/
structure CharSpan where
  first : Char
  last : Char
  deriving DecidableEq

/-- A part of a pattern. -/
inductive Token
  | char (c : Char)
  | anyChar
  | anySequence
  | anyDirectories
  | within (set : List CharSpan)
  | except (set : List CharSpan)
  deriving DecidableEq

/-- What is wrong with a pattern. -/
inductive Fault
  | tooManyStars
  | partialComponent
  | badSet
  deriving DecidableEq

/-- A fault, and the index of the character near which it lies. -/
structure Error where
  position : Nat
  fault : Fault
  deriving DecidableEq

/-- The fault in words. -/
def Fault.message : Fault → String
  | .tooManyStars => "wildcards are either regular `*` or recursive `**`"
  | .partialComponent => "recursive wildcards must form a single path component"
  | .badSet => "invalid range pattern"

/-- The error in words. -/
def Error.message (e : Error) : String :=
  "Pattern syntax error near position " ++ toString e.position ++ ": " ++ e.fault.message

/-! ## Reading a pattern -/

/-- The characters of a set. A hyphen between two characters makes a range of them. -/
def spans : List Char → List CharSpan
  | [] => []
  | a :: '-' :: b :: cs => ⟨a, b⟩ :: spans cs
  | a :: cs => ⟨a, a⟩ :: spans cs

/-- Reads the characters of a set up to its closing bracket: the token made of them and what follows
the bracket. A closing bracket that comes first belongs to the set. -/
def closeSet? (make : List CharSpan → Token) : List Char → Option (Token × List Char)
  | [] => none
  | c :: cs =>
    if cs.contains ']' then
      some (make (spans (c :: cs.takeWhile (· != ']'))), (cs.dropWhile (· != ']')).drop 1)
    else none

/-- Reads a set behind its opening bracket; an exclamation mark makes it the set of all others. -/
def readSet? (cs : List Char) : Option (Token × List Char) :=
  if cs.head? = some '!' then closeSet? .except (cs.drop 1) else closeSet? .within cs

theorem length_dropWhile_le (p : Char → Bool) (cs : List Char) :
    (cs.dropWhile p).length ≤ cs.length :=
  (List.dropWhile_sublist p).length_le

theorem length_closeSet? {make : List CharSpan → Token} {cs rest : List Char} {t : Token}
    (h : closeSet? make cs = some (t, rest)) : rest.length < cs.length := by
  cases cs with
  | nil => cases h
  | cons c cs =>
    rw [closeSet?] at h
    split at h
    · have hrest : (cs.dropWhile (· != ']')).drop 1 = rest :=
        congrArg Prod.snd (Option.some.inj h)
      have hle := length_dropWhile_le (· != ']') cs
      rw [← hrest, List.length_drop, List.length_cons]
      omega
    · cases h

theorem length_readSet? {cs rest : List Char} {t : Token} (h : readSet? cs = some (t, rest)) :
    rest.length < cs.length := by
  unfold readSet? at h
  split at h
  · have := length_closeSet? h
    simp only [List.length_drop] at this
    omega
  · exact length_closeSet? h

/-- Reads the tokens of the text at `position`, which follows `prev`; `read` are the tokens before it,
from the last to the first. -/
def compileFrom (position : Nat) (prev : Option Char) (read : List Token) :
    List Char → Except Error (List Token)
  | [] => .ok read.reverse
  | c :: cs =>
    if c = '?' then compileFrom (position + 1) (some c) (.anyChar :: read) cs
    else if c = '*' then
      let stars := 1 + (cs.takeWhile (· == '*')).length
      if 2 < stars then .error ⟨position + 2, .tooManyStars⟩
      else if stars = 1 then compileFrom (position + 1) (some c) (.anySequence :: read) cs
      else if prev.any (· != '/') then .error ⟨position - 1, .partialComponent⟩
      else
        let read := if read.head? = some .anyDirectories then read else .anyDirectories :: read
        match _h : cs.dropWhile (· == '*') with
        | [] => .ok read.reverse
        | d :: rest =>
          if d = '/' then compileFrom (position + 3) (some d) read rest
          else .error ⟨position + 2, .partialComponent⟩
    else if c = '[' then
      match _h : readSet? cs with
      | none => .error ⟨position, .badSet⟩
      | some (token, rest) =>
        compileFrom (position + 1 + (cs.length - rest.length)) (some ']') (token :: read) rest
    else compileFrom (position + 1) (some c) (.char c :: read) cs
termination_by cs => cs.length
decreasing_by
  · simp
  · simp
  · have hle := length_dropWhile_le (· == '*') cs
    rw [_h, List.length_cons] at hle
    simp only [List.length_cons]
    omega
  · have := length_readSet? _h
    simp only [List.length_cons]
    omega
  · simp

/-- The tokens of a pattern. -/
def compile (pattern : String) : Except Error (List Token) :=
  compileFrom 0 none [] pattern.toList

/-! ## Matching -/

/-- How an attempt to match ends. If the text ends before the pattern, no other attempt is made. -/
inductive Outcome
  | matched
  | failed
  | exhausted
  deriving DecidableEq

/-- The first of two attempts, or the second one if the first failed. -/
def Outcome.orElse (a : Outcome) (b : Unit → Outcome) : Outcome :=
  match a with
  | .failed => b ()
  | _ => a

/-- Whether a set holds a character. -/
def inSet (set : List CharSpan) (c : Char) : Bool :=
  set.any fun s => s.first ≤ c && c ≤ s.last

/-- Whether a token for one character stands for it. -/
def Token.holds : Token → Char → Bool
  | .char d, c => c == d
  | .anyChar, _ => true
  | .within set, c => inSet set c
  | .except set, c => !inSet set c
  | .anySequence, _ => false
  | .anyDirectories, _ => false

/-- Tries what follows a wildcard behind each further character of the text that the wildcard may end
with, and then at the end of the text. -/
def matchTails (ends : Char → Bool) (next : List Char → Outcome) : List Char → Outcome
  | [] => next []
  | c :: cs =>
    if ends c then (next cs).orElse fun _ => matchTails ends next cs
    else matchTails ends next cs

/-- Matches tokens against a whole text. -/
def matchTokens : List Token → List Char → Outcome
  | [], cs => if cs.isEmpty then .matched else .failed
  | .anySequence :: ts, cs =>
    (matchTokens ts cs).orElse fun _ => matchTails (fun _ => true) (matchTokens ts) cs
  | .anyDirectories :: ts, cs =>
    (matchTokens ts cs).orElse fun _ => matchTails (· == '/') (matchTokens ts) cs
  | _ :: _, [] => .exhausted
  | t :: ts, c :: cs => if t.holds c then matchTokens ts cs else .failed

/-- Whether tokens match a text. -/
def isMatch (tokens : List Token) (text : List Char) : Bool :=
  matchTokens tokens text == .matched

end Glob
end ScriptSymbols
