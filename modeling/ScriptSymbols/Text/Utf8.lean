/-!
# UTF-8 with replacement

Files are read as UTF-8 whatever they hold: each longest start of a character that is not continued
becomes one replacement character, so that a bad byte never hides a script.

- `encode` gives the bytes of a text.
- `decode` reads bytes as a text.
- `decodeFile` also drops a byte order mark.
-/

namespace ScriptSymbols
namespace Text

/-- The bytes of a text. -/
def encode (cs : List Char) : List UInt8 :=
  cs.flatMap String.utf8EncodeChar

/-- What a malformed sequence of bytes is read as. -/
def replacement : Char := '\ufffd'

/-- Reads `missing` more bytes of a character whose bits so far are `bits`, the next of them between
`low` and `high`. On a bad byte the character is given up and that byte is left. -/
def decodeTail : (missing low high bits : Nat) → List UInt8 → Char × List UInt8
  | 0, _, _, bits, bytes => (Char.ofNat bits, bytes)
  | _ + 1, _, _, _, [] => (replacement, [])
  | missing + 1, low, high, bits, b :: bytes =>
    if low ≤ b.toNat ∧ b.toNat ≤ high then
      decodeTail missing 0x80 0xBF (bits * 64 + (b.toNat - 0x80)) bytes
    else (replacement, b :: bytes)

/-- Reads one character that starts with the byte `b`, and gives the bytes behind it. The bounds on
the second byte keep out overlong forms, surrogates and values past the last code point. -/
def decodeOne (b : UInt8) (bytes : List UInt8) : Char × List UInt8 :=
  let n := b.toNat
  if n < 0x80 then (Char.ofNat n, bytes)
  else if n < 0xC2 then (replacement, bytes)
  else if n < 0xE0 then decodeTail 1 0x80 0xBF (n - 0xC0) bytes
  else if n < 0xF0 then
    decodeTail 2 (if n = 0xE0 then 0xA0 else 0x80) (if n = 0xED then 0x9F else 0xBF) (n - 0xE0) bytes
  else if n < 0xF5 then
    decodeTail 3 (if n = 0xF0 then 0x90 else 0x80) (if n = 0xF4 then 0x8F else 0xBF) (n - 0xF0) bytes
  else (replacement, bytes)

theorem length_decodeTail (missing low high bits : Nat) (bytes : List UInt8) :
    (decodeTail missing low high bits bytes).2.length ≤ bytes.length := by
  induction missing generalizing low high bits bytes with
  | zero => simp [decodeTail]
  | succ missing ih =>
    cases bytes with
    | nil => simp [decodeTail]
    | cons b bytes =>
      rw [decodeTail]
      split
      · exact Nat.le_succ_of_le (ih _ _ _ _)
      · exact Nat.le_refl _

theorem length_decodeOne (b : UInt8) (bytes : List UInt8) :
    (decodeOne b bytes).2.length ≤ bytes.length := by
  unfold decodeOne
  dsimp only
  split
  · exact Nat.le_refl _
  split
  · exact Nat.le_refl _
  split
  · exact length_decodeTail ..
  split
  · exact length_decodeTail ..
  split
  · exact length_decodeTail ..
  · exact Nat.le_refl _

/-- Reads bytes as text behind what is read already, which is given backwards. -/
def decodeOnto (read : List Char) : List UInt8 → List Char
  | [] => read.reverse
  | b :: bytes => decodeOnto ((decodeOne b bytes).1 :: read) (decodeOne b bytes).2
termination_by bytes => bytes.length
decreasing_by exact Nat.lt_succ_of_le (length_decodeOne b bytes)

/-- Bytes read as text. -/
def decode (bytes : List UInt8) : List Char :=
  decodeOnto [] bytes

/-- Whether bytes are well-formed: the bytes of some text. -/
def isUtf8 (bytes : List UInt8) : Bool :=
  encode (decode bytes) == bytes

/-- The text without a byte order mark at its start. -/
def dropMark : List Char → List Char
  | [] => []
  | c :: cs => if c = '\ufeff' then cs else c :: cs

/-- The bytes of a file read as text. -/
def decodeFile (bytes : List UInt8) : String :=
  String.ofList (dropMark (decode bytes))

end Text
end ScriptSymbols
