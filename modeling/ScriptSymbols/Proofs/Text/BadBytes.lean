import ScriptSymbols.Proofs.Text.Decoding

/-!
# Bad bytes in files

A byte that starts no character is replaced where it stands. The texts on both sides of it are read as they are
without it, and no byte makes the reader swallow a character of ASCII, of which line feeds, braces and quotes are.

1. `Text.decodeOne_encode`: the form of a character is read as this character, whatever follows it, so that
   `Text.decode_encode_append` reads a whole text and goes on behind it.
2. `Text.asciiBytes_decodeOne`: a sequence that starts outside ASCII stays outside it, also if it is given up.
3. `Text.asciiChars_decode`: the characters of ASCII in a text are the bytes of ASCII in its file.
4. `Text.bad_bytes_stay_in_place` is the result for files, without the byte order mark.
-/

namespace ScriptSymbols
namespace Text

/-! ## Forms are read back -/

theorem decodeTail_cons {low high : Nat} {b : UInt8} (hb : low ≤ b.toNat ∧ b.toNat ≤ high)
    (missing bits : Nat) (bytes : List UInt8) :
    decodeTail (missing + 1) low high bits (b :: bytes) =
      decodeTail missing 0x80 0xBF (bits * 64 + (b.toNat - 0x80)) bytes := by
  rw [decodeTail, if_pos hb]

theorem toNat_ofNat_byte {n : Nat} (h : n < 256) : (UInt8.ofNat n).toNat = n :=
  UInt8.toNat_ofNat_of_lt' h

section Forms

variable {v : Nat}

theorem decodeOne_two (hlow : 0x7F < v) (hhigh : v ≤ 0x7FF) (rest : List UInt8) :
    decodeOne (UInt8.ofNat (v / 64 % 32 + 192)) (UInt8.ofNat (v % 64 + 128) :: rest) =
      (Char.ofNat v, rest) := by
  have hfirst : (UInt8.ofNat (v / 64 % 32 + 192)).toNat = v / 64 % 32 + 192 := toNat_ofNat_byte (by omega)
  have hsecond : (UInt8.ofNat (v % 64 + 128)).toNat = v % 64 + 128 := toNat_ofNat_byte (by omega)
  have hvalue : (v / 64 % 32 + 192 - 0xC0) * 64 + (v % 64 + 128 - 0x80) = v := by omega
  unfold decodeOne
  dsimp only
  rw [hfirst, if_neg (by omega), if_neg (by omega), if_pos (by omega),
    decodeTail_cons (by rw [hsecond]; omega), hsecond, hvalue, decodeTail]

theorem decodeOne_three (hlow : 0x7FF < v) (hhigh : v ≤ 0xFFFF) (hvalid : v < 0xD800 ∨ 0xDFFF < v)
    (rest : List UInt8) :
    decodeOne (UInt8.ofNat (v / 4096 % 16 + 224))
        (UInt8.ofNat (v / 64 % 64 + 128) :: UInt8.ofNat (v % 64 + 128) :: rest) =
      (Char.ofNat v, rest) := by
  have hfirst : (UInt8.ofNat (v / 4096 % 16 + 224)).toNat = v / 4096 % 16 + 224 :=
    toNat_ofNat_byte (by omega)
  have hsecond : (UInt8.ofNat (v / 64 % 64 + 128)).toNat = v / 64 % 64 + 128 := toNat_ofNat_byte (by omega)
  have hthird : (UInt8.ofNat (v % 64 + 128)).toNat = v % 64 + 128 := toNat_ofNat_byte (by omega)
  have hvalue : ((v / 4096 % 16 + 224 - 0xE0) * 64 + (v / 64 % 64 + 128 - 0x80)) * 64 +
      (v % 64 + 128 - 0x80) = v := by omega
  -- Two of the first bytes narrow the range of the second one, against longer forms of small characters and against
  -- surrogates. The character is neither.
  unfold decodeOne
  dsimp only
  rw [hfirst, if_neg (by omega), if_neg (by omega), if_neg (by omega), if_pos (by omega),
    decodeTail_cons (by rw [hsecond]; split <;> split <;> omega), hsecond,
    decodeTail_cons (by rw [hthird]; omega), hthird, hvalue, decodeTail]

theorem decodeOne_four (hlow : 0xFFFF < v) (hvalid : v < 0x110000) (rest : List UInt8) :
    decodeOne (UInt8.ofNat (v / 262144 % 8 + 240))
        (UInt8.ofNat (v / 4096 % 64 + 128) :: UInt8.ofNat (v / 64 % 64 + 128) ::
          UInt8.ofNat (v % 64 + 128) :: rest) =
      (Char.ofNat v, rest) := by
  have hfirst : (UInt8.ofNat (v / 262144 % 8 + 240)).toNat = v / 262144 % 8 + 240 :=
    toNat_ofNat_byte (by omega)
  have hsecond : (UInt8.ofNat (v / 4096 % 64 + 128)).toNat = v / 4096 % 64 + 128 :=
    toNat_ofNat_byte (by omega)
  have hthird : (UInt8.ofNat (v / 64 % 64 + 128)).toNat = v / 64 % 64 + 128 := toNat_ofNat_byte (by omega)
  have hfourth : (UInt8.ofNat (v % 64 + 128)).toNat = v % 64 + 128 := toNat_ofNat_byte (by omega)
  have hvalue : (((v / 262144 % 8 + 240 - 0xF0) * 64 + (v / 4096 % 64 + 128 - 0x80)) * 64 +
      (v / 64 % 64 + 128 - 0x80)) * 64 + (v % 64 + 128 - 0x80) = v := by omega
  unfold decodeOne
  dsimp only
  rw [hfirst, if_neg (by omega), if_neg (by omega), if_neg (by omega), if_neg (by omega), if_pos (by omega),
    decodeTail_cons (by rw [hsecond]; split <;> split <;> omega), hsecond,
    decodeTail_cons (by rw [hthird]; omega), hthird,
    decodeTail_cons (by rw [hfourth]; omega), hfourth, hvalue, decodeTail]

end Forms

/-- The form of a character is read as the character, and what follows it is left. -/
theorem decodeOne_encode (c : Char) (rest : List UInt8) :
    ∃ b tail, encode [c] = b :: tail ∧ decodeOne b (tail ++ rest) = (c, rest) := by
  have hchar : Char.ofNat c.val.toNat = c := Char.ofNat_toNat c
  have hvalid : c.val.toNat < 0xD800 ∨ 0xDFFF < c.val.toNat ∧ c.val.toNat < 0x110000 := c.valid
  rw [encode_singleton, String.utf8EncodeChar]
  split
  · refine ⟨_, [], rfl, ?_⟩
    rw [decodeOne, toNat_ofNat_byte (by omega), if_pos (by omega), hchar, List.nil_append]
  split
  · refine ⟨_, _, rfl, ?_⟩
    rw [List.singleton_append, decodeOne_two (by omega) (by omega), hchar]
  split
  · refine ⟨_, _, rfl, ?_⟩
    rw [List.cons_append, List.singleton_append, decodeOne_three (by omega) (by omega) (by omega), hchar]
  · refine ⟨_, _, rfl, ?_⟩
    rw [List.cons_append, List.cons_append, List.singleton_append,
      decodeOne_four (by omega) (by omega), hchar]

theorem encode_cons (c : Char) (cs : List Char) : encode (c :: cs) = encode [c] ++ encode cs := by
  rw [encode_singleton]
  rfl

/-- A text is read up to its end, whatever bytes follow. -/
theorem decode_encode_append (cs : List Char) (bytes : List UInt8) :
    decode (encode cs ++ bytes) = cs ++ decode bytes := by
  induction cs with
  | nil => rfl
  | cons c cs ih =>
      obtain ⟨b, tail, hform, hread⟩ := decodeOne_encode c (encode cs ++ bytes)
      rw [encode_cons, hform, List.append_assoc, List.cons_append, decode_cons, hread, ih, List.cons_append]

theorem decode_encode (cs : List Char) : decode (encode cs) = cs := by
  have hread := decode_encode_append cs []
  rwa [decode_nil, List.append_nil, List.append_nil] at hread

/-- Whether a byte neither starts a character nor is one: it only continues characters, or occurs in none. -/
def IsStray (b : UInt8) : Prop :=
  0x80 ≤ b.toNat ∧ b.toNat ≤ 0xC1 ∨ 0xF5 ≤ b.toNat

theorem decode_stray {b : UInt8} (h : IsStray b) (bytes : List UInt8) :
    decode (b :: bytes) = replacement :: decode bytes := by
  have hread : decodeOne b bytes = (replacement, bytes) := by
    unfold decodeOne
    dsimp only
    rcases h with ⟨hlow, hhigh⟩ | hlow
    · rw [if_neg (by omega), if_pos (by omega)]
    · rw [if_neg (by omega), if_neg (by omega), if_neg (by omega), if_neg (by omega), if_neg (by omega)]
  rw [decode_cons, hread]

/-! ## ASCII -/

/-- The characters of ASCII in a text. -/
def asciiChars (cs : List Char) : List Char :=
  cs.filter (·.toNat < 0x80)

/-- The bytes of ASCII in a file, as characters. -/
def asciiBytes (bytes : List UInt8) : List Char :=
  (bytes.filter (·.toNat < 0x80)).map fun b => Char.ofNat b.toNat

theorem asciiBytes_cons_of_le {b : UInt8} (h : 0x80 ≤ b.toNat) (bytes : List UInt8) :
    asciiBytes (b :: bytes) = asciiBytes bytes := by
  rw [asciiBytes, List.filter_cons_of_neg (by simpa using h), asciiBytes]

/-- Only bytes outside ASCII are taken as the rest of a character, whether it comes to its end or is given up. -/
theorem asciiBytes_decodeTail {low : Nat} (hlow : 0x80 ≤ low) (missing high bits : Nat) (bytes : List UInt8) :
    asciiBytes (decodeTail missing low high bits bytes).2 = asciiBytes bytes := by
  induction missing generalizing low high bits bytes with
  | zero => rfl
  | succ missing ih =>
      cases bytes with
      | nil => rfl
      | cons b bytes =>
          rw [decodeTail]
          split
          · rename_i hb
            rw [ih (by omega), asciiBytes_cons_of_le (by omega)]
          · rfl

theorem asciiBytes_decodeOne {b : UInt8} (hb : 0x80 ≤ b.toNat) (bytes : List UInt8) :
    asciiBytes (decodeOne b bytes).2 = asciiBytes bytes := by
  unfold decodeOne
  dsimp only
  rw [if_neg (by omega)]
  split
  · rfl
  split
  · exact asciiBytes_decodeTail (by omega) ..
  split
  · exact asciiBytes_decodeTail (by split <;> omega) ..
  split
  · exact asciiBytes_decodeTail (by split <;> omega) ..
  · rfl

/-- A sequence that starts outside ASCII is read as a character outside ASCII: no other form starts with its first
byte, and the replacement character is none of ASCII either. -/
theorem le_toNat_decodeOne {b : UInt8} (hb : 0x80 ≤ b.toNat) (bytes : List UInt8) :
    0x80 ≤ (decodeOne b bytes).1.toNat := by
  obtain ⟨happend, hform | ⟨hchar, -⟩⟩ := readAs_firstSequence b bytes
  · refine Nat.le_of_not_lt fun hascii => ?_
    have hone : encode [(decodeOne b bytes).1] = [UInt8.ofNat (decodeOne b bytes).1.toNat] := by
      rw [encode_singleton, String.utf8EncodeChar]
      exact if_pos (Nat.le_of_lt_succ hascii)
    rw [hform, hone, List.singleton_append] at happend
    have hfirst : UInt8.ofNat (decodeOne b bytes).1.toNat = b := (List.cons.inj happend).1
    rw [← hfirst, toNat_ofNat_byte (by omega)] at hb
    omega
  · rw [hchar]
    decide

/-- The characters of ASCII in a text are, in order, the bytes of ASCII that it is read from. -/
theorem asciiChars_decode : ∀ bytes : List UInt8, asciiChars (decode bytes) = asciiBytes bytes
  | [] => by
      rw [decode_nil]
      rfl
  | b :: bytes => by
      have hshorter := length_decodeOne b bytes
      have hrest := asciiChars_decode (decodeOne b bytes).2
      -- A byte of ASCII is read as it is, and any other starts a sequence that adds nothing on either side.
      rw [decode_cons, asciiChars]
      by_cases hascii : b.toNat < 0x80
      · have hone : decodeOne b bytes = (Char.ofNat b.toNat, bytes) := by
          rw [decodeOne]
          exact if_pos hascii
        have hchar : (Char.ofNat b.toNat).toNat = b.toNat := toNat_ofNat_of_valid (Or.inl (by omega))
        rw [hone] at hrest ⊢
        rw [List.filter_cons_of_pos (by simpa [hchar] using hascii), ← asciiChars, hrest, asciiBytes,
          asciiBytes, List.filter_cons_of_pos (by simpa using hascii), List.map_cons]
      · have hchar := le_toNat_decodeOne (Nat.le_of_not_lt hascii) bytes
        rw [List.filter_cons_of_neg (by simpa using hchar), ← asciiChars, hrest,
          asciiBytes_decodeOne (Nat.le_of_not_lt hascii), asciiBytes_cons_of_le (Nat.le_of_not_lt hascii)]
termination_by bytes => bytes.length

theorem count_asciiChars {c : Char} (hc : c.toNat < 0x80) (cs : List Char) :
    (asciiChars cs).count c = cs.count c :=
  List.count_filter (by simpa using hc)

theorem count_asciiBytes {c : Char} (hc : c.toNat < 0x80) (bytes : List UInt8) :
    (asciiBytes bytes).count c = bytes.count (UInt8.ofNat c.toNat) := by
  rw [asciiBytes, List.count, List.countP_map, List.countP_filter, List.count]
  refine List.countP_congr fun b _ => ?_
  simp only [Function.comp_apply, Bool.and_eq_true, beq_iff_eq, decide_eq_true_eq]
  constructor
  · rintro ⟨rfl, hb⟩
    rw [show (Char.ofNat b.toNat).toNat = b.toNat from toNat_ofNat_of_valid (Or.inl (by omega)),
      UInt8.ofNat_toNat]
  · rintro rfl
    rw [toNat_ofNat_byte (by omega), Char.ofNat_toNat]
    exact ⟨rfl, hc⟩

/-! ## Files -/

/-- Whether a text is another one without the byte order mark at its start. Of several marks one is taken away. -/
def IsUnmarked (cs unmarked : List Char) : Prop :=
  cs = '\ufeff' :: unmarked ∨ cs.head? ≠ some '\ufeff' ∧ unmarked = cs

theorem isUnmarked_dropMark (cs : List Char) : IsUnmarked cs (dropMark cs) := by
  cases cs with
  | nil => exact Or.inr ⟨by simp, rfl⟩
  | cons c cs =>
      rw [dropMark]
      split
      · rename_i hmark
        exact Or.inl (by rw [hmark])
      · rename_i hmark
        exact Or.inr ⟨by simpa using hmark, rfl⟩

theorem asciiChars_of_isUnmarked {cs unmarked : List Char} (h : IsUnmarked cs unmarked) :
    asciiChars unmarked = asciiChars cs := by
  rcases h with rfl | ⟨-, rfl⟩
  · rfl
  · rfl

/-- Bad bytes neither hide nor shift what stands around them. A text is read back from its bytes. A stray byte
between two texts becomes a replacement character between them. And in any file whatsoever the characters of ASCII
are, in order and so in number, the bytes of ASCII. A byte order mark at the start is dropped. -/
theorem bad_bytes_stay_in_place :
    (∀ s : List Char, IsUnmarked s (decodeFile (encode s)).toList) ∧
      (∀ (s t : List Char) (b : UInt8), IsStray b →
        IsUnmarked (s ++ '\ufffd' :: t) (decodeFile (encode s ++ b :: encode t)).toList) ∧
      ∀ bytes : List UInt8, asciiChars (decodeFile bytes).toList = asciiBytes bytes ∧
        ∀ c : Char, c.toNat < 0x80 →
          (decodeFile bytes).toList.count c = bytes.count (UInt8.ofNat c.toNat) := by
  have hfile : ∀ bytes, IsUnmarked (decode bytes) (decodeFile bytes).toList := fun bytes => by
    rw [decodeFile, String.toList_ofList]
    exact isUnmarked_dropMark (decode bytes)
  have hascii : ∀ bytes, asciiChars (decodeFile bytes).toList = asciiBytes bytes := fun bytes => by
    rw [asciiChars_of_isUnmarked (hfile bytes), asciiChars_decode]
  refine ⟨fun s => ?_, fun s t b hb => ?_, fun bytes => ⟨hascii bytes, fun c hc => ?_⟩⟩
  · have htext := hfile (encode s)
    rwa [decode_encode] at htext
  · have htext := hfile (encode s ++ b :: encode t)
    rwa [decode_encode_append, decode_stray hb, decode_encode] at htext
  · rw [← count_asciiChars hc, hascii, count_asciiBytes hc]

/-- Only the mark at the start is dropped, and the brace behind the stray byte is still there. -/
theorem bad_bytes_stay_in_place_before_brace :
    let bytes := encode "\ufeffa".toList ++ 0xC0 :: encode "\x7b\n\ufeff".toList
    (decodeFile bytes).toList = "a\ufffd\x7b\n\ufeff".toList ∧ asciiBytes bytes = "a\x7b\n".toList ∧
      bytes.count 0x7B = 1 := by
  intro bytes
  obtain ⟨-, hstray, hany⟩ := bad_bytes_stay_in_place
  have htext : (decodeFile bytes).toList = "a\ufffd\x7b\n\ufeff".toList := by
    rcases hstray "\ufeffa".toList "\x7b\n\ufeff".toList 0xC0 (Or.inl (by decide)) with h | ⟨h, -⟩
    · exact (List.cons.inj h).2.symm
    · exact absurd rfl h
  obtain ⟨hascii, hcount⟩ := hany bytes
  have hbrace := hcount '\x7b' (by decide)
  rw [htext] at hascii hbrace
  exact ⟨htext, hascii.symm, hbrace.symm⟩

end Text
end ScriptSymbols
