import Mathlib.Data.UInt
import SymbolRanges.Text.Utf8

/-!
# Bytes of well-formed texts

Reading with replacements gives back every text that was written, so what a reader sees of a
well-formed sequence of bytes is its text: `decodeLossy_encode`. No character but the line feed has
a byte like it, so the bytes of a line are well-formed with their line feed exactly when they are
without it: `decode?_concat_lineFeed`.
-/

set_option autoImplicit false

namespace SymbolRanges.Text.Utf8

/-! ### The bytes that follow a lead byte -/

variable {lead : UInt8}

/-- No bytes follow one below 80. -/
theorem followers_ascii (h : lead.toNat < 0x80) : followers lead = some [] := by
  simp only [followers, UInt8.lt_iff_toNat_lt]
  exact if_pos h

/-- One byte follows one from C2 up to DF. -/
theorem followers_two (h : 0xC2 ≤ lead.toNat) (h' : lead.toNat < 0xE0) :
    followers lead = some [continuation] := by
  simp only [followers, UInt8.lt_iff_toNat_lt, UInt8.reduceToNat]
  rw [if_neg (by omega), if_neg (by omega), if_pos h']

/-- The first of two continuation bytes keeps out long forms and surrogates. -/
theorem followers_three (h : 0xE0 ≤ lead.toNat) (h' : lead.toNat < 0xF0) :
    followers lead = some
      [if lead.toNat = 0xE0 then (0xA0, 0xBF) else if lead.toNat = 0xED then (0x80, 0x9F)
        else continuation, continuation] := by
  simp only [followers, UInt8.lt_iff_toNat_lt, ← UInt8.toNat_inj, UInt8.reduceToNat]
  rw [if_neg (by omega), if_neg (by omega), if_neg (by omega)]
  by_cases h1 : lead.toNat = 0xE0
  · simp [h1]
  · by_cases h2 : lead.toNat = 0xED
    · simp [h2]
    · simp [h1, h2, h']

/-- The first of three continuation bytes keeps out long forms and what lies past the last
character. -/
theorem followers_four (h : 0xF0 ≤ lead.toNat) (h' : lead.toNat < 0xF5) :
    followers lead = some
      [if lead.toNat = 0xF0 then (0x90, 0xBF) else if lead.toNat = 0xF4 then (0x80, 0x8F)
        else continuation, continuation, continuation] := by
  simp only [followers, UInt8.lt_iff_toNat_lt, ← UInt8.toNat_inj, UInt8.reduceToNat]
  rw [if_neg (by omega), if_neg (by omega), if_neg (by omega), if_neg (by omega),
    if_neg (by omega), if_neg (by omega)]
  by_cases h1 : lead.toNat = 0xF0
  · simp [h1]
  · by_cases h2 : lead.toNat = 0xF4
    · simp [h2]
    · have h3 : lead.toNat < 0xF4 := by omega
      simp [h1, h2, h3]

/-- A byte lies in a range. -/
def InRange (range : UInt8 × UInt8) (b : UInt8) : Prop :=
  range.1.toNat ≤ b.toNat ∧ b.toNat ≤ range.2.toNat

/-- Bytes that lie in their ranges are all counted, whatever follows. -/
theorem countMatching_of_inRange {ranges : List (UInt8 × UInt8)} {tail : List UInt8}
    (h : List.Forall₂ InRange ranges tail) (rest : List UInt8) :
    countMatching ranges (tail ++ rest) = tail.length := by
  induction h with
  | nil => simp [countMatching]
  | @cons range b ranges tail hb _ ih =>
    have hmatch : range.1 ≤ b ∧ b ≤ range.2 := by
      rw [UInt8.le_iff_toNat_le, UInt8.le_iff_toNat_le]
      exact hb
    rw [List.cons_append, countMatching, if_pos hmatch, ih, List.length_cons]

/-- A lead byte with all the bytes that it calls for is read as one character. -/
theorem charsLossy_of_inRange {ranges : List (UInt8 × UInt8)} {tail : List UInt8}
    (hlead : followers lead = some ranges) (h : List.Forall₂ InRange ranges tail)
    (rest : List UInt8) :
    charsLossy (lead :: tail ++ rest) = scalar lead tail :: charsLossy rest := by
  rw [List.cons_append, charsLossy, hlead]
  simp [countMatching_of_inRange h rest, h.length_eq]

/-! ### Reading a text back -/

/-- A number below 256 is the value of its byte. -/
theorem toNat_byte {n : Nat} (h : n < 256) : (UInt8.ofNat n).toNat = n :=
  UInt8.toNat_ofNat_of_lt' h

/-- A continuation byte lies in a range exactly when its value does. -/
theorem inRange_ofNat_iff {range : UInt8 × UInt8} {n : Nat} (h : n < 64) :
    InRange range (UInt8.ofNat (n + 128)) ↔
      range.1.toNat ≤ n + 128 ∧ n + 128 ≤ range.2.toNat := by
  rw [InRange, toNat_byte (by omega)]

/-- A number of six bits makes a continuation byte. -/
theorem inRange_continuation {n : Nat} (h : n < 64) :
    InRange continuation (UInt8.ofNat (n + 128)) := by
  simp only [inRange_ofNat_iff h, continuation, UInt8.reduceToNat]
  omega

section Widths

variable {v : Nat} (rest : List UInt8)

/-- One byte is read as a character of up to seven bits. -/
theorem charsLossy_one (h : v < 0x80) :
    charsLossy ([UInt8.ofNat v] ++ rest) = Char.ofNat v :: charsLossy rest := by
  have hlead : (UInt8.ofNat v).toNat = v := toNat_byte (by omega)
  rw [charsLossy_of_inRange (followers_ascii (by omega)) .nil]
  simp [scalar, leadPayload, hlead]

/-- Two bytes are read as a character of up to eleven bits. -/
theorem charsLossy_two (h : 0x80 ≤ v) (h' : v < 0x800) :
    charsLossy ([UInt8.ofNat (v / 64 % 32 + 192), UInt8.ofNat (v % 64 + 128)] ++ rest) =
      Char.ofNat v :: charsLossy rest := by
  have hlead : (UInt8.ofNat (v / 64 % 32 + 192)).toNat = v / 64 % 32 + 192 := toNat_byte (by omega)
  have hlast : (UInt8.ofNat (v % 64 + 128)).toNat = v % 64 + 128 := toNat_byte (by omega)
  rw [charsLossy_of_inRange (followers_two (by omega) (by omega))
    (.cons (inRange_continuation (by omega)) .nil)]
  have hvalue : (v / 64 % 32 + 192) % 32 * 64 + (v % 64 + 128) % 64 = v := by omega
  simp only [scalar, List.foldl_cons, List.foldl_nil, List.length_cons, List.length_nil,
    leadPayload, hlead, hlast, hvalue]

/-- Three bytes are read as a character of up to sixteen bits, surrogates excepted. -/
theorem charsLossy_three (h : 0x800 ≤ v) (h' : v < 0x10000) (hs : v < 0xD800 ∨ 0xDFFF < v) :
    charsLossy ([UInt8.ofNat (v / 4096 % 16 + 224), UInt8.ofNat (v / 64 % 64 + 128),
      UInt8.ofNat (v % 64 + 128)] ++ rest) = Char.ofNat v :: charsLossy rest := by
  have hlead : (UInt8.ofNat (v / 4096 % 16 + 224)).toNat = v / 4096 % 16 + 224 :=
    toNat_byte (by omega)
  have hnext : (UInt8.ofNat (v / 64 % 64 + 128)).toNat = v / 64 % 64 + 128 := toNat_byte (by omega)
  have hlast : (UInt8.ofNat (v % 64 + 128)).toNat = v % 64 + 128 := toNat_byte (by omega)
  rw [charsLossy_of_inRange (followers_three (by omega) (by omega))
    (.cons ?_ (.cons (inRange_continuation (by omega)) .nil))]
  · have hvalue : ((v / 4096 % 16 + 224) % 16 * 64 + (v / 64 % 64 + 128) % 64) * 64 +
        (v % 64 + 128) % 64 = v := by omega
    simp only [scalar, List.foldl_cons, List.foldl_nil, List.length_cons, List.length_nil,
      leadPayload, hlead, hnext, hlast, hvalue]
  · rw [hlead, inRange_ofNat_iff (by omega)]
    split_ifs <;> simp only [continuation, UInt8.reduceToNat] <;> omega

/-- Four bytes are read as a character beyond sixteen bits. -/
theorem charsLossy_four (h : 0x10000 ≤ v) (h' : v < 0x110000) :
    charsLossy ([UInt8.ofNat (v / 262144 % 8 + 240), UInt8.ofNat (v / 4096 % 64 + 128),
      UInt8.ofNat (v / 64 % 64 + 128), UInt8.ofNat (v % 64 + 128)] ++ rest) =
      Char.ofNat v :: charsLossy rest := by
  have hlead : (UInt8.ofNat (v / 262144 % 8 + 240)).toNat = v / 262144 % 8 + 240 :=
    toNat_byte (by omega)
  have hnext : (UInt8.ofNat (v / 4096 % 64 + 128)).toNat = v / 4096 % 64 + 128 :=
    toNat_byte (by omega)
  have hthird : (UInt8.ofNat (v / 64 % 64 + 128)).toNat = v / 64 % 64 + 128 := toNat_byte (by omega)
  have hlast : (UInt8.ofNat (v % 64 + 128)).toNat = v % 64 + 128 := toNat_byte (by omega)
  rw [charsLossy_of_inRange (followers_four (by omega) (by omega))
    (.cons ?_ (.cons (inRange_continuation (by omega))
      (.cons (inRange_continuation (by omega)) .nil)))]
  · have hvalue : (((v / 262144 % 8 + 240) % 8 * 64 + (v / 4096 % 64 + 128) % 64) * 64 +
        (v / 64 % 64 + 128) % 64) * 64 + (v % 64 + 128) % 64 = v := by omega
    simp only [scalar, List.foldl_cons, List.foldl_nil, List.length_cons, List.length_nil,
      leadPayload, hlead, hnext, hthird, hlast, hvalue]
  · rw [hlead, inRange_ofNat_iff (by omega)]
    split_ifs <;> simp only [continuation, UInt8.reduceToNat] <;> omega

end Widths

/-- The bytes of a character are read as this character, whatever follows them. -/
theorem charsLossy_utf8EncodeChar (c : Char) (rest : List UInt8) :
    charsLossy (String.utf8EncodeChar c ++ rest) = c :: charsLossy rest := by
  have hvalid : c.toNat < 0xD800 ∨ 0xDFFF < c.toNat ∧ c.toNat < 0x110000 := c.valid
  have hchar : Char.ofNat c.toNat = c := Char.ofNat_toNat c
  have hnat : c.val.toNat = c.toNat := rfl
  rw [String.utf8EncodeChar.eq_1, hnat]
  conv => rhs; rw [← hchar]
  split
  · exact charsLossy_one rest (by omega)
  · split
    · exact charsLossy_two rest (by omega) (by omega)
    · split
      · exact charsLossy_three rest (by omega) (by omega) (by omega)
      · exact charsLossy_four rest (by omega) (by omega)

/-- Reading what was written gives the text, without a replacement. -/
theorem decodeLossy_encode (text : String) : decodeLossy (encode text) = text := by
  have hchars (cs : List Char) : charsLossy (cs.flatMap String.utf8EncodeChar) = cs := by
    induction cs with
    | nil => rw [List.flatMap_nil, charsLossy]
    | cons c rest ih => rw [List.flatMap_cons, charsLossy_utf8EncodeChar, ih]
  rw [decodeLossy, encode, hchars, String.ofList_toList]

/-! ### Line feeds -/

/-- A byte of the ASCII range stands for its own character only. -/
theorem toNat_eq_of_mem_utf8EncodeChar {c : Char} {b : UInt8} (hb : b ∈ String.utf8EncodeChar c)
    (h : b.toNat < 0x80) : c.toNat = b.toNat := by
  have hnat : c.val.toNat = c.toNat := rfl
  rw [String.utf8EncodeChar.eq_1, hnat] at hb
  -- all bytes of the longer forms have their highest bit set
  have hhigh {n : Nat} (hn : n < 256) (hn' : 0x80 ≤ n) : b ≠ UInt8.ofNat n := by
    rintro rfl
    rw [toNat_byte hn] at h
    omega
  split at hb
  · rw [List.mem_singleton.1 hb]
    exact (toNat_byte (by omega)).symm
  · exfalso
    split at hb
    · simp only [List.mem_cons, List.not_mem_nil, or_false] at hb
      rcases hb with hb | hb <;> exact hhigh (by omega) (by omega) hb
    · split at hb <;> simp only [List.mem_cons, List.not_mem_nil, or_false] at hb
      · rcases hb with hb | hb | hb <;> exact hhigh (by omega) (by omega) hb
      · rcases hb with hb | hb | hb | hb <;> exact hhigh (by omega) (by omega) hb

/-- Only the line feed has a byte like it. -/
theorem eq_of_lineFeed_mem {c : Char} (h : 0x0A ∈ String.utf8EncodeChar c) : c = '\n' := by
  have hc : c.toNat = 10 := toNat_eq_of_mem_utf8EncodeChar h (by decide)
  rw [← Char.ofNat_toNat c, hc]

/-- A line feed is written as one byte. -/
theorem encode_lineFeed : encode "\n" = [0x0A] := by decide

/-- Bytes are well-formed with a line feed at their end exactly when they are without it. -/
theorem decode?_concat_lineFeed (bytes : List UInt8) :
    decode? (bytes ++ [0x0A]) = (decode? bytes).map (· ++ "\n") := by
  cases h : decode? bytes with
  | some text =>
    rw [decode?_eq_some_iff.1 h, ← encode_lineFeed, ← encode_append, decode?_encode]
    rfl
  | none =>
    rw [Option.map_none, Option.eq_none_iff_forall_ne_some]
    intro text htext
    have hbytes : bytes ++ [0x0A] = encode text := decode?_eq_some_iff.1 htext
    -- the last character of the text has the last byte, so it is the line feed
    rcases List.eq_nil_or_concat text.toList with hnil | ⟨cs, c, hsplit⟩
    · simp [encode, hnil] at hbytes
    · rw [encode, hsplit, List.concat_eq_append, List.flatMap_append, List.flatMap_singleton]
        at hbytes
      have hlast : 0x0A ∈ String.utf8EncodeChar c := by
        have hne : String.utf8EncodeChar c ≠ [] := by
          rw [← List.length_pos_iff, String.length_utf8EncodeChar]
          exact c.utf8Size_pos
        have hgetLast := congrArg List.getLast? hbytes
        rw [List.getLast?_concat, List.getLast?_append_of_ne_nil _ hne] at hgetLast
        exact List.mem_of_getLast? hgetLast.symm
      rw [eq_of_lineFeed_mem hlast] at hbytes
      have hinit : bytes = encode (String.ofList cs) := by
        rw [encode, String.toList_ofList]
        exact List.append_cancel_right hbytes
      rw [hinit, decode?_encode] at h
      cases h

end SymbolRanges.Text.Utf8
