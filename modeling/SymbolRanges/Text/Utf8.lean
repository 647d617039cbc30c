/-!
# UTF-8

Texts as bytes and back. `encode` writes a text, `decode?` reads a well-formed sequence of bytes,
and `decodeLossy` reads any sequence, with one replacement character for every maximal run of
bytes that starts a character without finishing it, and for every byte that cannot start one.
-/

set_option autoImplicit false

namespace SymbolRanges.Text.Utf8

/-- The bytes of a text. -/
def encode (text : String) : List UInt8 :=
  text.toList.flatMap String.utf8EncodeChar

/-- The text that the bytes encode, if they are well-formed. -/
def decode? (bytes : List UInt8) : Option String :=
  String.fromUTF8? bytes.toByteArray

/-- What is read for bytes that encode no character. -/
def replacement : Char := '\uFFFD'

/-- The range of an ordinary continuation byte. -/
def continuation : UInt8 × UInt8 := (0x80, 0xBF)

/-- The range of each byte that must follow a lead byte, or `none` for a byte that leads no
character. -/
def followers (lead : UInt8) : Option (List (UInt8 × UInt8)) :=
  if lead < 0x80 then some []
  else if lead < 0xC2 then none
  else if lead < 0xE0 then some [continuation]
  else if lead = 0xE0 then some [(0xA0, 0xBF), continuation]
  else if lead = 0xED then some [(0x80, 0x9F), continuation]
  else if lead < 0xF0 then some [continuation, continuation]
  else if lead = 0xF0 then some [(0x90, 0xBF), continuation, continuation]
  else if lead < 0xF4 then some [continuation, continuation, continuation]
  else if lead = 0xF4 then some [(0x80, 0x8F), continuation, continuation]
  else none

/-- How many bytes at the front lie in their ranges, up to the first that does not. -/
def countMatching : List (UInt8 × UInt8) → List UInt8 → Nat
  | range :: ranges, b :: rest =>
    if range.1 ≤ b ∧ b ≤ range.2 then countMatching ranges rest + 1 else 0
  | _, _ => 0

/-- The payload of a lead byte followed by `n` continuation bytes. -/
def leadPayload (lead : UInt8) : Nat → Nat
  | 0 => lead.toNat
  | 1 => lead.toNat % 32
  | 2 => lead.toNat % 16
  | _ => lead.toNat % 8

/-- The character of a lead byte and the continuation bytes that follow it. -/
def scalar (lead : UInt8) (tail : List UInt8) : Char :=
  Char.ofNat
    (tail.foldl (fun value b => value * 64 + b.toNat % 64) (leadPayload lead tail.length))

/-- The characters of any sequence of bytes, with a replacement for what encodes none. -/
def charsLossy : List UInt8 → List Char
  | [] => []
  | lead :: rest =>
    match followers lead with
    | none => replacement :: charsLossy rest
    | some ranges =>
      let n := countMatching ranges rest
      (if n = ranges.length then scalar lead (rest.take n) else replacement)
        :: charsLossy (rest.drop n)
termination_by bytes => bytes.length
decreasing_by
  · simp
  · simp only [List.length_drop, List.length_cons]; omega

/-- The text of any sequence of bytes, with a replacement for what encodes no character. -/
def decodeLossy (bytes : List UInt8) : String :=
  String.ofList (charsLossy bytes)

/-- The empty text has no bytes. -/
@[simp] theorem encode_empty : encode "" = [] := rfl

/-- The bytes of two texts in a row are the bytes of the one and then of the other. -/
@[simp] theorem encode_append (a b : String) : encode (a ++ b) = encode a ++ encode b := by
  simp [encode]

/-- A text takes as many bytes as its size says. -/
@[simp] theorem length_encode (text : String) : (encode text).length = text.utf8ByteSize := by
  rw [encode, ← String.size_toByteArray, ← String.utf8Encode_toList, List.utf8Encode,
    List.size_toByteArray]

/-- Reading back what was written gives the text. -/
@[simp] theorem decode?_encode (text : String) : decode? (encode text) = some text := by
  have h : (encode text).toByteArray = text.toByteArray := String.utf8Encode_toList
  have hv : (encode text).toByteArray.IsValidUTF8 := h ▸ text.isValidUTF8
  simp only [decode?, String.fromUTF8?, hv, dif_pos, Option.some.injEq]
  rw [← String.toByteArray_inj]
  exact h

/-- Bytes are read exactly when they are what some text is written as. -/
theorem decode?_eq_some_iff {bytes : List UInt8} {text : String} :
    decode? bytes = some text ↔ bytes = encode text := by
  constructor
  · intro h
    unfold decode? String.fromUTF8? at h
    split at h
    · next hv =>
      have h' : (String.fromUTF8 bytes.toByteArray hv).toByteArray = bytes.toByteArray := rfl
      rw [Option.some.inj h, ← String.utf8Encode_toList, List.utf8Encode] at h'
      simpa [encode] using congrArg (fun b => b.data.toList) h'.symm
    · cases h
  · rintro rfl
    exact decode?_encode text

end SymbolRanges.Text.Utf8
