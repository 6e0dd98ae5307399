import ContractAbi.Bytes

/-!
# Texts as UTF-8 bytes

Reading UTF-8 either gives the text or names the first place where the bytes stop being UTF-8:
`decode_encode` says that what was written is read back.  An ill-formed sequence is described by the
number of bytes that no continuation can repair, or as incomplete when the input ends inside it.
-/

namespace ContractAbi.Text

/-- Where and how bytes stop being UTF-8. -/
structure Utf8Error where
  /-- The number of bytes before the ill-formed sequence. -/
  validUpTo : Nat
  /-- The length of the ill-formed sequence; none when the input ends inside a sequence. -/
  length? : Option Nat
deriving DecidableEq, Repr

namespace Utf8Error

/-- The text of the error. -/
def message (e : Utf8Error) : String :=
  match e.length? with
  | some length =>
      "invalid utf-8 sequence of " ++ toString length ++ " bytes from index " ++
        toString e.validUpTo
  | none => "incomplete utf-8 byte sequence from index " ++ toString e.validUpTo

end Utf8Error

namespace Utf8

/-- The bytes of a text. -/
def encode (s : String) : Bytes :=
  s.toUTF8.data.toList

/-- The inclusive ranges that the bytes after a leading byte have to lie in.  The first range is
narrower after some leading bytes: it leaves out overlong forms, surrogates and code points past
U+10FFFF. -/
def continuations? (lead : UInt8) : Option (List (UInt8 × UInt8)) :=
  let any : UInt8 × UInt8 := (0x80, 0xBF)
  if lead < 0x80 then some []
  else if 0xC2 ≤ lead ∧ lead ≤ 0xDF then some [any]
  else if lead = 0xE0 then some [(0xA0, 0xBF), any]
  else if lead = 0xED then some [(0x80, 0x9F), any]
  else if 0xE1 ≤ lead ∧ lead ≤ 0xEF then some [any, any]
  else if lead = 0xF0 then some [(0x90, 0xBF), any, any]
  else if 0xF1 ≤ lead ∧ lead ≤ 0xF3 then some [any, any, any]
  else if lead = 0xF4 then some [(0x80, 0x8F), any, any]
  else none

/-- What follows a leading byte, matched against its ranges: the rest of the input if all match,
else the number of bytes that did match and whether the input ended there. -/
def matchRanges : List (UInt8 × UInt8) → Bytes → Nat → Except (Nat × Bool) Bytes
  | [], rest, _ => .ok rest
  | _ :: _, [], matched => .error (matched, true)
  | (low, high) :: ranges, b :: rest, matched =>
      if low ≤ b ∧ b ≤ high then matchRanges ranges rest (matched + 1)
      else .error (matched, false)

/-- The first ill-formed sequence, the first argument bounding the number of sequences looked at. -/
def locateFrom : Nat → Nat → Bytes → Utf8Error
  | 0, position, _ => ⟨position, none⟩
  | _ + 1, position, [] => ⟨position, none⟩
  | n + 1, position, lead :: rest =>
      match continuations? lead with
      | none => ⟨position, some 1⟩
      | some ranges =>
          match matchRanges ranges rest 1 with
          | .ok rest => locateFrom n (position + 1 + ranges.length) rest
          | .error (_, true) => ⟨position, none⟩
          | .error (matched, false) => ⟨position, some matched⟩

/-- The first place where the bytes stop being UTF-8. -/
def locate (bytes : Bytes) : Utf8Error :=
  locateFrom (bytes.length + 1) 0 bytes

/-- The text that the bytes stand for. -/
def decode (bytes : Bytes) : Except Utf8Error String :=
  match String.fromUTF8? ⟨bytes.toArray⟩ with
  | some s => .ok s
  | none => .error (locate bytes)

/-- Bytes written from a text are read as that text. -/
theorem decode_encode (s : String) : decode (encode s) = .ok s := by
  have h : String.fromUTF8? ⟨(encode s).toArray⟩ = some s := by
    simp only [encode, String.fromUTF8?, Array.toArray_toList]
    exact dif_pos s.isValidUTF8
  simp [decode, h]

end Utf8
end ContractAbi.Text
