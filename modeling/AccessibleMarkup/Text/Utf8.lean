/-!
Bytes and text. A file holds bytes; they are read as UTF-8, and bytes that are not UTF-8 are
refused with the place and the kind of the first fault. Writing a text and reading it back gives
the same text.
-/
namespace AccessibleMarkup.Text.Utf8

inductive Reason where
  /-- The byte begins no character. -/
  | invalidStart
  /-- A byte that had to continue the character does not. -/
  | invalidContinuation
  /-- The bytes end inside a character. -/
  | unexpectedEnd
  deriving DecidableEq

/-- The first place where bytes are not UTF-8. The fault covers `count` bytes from `position` on,
the first of which is `byte`. -/
structure Fault where
  position : Nat
  count : Nat
  byte : UInt8
  reason : Reason
  deriving DecidableEq

/-- How many bytes continue a character that begins with this one. -/
def continuationCount? (lead : UInt8) : Option Nat :=
  if lead < 0x80 then some 0
  else if lead < 0xC2 then none
  else if lead < 0xE0 then some 1
  else if lead < 0xF0 then some 2
  else if lead < 0xF5 then some 3
  else none

/-- The least and the greatest byte that may stand second. The bounds keep out longer forms than
needed, surrogates and code points above the last one. -/
def secondBounds (lead : UInt8) : UInt8 × UInt8 :=
  if lead = 0xE0 then (0xA0, 0xBF)
  else if lead = 0xED then (0x80, 0x9F)
  else if lead = 0xF0 then (0x90, 0xBF)
  else if lead = 0xF4 then (0x80, 0x8F)
  else (0x80, 0xBF)

/-- The fault among the bytes that have to continue a character, of which `seen` are read. -/
def continuationFault? (bounds : UInt8 × UInt8) : Nat → Nat → List UInt8 → Option (Nat × Reason)
  | 0, _, _ => none
  | _ + 1, seen, [] => some (seen, .unexpectedEnd)
  | owed + 1, seen, byte :: rest =>
    if bounds.1 ≤ byte ∧ byte ≤ bounds.2 then
      continuationFault? (0x80, 0xBF) owed (seen + 1) rest
    else some (seen, .invalidContinuation)

/-- The first fault of bytes that are not UTF-8, counted from `position`. -/
def firstFault (position : Nat) : List UInt8 → Fault
  | [] => ⟨position, 0, 0, .unexpectedEnd⟩
  | lead :: rest =>
    match continuationCount? lead with
    | none => ⟨position, 1, lead, .invalidStart⟩
    | some owed =>
      match continuationFault? (secondBounds lead) owed 1 rest with
      | some (count, reason) => ⟨position, count, lead, reason⟩
      | none => firstFault (position + 1 + owed) (rest.drop owed)
termination_by bytes => bytes.length
decreasing_by simp only [List.length_drop, List.length_cons]; omega

def decode (bytes : ByteArray) : Except Fault String :=
  match String.fromUTF8? bytes with
  | some text => .ok text
  | none => .error (firstFault 0 bytes.toList)

def encode (text : String) : ByteArray :=
  text.toUTF8

theorem fromUTF8?_encode (text : String) : String.fromUTF8? (encode text) = some text := by
  have hValid := text.isValidUTF8
  simp [String.fromUTF8?, encode, hValid, String.fromUTF8]

/-- A text comes back from its bytes. -/
@[simp] theorem decode_encode (text : String) : decode (encode text) = .ok text := by
  rw [decode, fromUTF8?_encode]

def byteLength (text : List Char) : Nat :=
  text.foldl (fun size c => size + c.utf8Size) 0

end AccessibleMarkup.Text.Utf8
