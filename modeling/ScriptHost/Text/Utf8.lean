/-!
Byte strings as text. Reading never fails: each longest run of bytes that begins a character but
does not finish one is shown as a single replacement character.
-/
namespace ScriptHost.Text

/-- The character shown in place of bytes that are not text. -/
def replacement : Char := '\uFFFD'

/-- What the first byte of a character asks for: the bits it carries, how many bytes follow, and the
range of the first of those. -/
structure Lead where
  bits : Nat
  following : Nat
  low : UInt8
  high : UInt8

/-- The demands of a first byte. A byte that only continues a character, or begins an overlong or
too large one, begins none. -/
def Lead.ofByte? (b : UInt8) : Option Lead :=
  if b < 0x80 then some ⟨b.toNat, 0, 0, 0⟩
  else if b < 0xC2 then none
  else if b < 0xE0 then some ⟨(b &&& 0x1F).toNat, 1, 0x80, 0xBF⟩
  else if b = 0xE0 then some ⟨0, 2, 0xA0, 0xBF⟩
  else if b = 0xED then some ⟨0xD, 2, 0x80, 0x9F⟩
  else if b < 0xF0 then some ⟨(b &&& 0x0F).toNat, 2, 0x80, 0xBF⟩
  else if b = 0xF0 then some ⟨0, 3, 0x90, 0xBF⟩
  else if b < 0xF4 then some ⟨(b &&& 0x07).toNat, 3, 0x80, 0xBF⟩
  else if b = 0xF4 then some ⟨4, 3, 0x80, 0x8F⟩
  else none

/-- Adds `following` continuation bytes to the bits of a character. Answers the character, if all
of them are there, and how many bytes were taken. -/
def continuation (bits : Nat) :
    (following : Nat) → (low high : UInt8) → List UInt8 → Option Char × Nat
  | 0, _, _, _ => (some (Char.ofNat bits), 0)
  | _ + 1, _, _, [] => (none, 0)
  | following + 1, low, high, b :: rest =>
    if low ≤ b ∧ b ≤ high then
      let (c, taken) := continuation (bits * 64 + (b &&& 0x3F).toNat) following 0x80 0xBF rest
      (c, taken + 1)
    else (none, 0)

/-- The character that begins with `b`, if there is one, and how many bytes after `b` it takes. -/
def character (b : UInt8) (rest : List UInt8) : Option Char × Nat :=
  match Lead.ofByte? b with
  | none => (none, 0)
  | some lead => continuation lead.bits lead.following lead.low lead.high rest

/-- The characters of a byte string, with a replacement for each malformed run. -/
def shownChars : List UInt8 → List Char
  | [] => []
  | b :: rest =>
    let (c, taken) := character b rest
    c.getD replacement :: shownChars (rest.drop taken)
termination_by bytes => bytes.length

/-- The text of a byte string, with a replacement for each malformed run. -/
def shown (bytes : ByteArray) : String :=
  match String.fromUTF8? bytes with
  | some text => text
  | none => .ofList (shownChars bytes.toList)

end ScriptHost.Text
