import ScriptHost.Checksum.Crc32
import ScriptHost.Script.State
/-!
Functions as chunks of bytes. A chunk names a prototype: a mark, a version, the length of the name,
the name, and a checksum of all that comes before it.
-/
namespace ScriptHost.Script.Chunk

open Checksum (crc32)

/-- The mark with which a chunk begins. -/
def mark : List UInt8 := [0x1b, 0x54, 0x43, 0x48]

/-- The version of chunks. -/
def version : UInt8 := 1

/-- The four bytes of a word, lowest first. -/
def littleEndian (w : UInt32) : List UInt8 :=
  [w.toUInt8, (w >>> 8).toUInt8, (w >>> 16).toUInt8, (w >>> 24).toUInt8]

/-- The word of four bytes, lowest first. -/
def ofLittleEndian : List UInt8 → Nat
  | [] => 0
  | b :: rest => b.toNat + 256 * ofLittleEndian rest

/-- What of a chunk the checksum covers. -/
def covered (name : List UInt8) : List UInt8 :=
  mark ++ [version] ++ littleEndian (.ofNat name.length) ++ name

/-- The chunk of a prototype. -/
def encode (name : String) : List UInt8 :=
  let bytes := covered name.toUTF8.toList
  bytes ++ littleEndian (crc32 bytes)

/-- Why bytes are no chunk. -/
inductive Flaw
  | notChunk
  | otherVersion
  | wrongChecksum
  | wrongLength
  | malformedName
  deriving DecidableEq, Repr

/-- What a flaw says. -/
def Flaw.message : Flaw → String
  | .notChunk => "not a precompiled chunk"
  | .otherVersion => "version mismatch"
  | .wrongChecksum => "checksum mismatch"
  | .wrongLength => "truncated chunk"
  | .malformedName => "malformed prototype name"

/-- The prototype that a chunk names. -/
def decode (chunk : List UInt8) : Except Flaw String :=
  if chunk.length < 13 ∨ chunk.take 4 ≠ mark then .error .notChunk
  else if (chunk.drop 4).head? ≠ some version then .error .otherVersion
  else
    let body := chunk.take (chunk.length - 4)
    if crc32 body ≠ .ofNat (ofLittleEndian (chunk.drop (chunk.length - 4))) then
      .error .wrongChecksum
    else if body.length ≠ 9 + ofLittleEndian ((body.drop 5).take 4) then .error .wrongLength
    else
      match String.fromUTF8? ⟨(body.drop 9).toArray⟩ with
      | some name => .ok name
      | none => .error .malformedName

end Chunk

/-- The chunk of a function, if it was made from a prototype. -/
def FunctionRef.dump (f : FunctionRef) : Except Error (List UInt8) :=
  match f.proto with
  | some name => .ok (Chunk.encode name)
  | none => .error ⟨"unable to dump function '" ++ f.name ++ "'", ""⟩

/-- The function that a chunk names. Errors begin with the name under which the chunk is loaded. -/
def State.load (s : State) (chunk : List UInt8) (chunkName : String) :
    Except Error FunctionRef × State :=
  match Chunk.decode chunk with
  | .ok name => s.loadPrototype name
  | .error flaw => (.error ⟨chunkName ++ ": " ++ flaw.message, ""⟩, s)

end ScriptHost.Script
