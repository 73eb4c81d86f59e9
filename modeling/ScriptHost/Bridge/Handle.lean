import ScriptHost.Text.Hex
/-!
Handles: names of host objects that scripts can hold.
-/
namespace ScriptHost.Bridge

/-- The slot of a registry, and how often that slot had been released when the handle was issued. -/
structure Handle where
  index : UInt32
  generation : UInt32
  deriving DecidableEq, Repr

/-- The word that stands for a handle. -/
def Handle.toWord (h : Handle) : UInt64 :=
  (h.generation.toUInt64 <<< 32) ||| h.index.toUInt64

/-- The handle that a word stands for. -/
def Handle.ofWord (word : UInt64) : Handle :=
  ⟨word.toUInt32, (word >>> 32).toUInt32⟩

/-- The text of a handle: sixteen hexadecimal digits. -/
def Handle.text (h : Handle) : String :=
  "0x" ++ Text.hexPadded 16 h.toWord.toNat

end ScriptHost.Bridge
