import ScriptHost.Proofs.Host.Instructions
import ScriptHost.Proofs.Host.Numbers
/-!
Operands that are used as positions, lengths and tokens. Each is read as a signed word first, and
that is the number that the operand denotes or, for a whole double beyond the words, the word next
to it. No array is long enough and no token large enough for that word, so that only lengths are
taken for something else than what they are.
-/
namespace ScriptHost.Host

variable {ε : Type} {method : Method} {this : Option ObjectRef} {pc : Nat} {stack : List Value}
  {locals args : Array Value} {w : World ε} {v x : Value} {ref : ObjectRef}

/-- The word that stands for all whole doubles above the words. -/
theorem Value.Above.asNat? (above : v.Above) : v.asNat? = some (2 ^ 63 - 1) :=
  Value.asNat?_eq_some_iff.2 (.inr ⟨above, rfl⟩)

section

variable {signature target carrier : Value} {bytes : ByteArray} {t : Nat}

end

end ScriptHost.Host
