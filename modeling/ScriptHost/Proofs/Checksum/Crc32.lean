import Mathlib.Data.UInt
import Mathlib.Logic.Function.Iterate
import ScriptHost.Checksum.Crc32
/-!
What the check notices. Every step of the division can be undone, since the polynomial has its top
bit set: that bit of a remainder tells whether the polynomial was subtracted. So remainders that
differ once differ ever after, and a list of bytes of which one is altered has another check.
-/
namespace ScriptHost.Checksum

/-! ## One bit -/

/-- The lowest bit of a word says whether the word is odd. -/
theorem and_one_eq_one_iff (r : UInt32) : r &&& 1 = 1 ↔ r.toBitVec.getLsbD 0 = true := by
  rw [← UInt32.toBitVec_inj, UInt32.toBitVec_and]
  constructor
  · intro odd
    have low := congrArg (fun w : BitVec 32 => w.getLsbD 0) odd
    simpa using low
  · intro odd
    have low : r.toBitVec &&& 1#32 = (BitVec.ofBool (r.toBitVec.getLsbD 0)).setWidth 32 :=
      BitVec.and_one_eq_setWidth_ofBool_getLsbD
    rw [odd] at low
    exact low

/-- The top bit after a division is the lowest bit before it. -/
theorem top_crcBit (r : UInt32) : (crcBit r).toBitVec.getLsbD 31 = r.toBitVec.getLsbD 0 := by
  cases low : r.toBitVec.getLsbD 0 with
  | true =>
    rw [crcBit, if_pos ((and_one_eq_one_iff r).2 low)]
    simp
  | false =>
    have even : ¬ r &&& 1 = 1 := fun odd => by
      rw [and_one_eq_one_iff, low] at odd
      cases odd
    rw [crcBit, if_neg even]
    simp

/-- What is divided, by its two halves. -/
theorem eq_of_halves {r r' : UInt32} (low : r.toBitVec.getLsbD 0 = r'.toBitVec.getLsbD 0)
    (rest : r >>> 1 = r' >>> 1) : r = r' := by
  rw [← UInt32.toBitVec_inj] at rest ⊢
  apply BitVec.eq_of_getLsbD_eq
  intro i inside
  cases i with
  | zero => exact low
  | succ i =>
    have bit := congrArg (fun w : BitVec 32 => w.getLsbD i) rest
    simpa [Nat.add_comm] using bit

theorem crcBit_injective : Function.Injective crcBit := by
  intro r r' same
  have low : r.toBitVec.getLsbD 0 = r'.toBitVec.getLsbD 0 := by
    rw [← top_crcBit, ← top_crcBit, same]
  apply eq_of_halves low
  unfold crcBit at same
  simp only [and_one_eq_one_iff, low] at same
  split at same
  · exact UInt32.xor_left_inj _ |>.1 same
  · exact same

/-! ## Bytes -/

theorem iterate_crcBit_injective (n : Nat) : Function.Injective (Nat.repeat crcBit n) := by
  induction n with
  | zero => exact fun _ _ same => same
  | succ n ih => exact crcBit_injective.comp ih

/-- Remainders that differ still do after a byte. -/
theorem crcByte_left_injective (b : UInt8) : Function.Injective fun r => crcByte r b := by
  intro r r' same
  exact (UInt32.xor_left_inj b.toUInt32).1 (iterate_crcBit_injective 8 same)

/-- Bytes that differ leave different remainders. -/
theorem crcByte_right_injective (r : UInt32) : Function.Injective (crcByte r) := by
  intro b b' same
  have wide := (UInt32.xor_right_inj r).1 (iterate_crcBit_injective 8 same)
  rw [← UInt8.toNat_inj]
  rw [← UInt32.toNat_inj] at wide
  simpa using wide

theorem foldl_crcByte_injective (bytes : List UInt8) :
    Function.Injective fun r => bytes.foldl crcByte r := by
  induction bytes with
  | nil => exact fun _ _ same => same
  | cons b bytes ih => exact ih.comp (crcByte_left_injective b)

/-- Altering one byte alters the check, whatever stands before that byte and behind it. -/
theorem crc32_append_cons_inj {before rest : List UInt8} {b b' : UInt8} :
    crc32 (before ++ b :: rest) = crc32 (before ++ b' :: rest) ↔ b = b' := by
  constructor
  · intro same
    unfold crc32 at same
    have same := (UInt32.xor_left_inj _).1 same
    simp only [List.foldl_append, List.foldl_cons] at same
    exact crcByte_right_injective _ (foldl_crcByte_injective rest same)
  · rintro rfl
    rfl

/-- A list of bytes of which one is replaced by another has another check. -/
theorem crc32_set_ne {bytes : List UInt8} {i : Nat} (inside : i < bytes.length) {b : UInt8}
    (other : b ≠ bytes[i]) : crc32 (bytes.set i b) ≠ crc32 bytes := by
  intro same
  have altered := List.set_eq_take_append_cons_drop (l := bytes) (i := i) (a := b)
  rw [if_pos inside] at altered
  have split : bytes = bytes.take i ++ bytes[i] :: bytes.drop (i + 1) := by
    rw [List.getElem_cons_drop, List.take_append_drop]
  rw [altered] at same
  conv at same => rhs; rw [split]
  exact other (crc32_append_cons_inj.1 same)

end ScriptHost.Checksum
