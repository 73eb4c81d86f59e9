import ScriptHost.Engine.Convert
import ScriptHost.Proofs.Host.Instructions
import ScriptHost.Proofs.Text.Shown
/-!
Sums of byte strings. Each of the two is taken as text first, so that the sum is the concatenation
of what is shown for them. Byte strings that are text are joined as they are; a run of bytes that is
not text is lost, and so is a character that is split between the two.
-/
namespace ScriptHost

open Host (Value World Yields)
open Text (shownBytes)

variable {a b : ByteArray}

/-- The sum of two byte strings is the concatenation of what is shown for them. -/
theorem yields_add_str (a b : ByteArray) :
    Yields (.arith .add) (.str a) (.str b) (.str (shownBytes a ++ shownBytes b)) := by
  have sum : Host.ArithOp.add.apply (.str a) (.str b) =
      .ok (.text (Text.shown a ++ Text.shown b)) := rfl
  have bytes : (Text.shown a ++ Text.shown b).toUTF8 = shownBytes a ++ shownBytes b :=
    String.toByteArray_append
  rw [Value.text, bytes] at sum
  exact Host.yields_arith sum

theorem yields_add_str_iff {joined : ByteArray} :
    Yields (.arith .add) (.str a) (.str b) (.str joined) ↔ shownBytes a ++ shownBytes b = joined :=
  ⟨fun yields => Value.str.inj ((yields_add_str a b).unique yields),
    fun same => same ▸ yields_add_str a b⟩

/-- Three byte strings have one sum, whichever two are added first. -/
theorem yields_add_assoc (a b c : ByteArray) : ∃ ab bc abc : ByteArray,
    Yields (.arith .add) (.str a) (.str b) (.str ab) ∧
    Yields (.arith .add) (.str b) (.str c) (.str bc) ∧
    Yields (.arith .add) (.str ab) (.str c) (.str abc) ∧
    Yields (.arith .add) (.str a) (.str bc) (.str abc) := by
  refine ⟨_, _, shownBytes a ++ shownBytes b ++ shownBytes c, yields_add_str a b,
    yields_add_str b c, yields_add_str_iff.2 ?_, yields_add_str_iff.2 ?_⟩
  · rw [Text.shownBytes_append]
  · rw [Text.shownBytes_append, ByteArray.append_assoc]

/-- Script hands two byte strings to the host, which adds them and hands back their sum. -/
def Rejoins (a b joined : ByteArray) : Prop :=
  ∀ w : World Engine,
    Run.toHost (.string a) .string w = (.ok (.str a), w) ∧
    Run.toHost (.string b) .string w = (.ok (.str b), w) ∧
    Yields (.arith .add) (.str a) (.str b) (.str joined) ∧
    Run.toScript (.str joined) w = (.ok (.string joined), w)

theorem rejoins_iff {joined : ByteArray} :
    Rejoins a b joined ↔ shownBytes a ++ shownBytes b = joined := by
  refine ⟨fun rejoins => ?_, fun same w => ⟨rfl, rfl, yields_add_str_iff.2 same, rfl⟩⟩
  exact yields_add_str_iff.1 (rejoins ⟨{}, #[], [], .ofOptions {}⟩).2.2.1

theorem extract_append_extract (s : ByteArray) (k : Nat) :
    s.extract 0 k ++ s.extract k s.size = s := by
  rw [ByteArray.extract_append_extract, Nat.zero_min, ByteArray.ext_iff, ByteArray.data_extract]
  exact Array.extract_eq_self_of_le (Nat.le_max_right ..)

/-- Byte strings are added to what is shown for them, one after the other. That is their
concatenation just if both are text, as for a byte string that is cut and put together again; it is
never shorter, and it does not matter which of three are added first. -/
theorem adds_shown (a b : ByteArray) :
    Yields (.arith .add) (.str a) (.str b) (.str (shownBytes a ++ shownBytes b)) ∧
    (Yields (.arith .add) (.str a) (.str b) (.str (a ++ b)) ↔ a.IsValidUTF8 ∧ b.IsValidUTF8) ∧
    a.size + b.size ≤ (shownBytes a ++ shownBytes b).size ∧
    (∀ c, ∃ ab bc abc : ByteArray,
      Yields (.arith .add) (.str a) (.str b) (.str ab) ∧
      Yields (.arith .add) (.str b) (.str c) (.str bc) ∧
      Yields (.arith .add) (.str ab) (.str c) (.str abc) ∧
      Yields (.arith .add) (.str a) (.str bc) (.str abc)) ∧
    ∀ (s : ByteArray) (k : Nat), Rejoins (s.extract 0 k) (s.extract k s.size) s ↔
      (s.extract 0 k).IsValidUTF8 ∧ (s.extract k s.size).IsValidUTF8 := by
  refine ⟨yields_add_str a b, yields_add_str_iff.trans Text.shownBytes_append_eq_iff, ?_,
    yields_add_assoc a b, fun s k => ?_⟩
  · rw [ByteArray.size_append]
    exact Nat.add_le_add (Text.size_le_shownBytes a) (Text.size_le_shownBytes b)
  · rw [← Text.shownBytes_append_eq_iff, extract_append_extract]
    exact rejoins_iff

/-- The two bytes of a character are not joined to it. -/
theorem split_character : ¬ ∀ a b : ByteArray,
    Yields (.arith .add) (.str a) (.str b) (.str (a ++ b)) := by
  intro joins
  have joined := yields_add_str_iff.1 (joins ⟨#[0xC3]⟩ ⟨#[0xA9]⟩)
  exact absurd (Text.shownBytes_append_eq_iff.1 joined).1 (by decide)

end ScriptHost
