import Mathlib.Tactic.Ring
import Mathlib.Tactic.SplitIfs
import ScriptHost.Text.Utf8
/-!
What byte strings look like as text. Text is shown as it is. A run of bytes that is not text becomes
a replacement character, which is no shorter than the run, so that no byte string gets shorter, and
just those that are text stay the same.
-/
namespace ScriptHost.Text

variable {a b : ByteArray} {bits following taken n : Nat} {low high byte : UInt8}
  {rest : List UInt8} {c : Char} {c? : Option Char} {lead : Lead}

/-! ## Characters -/

/-- The least number of a character that takes some bytes after its first. -/
def leastAfter : Nat → Nat
  | 0 => 0
  | 1 => 0x80
  | 2 => 0x800
  | _ => 0x10000

/-- A number that is large enough takes as many bytes. -/
theorem following_lt_utf8Size (valid : n.isValidChar) (least : leastAfter following ≤ n)
    (few : following ≤ 3) : following < (Char.ofNat n).utf8Size := by
  have value : (Char.ofNat n).val.toNat = n := by
    unfold Char.ofNat
    rw [dif_pos valid]
    rfl
  have size : (Char.ofNat n).utf8Size =
      if n ≤ 0x7F then 1 else if n ≤ 0x7FF then 2 else if n ≤ 0xFFFF then 3 else 4 := by
    unfold Char.utf8Size
    simp only [UInt32.le_iff_toNat_le, value]
    rfl
  rw [size]
  match following, few with
  | 0, _ | 1, _ | 2, _ | 3, _ =>
    simp only [leastAfter] at least
    split_ifs <;> omega

theorem toNat_digit (byte : UInt8) : (byte &&& 0x3F).toNat = byte.toNat % 64 := by
  rw [UInt8.toNat_and]
  exact Nat.and_two_pow_sub_one_eq_mod _ 6

/-- Bytes that do not finish a character are fewer than it asks for. -/
theorem taken_lt_of_none (read : continuation bits following low high rest = (none, taken)) :
    taken < following := by
  induction following generalizing bits low high rest taken with
  | zero => cases read
  | succ following ih =>
    cases rest with
    | nil =>
      cases read
      exact Nat.succ_pos _
    | cons byte rest =>
      unfold continuation at read
      split at read
      · obtain ⟨noChar, rfl⟩ := Prod.mk.inj read
        exact Nat.succ_lt_succ (ih (Prod.ext noChar rfl))
      · cases read
        exact Nat.succ_pos _

/-- A continuation byte adds six bits, and all that may follow it is continuation bytes. -/
theorem exists_first (read : continuation bits (following + 1) low high rest = (some c, taken)) :
    ∃ byte rest' taken', low ≤ byte ∧ byte ≤ high ∧ taken = taken' + 1 ∧
      continuation (bits * 64 + byte.toNat % 64) following 0x80 0xBF rest' = (some c, taken') := by
  cases rest with
  | nil => cases read
  | cons byte rest =>
    unfold continuation at read
    split at read
    · rename_i inRange
      obtain ⟨char, rfl⟩ := Prod.mk.inj read
      rw [toNat_digit] at char
      exact ⟨byte, rest, _, inRange.1, inRange.2, rfl, Prod.ext char (by rw [toNat_digit])⟩
    · cases read

/-- The bits of a character are those of its bytes, one after the other. -/
theorem exists_of_continuation
    (read : continuation bits following 0x80 0xBF rest = (some c, taken)) :
    taken = following ∧
      ∃ n, c = Char.ofNat n ∧ bits * 64 ^ following ≤ n ∧ n < (bits + 1) * 64 ^ following := by
  induction following generalizing bits rest taken with
  | zero =>
    cases read
    exact ⟨rfl, bits, rfl, by omega, by omega⟩
  | succ following ih =>
    obtain ⟨byte, rest', taken', -, -, rfl, read'⟩ := exists_first read
    obtain ⟨rfl, n, same, ge, lt⟩ := ih read'
    refine ⟨rfl, n, same, ?_, ?_⟩
    · calc bits * 64 ^ (taken' + 1) = bits * 64 * 64 ^ taken' := by ring
        _ ≤ (bits * 64 + byte.toNat % 64) * 64 ^ taken' :=
          Nat.mul_le_mul_right _ (Nat.le_add_right _ _)
        _ ≤ n := ge
    · calc n < (bits * 64 + byte.toNat % 64 + 1) * 64 ^ taken' := lt
        _ ≤ (bits + 1) * 64 * 64 ^ taken' := Nat.mul_le_mul_right _ (by omega)
        _ = (bits + 1) * 64 ^ (taken' + 1) := by ring

/-- A first byte asks for continuation bytes, and for just those that make a character of its
length. -/
structure Lead.Sound (lead : Lead) (following : Nat) : Prop where
  follow : lead.following = following + 1
  few : following < 3
  low : 0x80 ≤ lead.low.toNat
  high : lead.high.toNat ≤ 0xBF
  least : leastAfter (following + 1) ≤ (lead.bits * 64 + lead.low.toNat % 64) * 64 ^ following
  valid : ∀ n, (lead.bits * 64 + lead.low.toNat % 64) * 64 ^ following ≤ n →
    n < (lead.bits * 64 + lead.high.toNat % 64 + 1) * 64 ^ following → n.isValidChar

/-- Where all continuation bytes may follow, the bits of the first byte decide. -/
theorem Lead.Sound.of_bits (few : following < 3)
    (least : leastAfter (following + 1) ≤ bits * 64 ^ (following + 1))
    (valid : ∀ n, n < (bits + 1) * 64 ^ (following + 1) → bits * 64 ^ (following + 1) ≤ n →
      n.isValidChar) : Lead.Sound ⟨bits, following + 1, 0x80, 0xBF⟩ following := by
  have none : (0x80 : UInt8).toNat % 64 = 0 := rfl
  have all : (0xBF : UInt8).toNat % 64 = 63 := rfl
  have first : (bits * 64 + 0) * 64 ^ following = bits * 64 ^ (following + 1) := by ring
  have last : (bits * 64 + 63 + 1) * 64 ^ following = (bits + 1) * 64 ^ (following + 1) := by ring
  refine ⟨rfl, few, le_rfl, le_rfl, ?_, fun n ge lt => ?_⟩
  · dsimp only
    rw [none, first]
    exact least
  · dsimp only at ge lt
    rw [none, first] at ge
    rw [all, last] at lt
    exact valid n lt ge

theorem toNat_bits (byte : UInt8) : (byte &&& 0x1F).toNat = byte.toNat % 32 ∧
    (byte &&& 0x0F).toNat = byte.toNat % 16 ∧ (byte &&& 0x07).toNat = byte.toNat % 8 := by
  simp only [UInt8.toNat_and]
  exact ⟨Nat.and_two_pow_sub_one_eq_mod _ 5, Nat.and_two_pow_sub_one_eq_mod _ 4,
    Nat.and_two_pow_sub_one_eq_mod _ 3⟩

theorem Lead.sound (read : Lead.ofByte? byte = some lead) :
    lead.following = 0 ∨ ∃ following, lead.Sound following := by
  obtain ⟨five, four, three⟩ := toNat_bits byte
  unfold Lead.ofByte? at read
  simp only [UInt8.lt_iff_toNat_lt, ← UInt8.toNat_inj] at read
  change (if byte.toNat < 0x80 then _ else if byte.toNat < 0xC2 then _ else
    if byte.toNat < 0xE0 then _ else if byte.toNat = 0xE0 then _ else
    if byte.toNat = 0xED then _ else if byte.toNat < 0xF0 then _ else
    if byte.toNat = 0xF0 then _ else if byte.toNat < 0xF4 then _ else
    if byte.toNat = 0xF4 then _ else _) = _ at read
  by_cases isAscii : byte.toNat < 0x80
  · rw [if_pos isAscii] at read
    cases read
    exact .inl rfl
  rw [if_neg isAscii] at read
  refine .inr ?_
  by_cases tooLow : byte.toNat < 0xC2
  · rw [if_pos tooLow] at read
    cases read
  rw [if_neg tooLow] at read
  by_cases isTwo : byte.toNat < 0xE0
  · rw [if_pos isTwo] at read
    cases read
    exact ⟨0, .of_bits (by decide) (by change 0x80 ≤ _ * 64; omega) fun n lt _ => .inl (by omega)⟩
  rw [if_neg isTwo] at read
  by_cases firstThree : byte.toNat = 0xE0
  · rw [if_pos firstThree] at read
    cases read
    refine ⟨1, rfl, by decide, by decide, by decide, by decide, fun n _ lt => ?_⟩
    change n < 0x1000 at lt
    exact .inl (by omega)
  rw [if_neg firstThree] at read
  by_cases beforeSurrogates : byte.toNat = 0xED
  · rw [if_pos beforeSurrogates] at read
    cases read
    refine ⟨1, rfl, by decide, by decide, by decide, by decide, fun n _ lt => ?_⟩
    change n < 0xD800 at lt
    exact .inl lt
  rw [if_neg beforeSurrogates] at read
  by_cases isThree : byte.toNat < 0xF0
  · rw [if_pos isThree] at read
    cases read
    refine ⟨1, .of_bits (by decide) (by change 0x800 ≤ _ * 4096; omega) fun n lt ge => ?_⟩
    change n < (_ + 1) * 4096 at lt
    change _ * 4096 ≤ n at ge
    unfold Nat.isValidChar
    omega
  rw [if_neg isThree] at read
  by_cases firstFour : byte.toNat = 0xF0
  · rw [if_pos firstFour] at read
    cases read
    refine ⟨2, rfl, by decide, by decide, by decide, by decide, fun n ge lt => ?_⟩
    change 0x10000 ≤ n at ge
    change n < 0x40000 at lt
    exact .inr (by omega)
  rw [if_neg firstFour] at read
  by_cases isFour : byte.toNat < 0xF4
  · rw [if_pos isFour] at read
    cases read
    refine ⟨2, .of_bits (by decide) (by change 0x10000 ≤ _ * 262144; omega) fun n lt ge => ?_⟩
    change n < (_ + 1) * 262144 at lt
    change _ * 262144 ≤ n at ge
    exact .inr (by omega)
  rw [if_neg isFour] at read
  by_cases lastFour : byte.toNat = 0xF4
  · rw [if_pos lastFour] at read
    cases read
    refine ⟨2, rfl, by decide, by decide, by decide, by decide, fun n ge lt => ?_⟩
    change 0x100000 ≤ n at ge
    change n < 0x110000 at lt
    exact .inr (by omega)
  rw [if_neg lastFour] at read
  cases read

/-- The characters that a first byte can begin take all their bytes. -/
theorem Lead.Sound.taken_lt_utf8Size (sound : lead.Sound following)
    (read : continuation lead.bits (following + 1) lead.low lead.high rest = (some c, taken)) :
    taken < c.utf8Size := by
  obtain ⟨byte, rest', taken', ge, le, rfl, read'⟩ := exists_first read
  obtain ⟨rfl, n, rfl, atLeast, lt⟩ := exists_of_continuation read'
  rw [UInt8.le_iff_toNat_le] at ge le
  have low := sound.low
  have high := sound.high
  -- A byte in the range has its six bits in the range of theirs.
  have least : (lead.bits * 64 + lead.low.toNat % 64) * 64 ^ taken' ≤ n :=
    (Nat.mul_le_mul_right _ (by omega)).trans atLeast
  have below : n < (lead.bits * 64 + lead.high.toNat % 64 + 1) * 64 ^ taken' :=
    lt.trans_le (Nat.mul_le_mul_right _ (by omega))
  exact following_lt_utf8Size (sound.valid n least below) (sound.least.trans least) sound.few

/-- What is shown for some bytes takes at least as many. -/
theorem taken_lt_utf8Size (read : character byte rest = (c?, taken)) :
    taken < (c?.getD replacement).utf8Size := by
  unfold character at read
  cases led : Lead.ofByte? byte with
  | none =>
    rw [led] at read
    cases read
    decide
  | some lead =>
    rw [led] at read
    dsimp only at read
    rcases Lead.sound led with alone | ⟨following, sound⟩
    · rw [alone] at read
      cases read
      exact Char.utf8Size_pos _
    · rw [sound.follow] at read
      cases c? with
      | none =>
        have fewer := taken_lt_of_none read
        have few := sound.few
        change taken < 3
        omega
      | some c => exact sound.taken_lt_utf8Size read

/-! ## Texts -/

theorem toList_loop (bytes : ByteArray) (i : Nat) (before : List UInt8) :
    ByteArray.toList.loop bytes i before = before.reverse ++ bytes.data.toList.drop i := by
  fun_induction ByteArray.toList.loop bytes i before with
  | case1 i before inBounds ih =>
    have inBounds' : i < bytes.data.toList.length := inBounds
    have here : bytes.get! i = bytes.data.toList[i] := by
      rw [Array.getElem_toList]
      exact getElem!_pos bytes.data i inBounds
    rw [ih, List.drop_eq_getElem_cons inBounds', here, List.reverse_cons, List.append_assoc]
    rfl
  | case2 i before outside =>
    have outside' : bytes.data.toList.length ≤ i := Nat.le_of_not_lt outside
    rw [List.drop_eq_nil_of_le outside', List.append_nil]

theorem toList_eq (bytes : ByteArray) : bytes.toList = bytes.data.toList :=
  toList_loop bytes 0 []

theorem size_utf8Encode_cons (c : Char) (cs : List Char) :
    (c :: cs).utf8Encode.size = c.utf8Size + cs.utf8Encode.size := by
  rw [List.utf8Encode_cons, ByteArray.size_append, List.utf8Encode_singleton,
    List.size_toByteArray, String.length_utf8EncodeChar]

/-- What is shown for bytes is no shorter. -/
theorem length_le_size_shownChars (bytes : List UInt8) :
    bytes.length ≤ (shownChars bytes).utf8Encode.size := by
  induction bytes using shownChars.induct with
  | case1 => exact Nat.zero_le _
  | case2 byte rest c taken read ih =>
    have covers := taken_lt_utf8Size read
    rw [shownChars, read, size_utf8Encode_cons]
    rw [List.length_drop] at ih
    rw [List.length_cons]
    omega

/-- A text is read back as it was written. -/
theorem shown_toUTF8 (text : String) : shown text.toUTF8 = text := by
  unfold shown String.fromUTF8?
  rw [dif_pos]
  rfl

/-- The bytes of what is shown for a byte string. -/
def shownBytes (a : ByteArray) : ByteArray := (shown a).toUTF8

theorem shownBytes_of_valid (valid : a.IsValidUTF8) : shownBytes a = a := by
  unfold shownBytes shown String.fromUTF8?
  rw [dif_pos valid]
  rfl

theorem size_le_shownBytes (a : ByteArray) : a.size ≤ (shownBytes a).size := by
  by_cases valid : a.IsValidUTF8
  · rw [shownBytes_of_valid valid]
  · unfold shownBytes shown String.fromUTF8?
    rw [dif_neg valid, String.toUTF8_eq_toByteArray, String.toByteArray_ofList]
    refine Nat.le_trans (Nat.le_of_eq ?_) (length_le_size_shownChars a.toList)
    rw [toList_eq]
    rfl

/-- Just the byte strings that are text are shown as they are. -/
theorem shownBytes_eq_iff : shownBytes a = a ↔ a.IsValidUTF8 :=
  ⟨fun same => same ▸ (shown a).isValidUTF8, shownBytes_of_valid⟩

/-- What is shown for two byte strings is their concatenation just if both are text. -/
theorem shownBytes_append_eq_iff :
    shownBytes a ++ shownBytes b = a ++ b ↔ a.IsValidUTF8 ∧ b.IsValidUTF8 := by
  constructor
  · intro same
    have sizes := congrArg ByteArray.size same
    rw [ByteArray.size_append, ByteArray.size_append] at sizes
    have first := size_le_shownBytes a
    have second := size_le_shownBytes b
    have same' : shownBytes a = a := ByteArray.append_inj_left same (by omega)
    rw [same', ByteArray.append_right_inj] at same
    exact ⟨shownBytes_eq_iff.1 same', shownBytes_eq_iff.1 same⟩
  · rintro ⟨valid, valid'⟩
    rw [shownBytes_of_valid valid, shownBytes_of_valid valid']

/-- What is shown is text, and so is the concatenation. -/
theorem shownBytes_append (a b : ByteArray) :
    shownBytes (shownBytes a ++ shownBytes b) = shownBytes a ++ shownBytes b :=
  shownBytes_of_valid ((shown a).isValidUTF8.append (shown b).isValidUTF8)

end ScriptHost.Text
