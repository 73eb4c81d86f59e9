import Mathlib.Data.Nat.Digits.Defs
import ScriptHost.Json.Number
import ScriptHost.Json.Reader
import ScriptHost.Json.Writer
/-!
Numbers and strings of JSON text. Reading one gives back what was written, and stops right behind it.
-/
namespace ScriptHost.Json.Reader

/-! ## Blanks -/

/-- A text at whose front no number goes on: it is at its end, or at the end of an item. -/
def Ends (cs : List Char) : Prop :=
  ∀ c, cs.head? = some c → c = ',' ∨ c = '\n'

theorem skipBlank_cons {c : Char} (solid : isBlank c = false) (cs : List Char) :
    skipBlank (c :: cs) = c :: cs := by
  unfold skipBlank
  rw [List.dropWhile_cons, solid, if_neg Bool.false_ne_true]

theorem skipBlank_newLine (level : Nat) (cs : List Char) :
    skipBlank (newLine level ++ cs) = skipBlank cs := by
  refine List.dropWhile_append_of_pos fun c member => ?_
  rcases List.mem_cons.1 member with rfl | blank
  · rfl
  · rw [(List.mem_replicate.1 blank).2]
    rfl

theorem ends_newLine (level : Nat) (cs : List Char) : Ends (newLine level ++ cs) := by
  intro c first
  cases first
  exact .inr rfl

theorem ends_comma (cs : List Char) : Ends (',' :: cs) := by
  intro c first
  cases first
  exact .inl rfl

theorem ends_nil : Ends [] :=
  fun _ first => nomatch first

/-! ## Numbers -/

theorem digits?_append {ds rest : List Char} (nonempty : ds ≠ []) (all : ∀ c ∈ ds, c.isDigit = true)
    (ends : Ends rest) : digits? (ds ++ rest) = some (ds, rest) := by
  have stops : rest.takeWhile Char.isDigit = [] ∧ rest.dropWhile Char.isDigit = rest := by
    cases rest with
    | nil => exact ⟨rfl, rfl⟩
    | cons c cs => rcases ends c rfl with rfl | rfl <;> exact ⟨rfl, rfl⟩
  unfold digits?
  rw [List.takeWhile_append_of_pos all, List.dropWhile_append_of_pos all, stops.1, stops.2,
    List.append_nil]
  cases ds with
  | nil => exact absurd rfl nonempty
  | cons d ds => rfl

/-- Only zero is written with a zero in front. -/
theorem head?_toDigits {n : Nat} (pos : 0 < n) : (Nat.toDigits 10 n).head? ≠ some '0' := by
  induction n using Nat.strong_induction_on with
  | h n ih =>
    by_cases small : n < 10
    · rw [Nat.toDigits_of_lt_base small]
      have digits : ∀ d < 10, 0 < d → [Nat.digitChar d].head? ≠ some '0' := by decide
      exact digits n small pos
    · have split := Nat.toDigits_of_base_le (b := 10) (by decide) (Nat.le_of_not_lt small)
      have front := ih (n / 10) (by omega) (by omega)
      rw [split]
      cases digits : Nat.toDigits 10 (n / 10) with
      | nil => exact absurd digits Nat.toDigits_ne_nil
      | cons d ds =>
        rw [digits] at front
        exact front

theorem isDigit_toDigits (n : Nat) : ∀ c ∈ Nat.toDigits 10 n, c.isDigit = true :=
  fun _ => Nat.isDigit_of_mem_toDigits (by decide) (by decide)

theorem wholeDigits?_toDigits (n : Nat) {rest : List Char} (ends : Ends rest) :
    wholeDigits? (Nat.toDigits 10 n ++ rest) = some (Nat.toDigits 10 n, rest) := by
  rcases Nat.eq_zero_or_pos n with rfl | pos
  · cases rest with
    | nil => rfl
    | cons c cs => rcases ends c rfl with rfl | rfl <;> rfl
  · have read := digits?_append Nat.toDigits_ne_nil (isDigit_toDigits n) ends
    have front := head?_toDigits pos
    cases digits : Nat.toDigits 10 n with
    | nil => exact absurd digits Nat.toDigits_ne_nil
    | cons d ds =>
      rw [digits] at read front
      rw [List.cons_append] at read ⊢
      unfold wholeDigits?
      split
      · rename_i same
        cases same
        exact absurd rfl front
      · exact read

theorem fraction?_ends {rest : List Char} (ends : Ends rest) :
    fraction? rest = some (none, rest) := by
  cases rest with
  | nil => rfl
  | cons c cs => rcases ends c rfl with rfl | rfl <;> rfl

theorem exponent?_ends {rest : List Char} (ends : Ends rest) :
    exponent? rest = some (none, rest) := by
  cases rest with
  | nil => rfl
  | cons c cs => rcases ends c rfl with rfl | rfl <;> rfl

/-- How an integer is written: a sign if it is negative, and its digits. -/
theorem chars_ofInt (i : Int) :
    (Literal.ofInt i).chars = (if i < 0 then ['-'] else []) ++ Nat.toDigits 10 i.natAbs := by
  unfold Literal.chars Literal.ofInt
  simp only [decide_eq_true_eq, List.append_nil]

/-- An integer starts with a minus or a digit. -/
theorem exists_head_ofInt (i : Int) :
    ∃ c cs, (Literal.ofInt i).chars = c :: cs ∧ ∀ d, d ≠ '-' → d.isDigit = false → c ≠ d := by
  rw [chars_ofInt]
  split
  · exact ⟨'-', _, rfl, fun _ other _ => other.symm⟩
  · cases digits : Nat.toDigits 10 i.natAbs with
    | nil => exact absurd digits Nat.toDigits_ne_nil
    | cons c cs =>
      refine ⟨c, cs, rfl, fun d _ notDigit same => ?_⟩
      have digit := isDigit_toDigits i.natAbs c (digits ▸ List.mem_cons_self)
      rw [same, notDigit] at digit
      cases digit

/-- The parts of a number that is written as an integer. -/
theorem parts?_toDigits (negative : Bool) (n : Nat) {rest : List Char} (ends : Ends rest) :
    (do
      let (whole, cs) ← wholeDigits? (Nat.toDigits 10 n ++ rest)
      let (fraction, cs) ← fraction? cs
      let (exponent, cs) ← exponent? cs
      pure ((⟨negative, whole, fraction, exponent⟩ : Literal), cs)) =
      some (⟨negative, Nat.toDigits 10 n, none, none⟩, rest) := by
  rw [wholeDigits?_toDigits n ends, Option.bind_eq_bind, Option.bind_some]
  dsimp only
  rw [fraction?_ends ends, Option.bind_eq_bind, Option.bind_some]
  dsimp only
  rw [exponent?_ends ends]
  rfl

theorem literal?_ofInt (i : Int) {rest : List Char} (ends : Ends rest) :
    literal? ((Literal.ofInt i).chars ++ rest) = some (.ofInt i, rest) := by
  have finish : ∀ negative : Bool, negative = decide (i < 0) →
      some ((⟨negative, Nat.toDigits 10 i.natAbs, none, none⟩ : Literal), rest) =
        some (.ofInt i, rest) := by
    rintro _ rfl
    rfl
  rw [chars_ofInt, List.append_assoc]
  unfold literal?
  by_cases negative : i < 0
  · rw [if_pos negative]
    exact (parts?_toDigits true i.natAbs ends).trans (finish true (decide_eq_true negative).symm)
  · rw [if_neg negative, List.nil_append]
    split
    rename_i sign cs same
    split at same
    · rename_i minus
      have digit := isDigit_toDigits i.natAbs '-'
      cases digits : Nat.toDigits 10 i.natAbs with
      | nil => exact absurd digits Nat.toDigits_ne_nil
      | cons d ds =>
        rw [digits] at minus digit
        cases minus
        exact absurd (digit List.mem_cons_self) (by decide)
    · cases same
      exact (parts?_toDigits false i.natAbs ends).trans
        (finish false (decide_eq_false negative).symm)

/-- The digits of a number denote it. -/
theorem foldl_toDigits (n : Nat) :
    (Nat.toDigits 10 n).foldl (fun m c => m * 10 + digitValue c) 0 = n := by
  have read := Nat.ofDigitChars_ten_toDigits (n := n)
  rw [Nat.ofDigitChars_eq_foldl] at read
  simp only [Nat.mul_comm 10] at read
  exact read

theorem int?_ofInt (i : Int) : (Literal.ofInt i).int? = some i := by
  have plain : ¬ ((Literal.ofInt i).fraction.isSome ∨ (Literal.ofInt i).exponent.isSome) := by
    rintro (some | some) <;> cases some
  unfold Literal.int?
  rw [if_neg plain]
  unfold Literal.ofInt
  dsimp only
  rw [foldl_toDigits]
  by_cases negative : i < 0
  · rw [decide_eq_true negative, if_pos rfl, if_neg (Int.natAbs_ne_zero.2 (by omega))]
    exact congrArg some (by omega)
  · rw [decide_eq_false negative, if_neg Bool.false_ne_true]
    exact congrArg some (by omega)

/-! ## Strings -/

/-- Control characters are written as hexadecimal escapes of four digits. -/
theorem hexPadded_control : ∀ n < 32, (Text.hexPadded 4 n).toList =
    ['0', '0', Nat.digitChar (n / 16), Nat.digitChar (n % 16)] ∧
      Text.ofHex? ['0', '0', Nat.digitChar (n / 16), Nat.digitChar (n % 16)] = some n := by
  decide

theorem units?_hex {a b c d : Char} {unit : Nat} (read : Text.ofHex? [a, b, c, d] = some unit)
    (rest : List Char) :
    units? ('\\' :: 'u' :: a :: b :: c :: d :: rest) =
      (units? rest).map fun (units, rest) => (unit :: units, rest) := by
  rw [units?, read]
  cases units? rest <;> rfl

theorem units?_short {c escaped : Char} (short : shortEscape? c = some escaped) (rest : List Char) :
    units? ('\\' :: c :: rest) =
      (units? rest).map fun (units, rest) => (escaped.toNat :: units, rest) := by
  rw [units?, short]
  · cases units? rest <;> rfl
  · rintro a b c d more rfl
    cases short

theorem units?_plain {c : Char} (notQuote : c ≠ '"') (notBackslash : c ≠ '\\') (printable : ¬ c < ' ')
    (rest : List Char) :
    units? (c :: rest) = (units? rest).map fun (units, rest) => (c.toNat :: units, rest) := by
  have apart : ¬ (c < ' ' ∨ c = '\\') := fun either => either.elim printable notBackslash
  rw [units?, if_neg apart]
  · cases units? rest <;> rfl
  · exact fun same => absurd same notQuote
  · exact fun _ _ _ _ _ same => absurd same notBackslash
  · exact fun _ _ same => absurd same notBackslash

/-- A character is read as it is written. -/
theorem units?_escapedChar (c : Char) (rest : List Char) :
    units? (escapedChar c ++ rest) =
      (units? rest).map fun (units, rest) => (c.toNat :: units, rest) := by
  unfold escapedChar
  split
  case h_8 _ notQuote notBackslash _ _ _ _ _ =>
    split
    · rename_i control
      obtain ⟨written, read⟩ := hexPadded_control c.toNat control
      rw [written]
      exact units?_hex read rest
    · rename_i printable
      exact units?_plain notQuote notBackslash printable rest
  all_goals exact units?_short rfl rest

/-- The inside of a string is read up to its closing quote. -/
theorem units?_flatMap (cs rest : List Char) :
    units? (cs.flatMap escapedChar ++ '"' :: rest) = some (cs.map Char.toNat, rest) := by
  induction cs with
  | nil => rw [List.flatMap_nil, List.nil_append, units?]; rfl
  | cons c cs ih =>
    rw [List.flatMap_cons, List.append_assoc, units?_escapedChar, ih]
    rfl

/-- Characters are no halves of surrogate pairs. -/
theorem joinUnits?_map (cs : List Char) : joinUnits? (cs.map Char.toNat) = some cs := by
  have whole : ∀ c : Char, ¬ (0xD800 ≤ c.toNat ∧ c.toNat < 0xE000) := by
    intro c half
    have valid : c.toNat < 0xD800 ∨ 0xDFFF < c.toNat ∧ c.toNat < 0x110000 := c.valid
    omega
  induction cs with
  | nil => rfl
  | cons c cs ih =>
    cases cs with
    | nil =>
      rw [List.map_cons, List.map_nil, joinUnits?, if_neg (whole c), Char.ofNat_toNat]
    | cons next more =>
      have notFirst : ¬ (0xD800 ≤ c.toNat ∧ c.toNat < 0xDC00) := by
        have := whole c
        omega
      have notSecond : ¬ (0xDC00 ≤ c.toNat ∧ c.toNat < 0xE000) := by
        have := whole c
        omega
      rw [List.map_cons, List.map_cons, joinUnits?, if_neg notFirst, if_neg notSecond,
        ← List.map_cons, ih, Option.map_some, Char.ofNat_toNat]

/-- A string is read as it is written. -/
theorem text?_quoted (s : String) (rest : List Char) :
    text? (s.toList.flatMap escapedChar ++ '"' :: rest) = some (some s, rest) := by
  unfold text?
  rw [units?_flatMap, Option.map_some]
  dsimp only
  rw [joinUnits?_map, Option.map_some, String.ofList_toList]

end ScriptHost.Json.Reader
