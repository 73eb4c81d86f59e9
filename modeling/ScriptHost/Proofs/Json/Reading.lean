import Mathlib.Data.List.DropRight
import ScriptHost.Proofs.Json.Lexemes
/-!
JSON text with one item a line is read as the value that was written.
-/
namespace ScriptHost.Json

/-- Values all of whose numbers are integers, and all of whose strings are text. -/
inductive Plain : Json → Prop
  | null : Plain .null
  | bool (b : Bool) : Plain (.bool b)
  | int (i : Int) : Plain (.int i)
  | str (s : String) : Plain (.str s)
  | list {items : List Json} (each : ∀ item ∈ items, Plain item) : Plain (.list items)
  | record {members : List (String × Json)} (each : ∀ member ∈ members, Plain member.2) :
      Plain (.record members)

/-! ## Lines -/

/-- Items on lines of their own, separated by commas. -/
def lines (level : Nat) (items : List (List Char)) : List Char :=
  (List.intersperse [','] (items.map (newLine (level + 1) ++ ·))).flatten

theorem lines_singleton (level : Nat) (item : List Char) :
    lines level [item] = newLine (level + 1) ++ item := by
  unfold lines
  simp

theorem lines_cons_cons (level : Nat) (item next : List Char) (rest : List (List Char)) :
    lines level (item :: next :: rest) =
      newLine (level + 1) ++ (item ++ ',' :: lines level (next :: rest)) := by
  unfold lines
  simp

/-- Some line is the first one. -/
theorem exists_lines_cons (level : Nat) (item : List Char) (rest : List (List Char)) :
    ∃ more, lines level (item :: rest) = newLine (level + 1) ++ (item ++ more) := by
  cases rest with
  | nil => exact ⟨[], by rw [lines_singleton, List.append_nil]⟩
  | cons next rest => exact ⟨_, lines_cons_cons level item next rest⟩

theorem bracketed_cons (left right : Char) (level : Nat) (item : List Char)
    (rest : List (List Char)) :
    bracketed left right level (item :: rest) =
      left :: lines level (item :: rest) ++ newLine level ++ [right] := rfl

theorem prettyItems_eq_map (level : Nat) (items : List Json) :
    prettyItems level items = items.map (prettyChars (level + 1)) := by
  induction items with
  | nil => rfl
  | cons item rest ih =>
    rw [prettyItems, ih]
    rfl

/-- A member of an object, `level` levels deep. -/
def memberChars (level : Nat) (member : String × Json) : List Char :=
  quotedChars member.1 ++ ':' :: ' ' :: prettyChars level member.2

theorem length_memberChars (level : Nat) (member : String × Json) :
    (prettyChars level member.2).length < (memberChars level member).length := by
  unfold memberChars
  rw [List.length_append, List.length_cons, List.length_cons]
  omega

theorem prettyMembers_eq_map (level : Nat) (members : List (String × Json)) :
    prettyMembers level (members.map fun (k, v) => (some k, v)) =
      members.map (memberChars (level + 1)) := by
  induction members with
  | nil => rfl
  | cons member rest ih =>
    rw [List.map_cons, prettyMembers, ih]
    rfl

namespace Reader

variable {fuel : Nat} {cs rest : List Char}

/-! ## Reading past blanks -/

theorem skipBlank_skipBlank (cs : List Char) : skipBlank (skipBlank cs) = skipBlank cs :=
  List.dropWhile_idempotent isBlank cs

theorem value?_skipBlank (fuel : Nat) (cs : List Char) :
    value? fuel (skipBlank cs) = value? fuel cs := by
  cases fuel with
  | zero => rfl
  | succ fuel => rw [value?, value?, skipBlank_skipBlank]

theorem items?_skipBlank (fuel : Nat) (cs : List Char) :
    items? fuel (skipBlank cs) = items? fuel cs := by
  cases fuel with
  | zero => rfl
  | succ fuel => rw [items?, items?, value?_skipBlank]

theorem members?_skipBlank (fuel : Nat) (cs : List Char) :
    members? fuel (skipBlank cs) = members? fuel cs := by
  cases fuel with
  | zero => rfl
  | succ fuel => rw [members?, members?, skipBlank_skipBlank]

theorem value?_newLine (fuel level : Nat) (cs : List Char) :
    value? fuel (newLine level ++ cs) = value? fuel cs := by
  rw [← value?_skipBlank, skipBlank_newLine, value?_skipBlank]

theorem value?_bracket (fuel : Nat) (cs : List Char) :
    value? (fuel + 1) ('[' :: cs) =
      (match skipBlank cs with
      | ']' :: rest => some (.list [], rest)
      | rest => do
        let (items, rest) ← items? fuel rest
        pure (.list items, rest)) := rfl

theorem value?_brace (fuel : Nat) (cs : List Char) :
    value? (fuel + 1) ('\x7b' :: cs) =
      (match skipBlank cs with
      | '\x7d' :: rest => some (.object [], rest)
      | rest => do
        let (members, rest) ← members? fuel rest
        pure (.object members, rest)) := rfl

theorem value?_quote (fuel : Nat) (cs : List Char) :
    value? (fuel + 1) ('"' :: cs) = (text? cs).map fun (s, rest) => (.text s, rest) := rfl

theorem members?_quote (fuel : Nat) (cs : List Char) :
    members? (fuel + 1) ('"' :: cs) =
      (do
        let (key, rest) ← text? cs
        match skipBlank rest with
        | ':' :: rest =>
          let (value, rest) ← value? fuel rest
          match skipBlank rest with
          | '\x7d' :: rest => pure ([(key, value)], rest)
          | ',' :: rest =>
            let (members, rest) ← members? fuel rest
            pure ((key, value) :: members, rest)
          | _ => none
        | _ => none) := rfl

theorem value?_list (inside : ∀ tail, skipBlank cs ≠ ']' :: tail) :
    value? (fuel + 1) ('[' :: cs) =
      (items? fuel cs).map fun (items, rest) => (.list items, rest) := by
  rw [value?_bracket]
  split
  · rename_i same
    exact absurd same (inside _)
  · rw [items?_skipBlank]
    cases items? fuel cs <;> rfl

theorem value?_object (inside : ∀ tail, skipBlank cs ≠ '\x7d' :: tail) :
    value? (fuel + 1) ('\x7b' :: cs) =
      (members? fuel cs).map fun (members, rest) => (.object members, rest) := by
  rw [value?_brace]
  split
  · rename_i same
    exact absurd same (inside _)
  · rw [members?_skipBlank]
    cases members? fuel cs <;> rfl

theorem value?_string (s : String) (fuel : Nat) (rest : List Char) :
    value? (fuel + 1) (quotedChars s ++ rest) = some (.str s, rest) := by
  unfold quotedChars
  rw [List.cons_append, List.cons_append, value?_quote, List.append_assoc, List.singleton_append,
    text?_quoted]
  rfl

theorem value?_int (i : Int) (fuel : Nat) (ends : Ends rest) :
    value? (fuel + 1) ((Literal.ofInt i).chars ++ rest) = some (.int i, rest) := by
  have read := literal?_ofInt i ends
  obtain ⟨c, cs, chars, other⟩ := exists_head_ofInt i
  have solid : isBlank c = false := by
    simp [isBlank, other]
  rw [chars, List.cons_append] at read ⊢
  rw [value?, skipBlank_cons solid]
  split
  case h_7 =>
    rw [read]
    rfl
  all_goals
    rename_i same
    exact absurd (List.cons.inj same).1 (other _ (by decide) (by decide))

/-! ## Reading values -/

/-- A value is read where it is written, however deep. -/
def Reads (j : Json) : Prop :=
  ∀ level fuel rest, (prettyChars level j).length < fuel → Ends rest →
    value? fuel (prettyChars level j ++ rest) = some (j, rest)

/-- What stands at the front of a value. -/
theorem exists_head_pretty {j : Json} (plain : Plain j) (level : Nat) :
    ∃ c cs, prettyChars level j = c :: cs ∧ isBlank c = false ∧ c ≠ ']' := by
  cases plain with
  | null => exact ⟨'n', _, rfl, by decide, by decide⟩
  | bool b => cases b <;> exact ⟨_, _, rfl, by decide, by decide⟩
  | int i =>
    obtain ⟨c, cs, chars, other⟩ := exists_head_ofInt i
    exact ⟨c, cs, chars, by simp [isBlank, other], other _ (by decide) (by decide)⟩
  | str s => exact ⟨'"', _, rfl, by decide, by decide⟩
  | @list items each =>
    cases items with
    | nil => exact ⟨'[', _, rfl, by decide, by decide⟩
    | cons item rest => exact ⟨'[', _, rfl, by decide, by decide⟩
  | @record members each =>
    cases members with
    | nil => exact ⟨'\x7b', _, rfl, by decide, by decide⟩
    | cons member rest => exact ⟨'\x7b', _, rfl, by decide, by decide⟩

/-- What follows an item of a list, or a member of an object: the next one, or the closing bracket on
a line of its own. -/
theorem items?_lines {items : List Json} (each : ∀ item ∈ items, Reads item) (nonempty : items ≠ [])
    (level fuel : Nat) (rest : List Char)
    (enough : (lines level (items.map (prettyChars (level + 1)))).length < fuel) :
    items? fuel (lines level (items.map (prettyChars (level + 1))) ++
      (newLine level ++ ']' :: rest)) = some (items, rest) := by
  induction items generalizing fuel with
  | nil => exact absurd rfl nonempty
  | cons item others ih =>
    have reads := each item List.mem_cons_self
    cases fuel with
    | zero => exact absurd enough (Nat.not_lt_zero _)
    | succ fuel =>
      cases others with
      | nil =>
        rw [List.map_cons, List.map_nil, lines_singleton] at enough ⊢
        have room : (prettyChars (level + 1) item).length < fuel := by
          simp only [newLine, List.length_append, List.length_cons] at enough
          omega
        rw [items?, List.append_assoc, value?_newLine,
          reads (level + 1) fuel _ room (ends_newLine level _), Option.bind_eq_bind, Option.bind_some]
        dsimp only
        rw [skipBlank_newLine, skipBlank_cons rfl]
        rfl
      | cons next more =>
        rw [List.map_cons, List.map_cons, lines_cons_cons, ← List.map_cons] at enough ⊢
        have room : (prettyChars (level + 1) item).length < fuel ∧
            (lines level ((next :: more).map (prettyChars (level + 1)))).length < fuel := by
          simp only [newLine, List.length_append, List.length_cons] at enough
          omega
        have later := ih (fun item member => each item (List.mem_cons_of_mem _ member))
          (List.cons_ne_nil _ _) fuel room.2
        rw [items?, List.append_assoc, value?_newLine, List.append_assoc, List.cons_append,
          reads (level + 1) fuel _ room.1 (ends_comma _), Option.bind_eq_bind, Option.bind_some]
        dsimp only
        rw [skipBlank_cons rfl]
        show (do
          let (items, rest) ← items? fuel _
          pure (item :: items, rest)) = _
        rw [later]
        rfl

/-- A member of an object is read up to its value. -/
theorem members?_member (member : String × Json) (level fuel : Nat) (rest : List Char) :
    members? (fuel + 1) (newLine level ++ (memberChars level member ++ rest)) =
      (do
        let (value, rest) ← value? fuel (prettyChars level member.2 ++ rest)
        match skipBlank rest with
        | '\x7d' :: rest => pure ([(some member.1, value)], rest)
        | ',' :: rest =>
          let (members, rest) ← members? fuel rest
          pure ((some member.1, value) :: members, rest)
        | _ => none) := by
  rw [← members?_skipBlank, skipBlank_newLine, members?_skipBlank]
  unfold memberChars quotedChars
  rw [List.cons_append, List.cons_append, List.cons_append, members?_quote, List.append_assoc,
    List.append_assoc, List.singleton_append, text?_quoted, Option.bind_eq_bind, Option.bind_some]
  dsimp only [List.cons_append]
  have blank : value? fuel (' ' :: (prettyChars level member.2 ++ rest)) =
      value? fuel (prettyChars level member.2 ++ rest) := by
    rw [← value?_skipBlank fuel (prettyChars level member.2 ++ rest), ← value?_skipBlank]
    rfl
  rw [skipBlank_cons rfl, ← blank]
  rfl

theorem members?_lines {members : List (String × Json)} (each : ∀ member ∈ members, Reads member.2)
    (nonempty : members ≠ []) (level fuel : Nat) (rest : List Char)
    (enough : (lines level (members.map (memberChars (level + 1)))).length < fuel) :
    members? fuel (lines level (members.map (memberChars (level + 1))) ++
      (newLine level ++ '\x7d' :: rest)) =
        some (members.map fun (k, v) => (some k, v), rest) := by
  induction members generalizing fuel with
  | nil => exact absurd rfl nonempty
  | cons member others ih =>
    have reads := each member List.mem_cons_self
    cases fuel with
    | zero => exact absurd enough (Nat.not_lt_zero _)
    | succ fuel =>
      cases others with
      | nil =>
        rw [List.map_cons, List.map_nil, lines_singleton] at enough ⊢
        have room : (prettyChars (level + 1) member.2).length < fuel := by
          have member := length_memberChars (level + 1) member
          simp only [newLine, List.length_append, List.length_cons] at enough
          omega
        rw [List.append_assoc, members?_member, reads (level + 1) fuel _ room (ends_newLine level _),
          Option.bind_eq_bind, Option.bind_some]
        dsimp only
        rw [skipBlank_newLine, skipBlank_cons rfl]
        rfl
      | cons next more =>
        rw [List.map_cons, List.map_cons, lines_cons_cons, ← List.map_cons] at enough ⊢
        have room : (prettyChars (level + 1) member.2).length < fuel ∧
            (lines level ((next :: more).map (memberChars (level + 1)))).length < fuel := by
          have member := length_memberChars (level + 1) member
          simp only [newLine, List.length_append, List.length_cons] at enough
          omega
        have later := ih (fun member inside => each member (List.mem_cons_of_mem _ inside))
          (List.cons_ne_nil _ _) fuel room.2
        rw [List.append_assoc, List.append_assoc, List.cons_append, members?_member,
          reads (level + 1) fuel _ room.1 (ends_comma _), Option.bind_eq_bind, Option.bind_some]
        dsimp only
        rw [skipBlank_cons rfl]
        show (do
          let (members, rest) ← members? fuel _
          pure ((some member.1, member.2) :: members, rest)) = _
        rw [later]
        rfl

theorem reads_of_succ {j : Json}
    (reads : ∀ level fuel rest, (prettyChars level j).length ≤ fuel → Ends rest →
      value? (fuel + 1) (prettyChars level j ++ rest) = some (j, rest)) : Reads j := by
  intro level fuel rest enough ends
  cases fuel with
  | zero => exact absurd enough (Nat.not_lt_zero _)
  | succ fuel => exact reads level fuel rest (Nat.le_of_lt_succ enough) ends

theorem reads_list {items : List Json} (plain : ∀ item ∈ items, Plain item)
    (each : ∀ item ∈ items, Reads item) : Reads (.list items) := by
  refine reads_of_succ fun level fuel rest enough _ => ?_
  rw [prettyChars, prettyItems_eq_map] at enough ⊢
  cases items with
  | nil => rfl
  | cons item others =>
    obtain ⟨more, split⟩ := exists_lines_cons level (prettyChars (level + 1) item)
      (others.map (prettyChars (level + 1)))
    obtain ⟨c, cs, front, solid, inside⟩ :=
      exists_head_pretty (plain item List.mem_cons_self) (level + 1)
    rw [List.map_cons, bracketed_cons, ← List.map_cons] at enough ⊢
    have room : (lines level ((item :: others).map (prettyChars (level + 1)))).length < fuel := by
      simp only [newLine, List.length_append, List.length_cons] at enough
      omega
    rw [List.append_assoc, List.append_assoc, List.cons_append, List.singleton_append, value?_list,
      items?_lines each (List.cons_ne_nil _ _) level fuel rest room]
    · rfl
    · intro tail same
      rw [List.map_cons, split, List.append_assoc, skipBlank_newLine, List.append_assoc, front,
        List.cons_append, skipBlank_cons solid] at same
      exact inside (List.cons.inj same).1

theorem reads_record {members : List (String × Json)} (each : ∀ member ∈ members, Reads member.2) :
    Reads (.record members) := by
  refine reads_of_succ fun level fuel rest enough _ => ?_
  unfold record at enough ⊢
  rw [prettyChars, prettyMembers_eq_map] at enough ⊢
  cases members with
  | nil => rfl
  | cons member others =>
    obtain ⟨more, split⟩ := exists_lines_cons level (memberChars (level + 1) member)
      (others.map (memberChars (level + 1)))
    rw [List.map_cons, bracketed_cons, ← List.map_cons] at enough ⊢
    have room : (lines level ((member :: others).map (memberChars (level + 1)))).length < fuel := by
      simp only [newLine, List.length_append, List.length_cons] at enough
      omega
    rw [List.append_assoc, List.append_assoc, List.cons_append, List.singleton_append, value?_object,
      members?_lines each (List.cons_ne_nil _ _) level fuel rest room]
    · rfl
    · intro tail same
      rw [List.map_cons, split, List.append_assoc, skipBlank_newLine, List.append_assoc] at same
      exact absurd (List.cons.inj same).1 (by decide)

/-- Every value is read where it is written. -/
theorem reads_of_plain {j : Json} (plain : Plain j) : Reads j := by
  induction plain with
  | null => exact reads_of_succ fun _ _ _ _ _ => rfl
  | bool b => exact reads_of_succ fun _ _ _ _ _ => by cases b <;> rfl
  | int i => exact reads_of_succ fun _ fuel _ _ ends => value?_int i fuel ends
  | str s => exact reads_of_succ fun _ fuel rest _ _ => value?_string s fuel rest
  | list each ih => exact reads_list each ih
  | record each ih => exact reads_record ih

end Reader

/-- Reading a text gives the value of which it is the text. -/
theorem parse?_pretty {j : Json} (plain : Plain j) : parse? j.pretty = some j := by
  have read := Reader.reads_of_plain plain 0 _ [] (Nat.lt_succ_self _) Reader.ends_nil
  rw [List.append_nil] at read
  unfold parse? pretty
  rw [String.toList_ofList]
  dsimp only
  rw [read]
  rfl

end ScriptHost.Json
