import Mathlib.Data.List.Forall2
import Mathlib.Data.List.Nodup
import ScriptHost.Host.Trial
import ScriptHost.Proofs.Results
/-!
Domains only grow. A type that is defined stays at its position, so a token that names a method
names it for good.
-/
namespace ScriptHost.Host.Domain

open List (Forall₂)

variable {d e f : Domain}

/-! ## The tokens of new methods -/

/-- Assigning a token leaves the types alone. -/
theorem types_assignToken (d : Domain) (own : Option MethodToken) (pending : List MethodToken) :
    (d.assignToken own pending).2.types = d.types := by
  unfold assignToken
  cases own with
  | none => dsimp only; split <;> rfl
  | some token => dsimp only; split <;> rfl

/-- A token of one's own is taken as it is, if it is free. -/
theorem assignToken_own {token given : MethodToken} {pending : List MethodToken}
    (assigned : d.assignToken (some token) pending = (.ok given, e)) :
    given = token ∧ d.isTaken pending token = false ∧ e = d := by
  unfold assignToken at assigned
  dsimp only at assigned
  cases taken : d.isTaken pending token with
  | true =>
    rw [taken, if_pos rfl] at assigned
    cases assigned
  | false =>
    rw [taken, if_neg Bool.false_ne_true] at assigned
    cases assigned
    exact ⟨rfl, rfl, rfl⟩

/-- Making methods leaves the types alone. -/
theorem types_makeMethods (id : TypeId) (typeName : String) (d : Domain)
    (pending : List MethodToken) (decls : List MethodDecl) :
    (makeMethods id typeName d pending decls).2.types = d.types := by
  induction decls generalizing d pending with
  | nil => rfl
  | cons decl rest ih =>
    unfold makeMethods
    have assigned := types_assignToken d decl.token pending
    cases result : d.assignToken decl.token pending with
    | mk outcome after =>
      rw [result] at assigned
      cases outcome with
      | error cause => exact assigned
      | ok token =>
        dsimp only
        split
        · exact assigned
        · exact (ih after _).trans assigned

/-- Whether a token is taken depends on the types alone. -/
theorem isTaken_of_types_eq (same : e.types = d.types) (pending : List MethodToken)
    (t : MethodToken) : e.isTaken pending t = d.isTaken pending t := by
  unfold isTaken method?
  rw [same]

/-- A free token is free, and the counter can go past it. -/
theorem freeToken?_eq_some {pending : List MethodToken} {count : Nat} {start free : UInt32}
    (found : d.freeToken? pending count start = some free) :
    d.isTaken pending ⟨free⟩ = false ∧ free ≠ lastToken ∧ start ≤ free := by
  induction count generalizing start with
  | zero => cases found
  | succ count ih =>
    unfold freeToken? at found
    split at found
    · cases found
    rename_i notLast
    split at found
    · obtain ⟨unused, passable, later⟩ := ih found
      refine ⟨unused, passable, ?_⟩
      unfold lastToken at notLast
      grind
    · rename_i unused
      cases found
      exact ⟨by simpa using unused, notLast, UInt32.le_refl _⟩

/-- A token that is assigned is not taken yet. -/
theorem assignToken_free {own : Option MethodToken} {given : MethodToken}
    {pending : List MethodToken} (assigned : d.assignToken own pending = (.ok given, e)) :
    d.isTaken pending given = false := by
  cases own with
  | some token =>
    obtain ⟨rfl, free, -⟩ := assignToken_own assigned
    exact free
  | none =>
    unfold assignToken at assigned
    dsimp only at assigned
    split at assigned
    · rename_i free found
      cases assigned
      exact (freeToken?_eq_some found).1
    · cases assigned

/-- Assigning a token never sets the counter back. -/
theorem nextToken_le_assignToken (d : Domain) (own : Option MethodToken)
    (pending : List MethodToken) : d.nextToken ≤ (d.assignToken own pending).2.nextToken := by
  unfold assignToken
  cases own with
  | some token =>
    dsimp only
    split <;> exact UInt32.le_refl _
  | none =>
    dsimp only
    split
    · rename_i free found
      obtain ⟨_, passable, later⟩ := freeToken?_eq_some found
      unfold lastToken at passable
      dsimp only
      grind
    · unfold lastToken
      dsimp only
      grind

/-- What the first of several methods that are made leaves to the others. -/
theorem makeMethods_cons {id : TypeId} {typeName : String} {pending : List MethodToken}
    {decl : MethodDecl} {rest : List MethodDecl} {made : List Method}
    (result : makeMethods id typeName d pending (decl :: rest) = (.ok made, e)) :
    ∃ token after others, d.assignToken decl.token pending = (.ok token, after) ∧
      decl.name.isEmpty = false ∧
      makeMethods id typeName after (pending ++ [token]) rest = (.ok others, e) ∧
      made = decl.toMethod token id typeName :: others := by
  unfold makeMethods at result
  cases assigned : d.assignToken decl.token pending with
  | mk outcome after =>
    rw [assigned] at result
    cases outcome with
    | error cause => cases result
    | ok token =>
      dsimp only at result
      split at result
      · cases result
      rename_i named
      cases remaining : makeMethods id typeName after (pending ++ [token]) rest with
      | mk outcome last =>
        rw [remaining] at result
        cases outcome with
        | error cause => cases result
        | ok others =>
          cases result
          exact ⟨token, after, others, rfl, by simpa using named, remaining, rfl⟩

/-- The tokens of new methods are distinct, and none of them is taken. -/
theorem makeMethods_free {id : TypeId} {typeName : String} {pending : List MethodToken}
    {decls : List MethodDecl} {made : List Method}
    (result : makeMethods id typeName d pending decls = (.ok made, e)) :
    (∀ m ∈ made, d.isTaken pending m.token = false) ∧ (made.map (·.token)).Nodup := by
  induction decls generalizing d pending made with
  | nil =>
    cases result
    exact ⟨fun _ member => (List.not_mem_nil member).elim, List.nodup_nil⟩
  | cons decl rest ih =>
    obtain ⟨token, after, others, assigned, _, remaining, rfl⟩ := makeMethods_cons result
    have free := assignToken_free assigned
    obtain ⟨unused, distinct⟩ := ih remaining
    have same := types_assignToken d decl.token pending
    rw [assigned] at same
    -- The tokens of the rest avoid everything that is pending, this one included.
    have apart : ∀ m ∈ others, d.isTaken pending m.token = false ∧ m.token ≠ token := by
      intro m member
      have notTaken := unused m member
      rw [isTaken_of_types_eq same] at notTaken
      simp only [isTaken, List.contains_eq_mem, Bool.or_eq_false_iff, decide_eq_false_iff_not,
        List.mem_append, List.mem_singleton, not_or] at notTaken ⊢
      exact ⟨⟨notTaken.1, notTaken.2.1⟩, notTaken.2.2⟩
    refine ⟨List.forall_mem_cons.2 ⟨free, fun m member => (apart m member).1⟩, ?_⟩
    rw [List.map_cons, List.nodup_cons]
    refine ⟨fun member => ?_, distinct⟩
    obtain ⟨m, inRest, same⟩ := List.mem_map.1 member
    exact (apart m inRest).2 same

/-- Making methods never sets the counter back. -/
theorem nextToken_le_makeMethods (id : TypeId) (typeName : String) (d : Domain)
    (pending : List MethodToken) (decls : List MethodDecl) :
    d.nextToken ≤ (makeMethods id typeName d pending decls).2.nextToken := by
  induction decls generalizing d pending with
  | nil => exact UInt32.le_refl _
  | cons decl rest ih =>
    have once := nextToken_le_assignToken d decl.token pending
    unfold makeMethods
    cases assigned : d.assignToken decl.token pending with
    | mk outcome after =>
      rw [assigned] at once
      cases outcome with
      | error cause => exact once
      | ok token =>
        dsimp only
        split
        · exact once
        · exact UInt32.le_trans once (ih after _)

/-- New methods are what they are declared as, in order, with the tokens of their own if they have
any. -/
theorem forall₂_of_makeMethods {id : TypeId} {typeName : String} {pending : List MethodToken}
    {decls : List MethodDecl} {made : List Method}
    (result : makeMethods id typeName d pending decls = (.ok made, e)) :
    Forall₂ (fun decl m => ∃ token, m = decl.toMethod token id typeName ∧
      ∀ own, decl.token = some own → own = token) decls made := by
  induction decls generalizing d pending made with
  | nil =>
    cases result
    exact .nil
  | cons decl rest ih =>
    obtain ⟨token, after, others, assigned, _, remaining, rfl⟩ := makeMethods_cons result
    refine .cons ⟨token, rfl, fun own named => ?_⟩ (ih remaining)
    rw [named] at assigned
    exact (assignToken_own assigned).1.symm

/-- Methods with free tokens of their own are made as they are declared, if they have names. -/
theorem makeMethods_own {id : TypeId} {typeName : String} {pending tokens : List MethodToken}
    {decls : List MethodDecl} (own : decls.map (·.token) = tokens.map some)
    (named : ∀ decl ∈ decls, decl.name.isEmpty = false) (distinct : tokens.Nodup)
    (free : ∀ t ∈ tokens, d.isTaken pending t = false) :
    ∃ made, makeMethods id typeName d pending decls = (.ok made, d) ∧
      made.map (·.token) = tokens := by
  induction decls generalizing pending tokens with
  | nil =>
    obtain rfl := List.map_eq_nil_iff.1 own.symm
    exact ⟨[], rfl, rfl⟩
  | cons decl rest ih =>
    cases tokens with
    | nil => cases own
    | cons token others =>
      rw [List.map_cons, List.map_cons, List.cons.injEq] at own
      obtain ⟨head, tail⟩ := own
      obtain ⟨fresh, apart⟩ := List.nodup_cons.1 distinct
      obtain ⟨unused, unusedRest⟩ := List.forall_mem_cons.1 free
      obtain ⟨nonempty, namedRest⟩ := List.forall_mem_cons.1 named
      have later : ∀ t ∈ others, d.isTaken (pending ++ [token]) t = false := by
        intro t member
        have notTaken := unusedRest t member
        have notThis : t ≠ token := by
          rintro rfl
          exact fresh member
        simp only [isTaken, List.contains_eq_mem, Bool.or_eq_false_iff, decide_eq_false_iff_not,
          List.mem_append, List.mem_singleton, not_or] at notTaken ⊢
        exact ⟨notTaken.1, notTaken.2, notThis⟩
      obtain ⟨made, result, tokens⟩ := ih tail namedRest apart later
      refine ⟨decl.toMethod token id typeName :: made, ?_, congrArg (token :: ·) tokens⟩
      unfold makeMethods assignToken
      rw [head]
      dsimp only
      rw [unused, if_neg Bool.false_ne_true]
      dsimp only
      rw [nonempty, if_neg Bool.false_ne_true, result]
      rfl

/-! ## Growth -/

/-- The second domain has the types of the first, at the same positions. -/
def Extends (d e : Domain) : Prop :=
  ∃ more, e.types = d.types ++ more

theorem Extends.refl (d : Domain) : Extends d d :=
  ⟨#[], d.types.append_empty.symm⟩

theorem Extends.of_types_eq (same : e.types = d.types) : Extends d e :=
  ⟨#[], same.trans d.types.append_empty.symm⟩

theorem Extends.trans (first : Extends d e) (second : Extends e f) : Extends d f := by
  obtain ⟨added, types⟩ := first
  obtain ⟨later, types'⟩ := second
  exact ⟨added ++ later, by rw [types', types, Array.append_assoc]⟩

/-- The method of a token, once a domain has grown. -/
theorem method?_of_append {more : Array TypeInfo} (types : e.types = d.types ++ more)
    (t : MethodToken) :
    e.method? t =
      (d.method? t).or (more.findSome? fun info => info.members.find? (·.token == t)) := by
  unfold method?
  rw [types, Array.findSome?_append]

/-- A token that names a method names it for good. -/
theorem Extends.method? {t : MethodToken} {m : Method} (grown : Extends d e)
    (named : d.method? t = some m) : e.method? t = some m := by
  obtain ⟨more, types⟩ := grown
  rw [method?_of_append types, named, Option.some_or]

/-- A position that holds a type holds it for good. -/
theorem Extends.get? {id : TypeId} {info : TypeInfo} (grown : Extends d e)
    (found : d.get? id = some info) : e.get? id = some info := by
  obtain ⟨more, types⟩ := grown
  unfold Domain.get? at found ⊢
  obtain ⟨inBounds, _⟩ := Array.getElem?_eq_some_iff.1 found
  rw [types, Array.getElem?_append_left inBounds]
  exact found

/-- An array type stays what it is. -/
theorem Extends.findArray? {element : ValueType} {id : TypeId} (grown : Extends d e)
    (found : d.findArray? element = some id) : e.findArray? element = some id := by
  obtain ⟨more, types⟩ := grown
  unfold Domain.findArray? at found ⊢
  obtain ⟨info, there, same⟩ := Option.map_eq_some_iff.1 found
  rw [types, Array.find?_append, there, Option.some_or, Option.map_some, same]

/-- What calling a method does to the stack stays what it is. -/
theorem Extends.callEffect? {t : MethodToken} {effect : CallEffect} (grown : Extends d e)
    (known : d.callEffect? t = some effect) : e.callEffect? t = some effect := by
  unfold Domain.callEffect? at known ⊢
  obtain ⟨m, named, same⟩ := Option.map_eq_some_iff.1 known
  rw [grown.method? named, Option.map_some, same]

/-! ## What can happen to a domain -/

theorem reserveTokens_eq_ok {count : Nat} (room : d.nextToken.toNat + count < UInt32.size) :
    d.reserveTokens count =
      (.ok d.nextToken, { d with nextToken := d.nextToken + .ofNat count }) :=
  if_pos room

theorem reserveTokens_eq_error {count : Nat} (full : ¬ d.nextToken.toNat + count < UInt32.size) :
    d.reserveTokens count = (.error .tokensExhausted, d) :=
  if_neg full

/-- Setting tokens aside leaves the types alone. -/
theorem types_reserveTokens (d : Domain) (count : Nat) :
    (d.reserveTokens count).2.types = d.types := by
  unfold reserveTokens
  split <;> rfl

/-- Setting tokens aside never sets the counter back. -/
theorem nextToken_le_reserveTokens (d : Domain) (count : Nat) :
    d.nextToken ≤ (d.reserveTokens count).2.nextToken := by
  by_cases room : d.nextToken.toNat + count < UInt32.size
  · rw [reserveTokens_eq_ok room, UInt32.le_iff_toNat_le, UInt32.toNat_add,
      UInt32.toNat_ofNat_of_lt' (Nat.lt_of_le_of_lt (Nat.le_add_left _ _) room),
      Nat.mod_eq_of_lt room]
    exact Nat.le_add_right _ _
  · rw [reserveTokens_eq_error room]
    exact UInt32.le_refl _

/-- An array type that is new comes last. -/
theorem extends_arrayType (d : Domain) (element : ValueType) :
    Extends d (d.arrayType element).2 := by
  unfold arrayType
  cases d.findArray? element with
  | some id => exact .refl d
  | none => exact ⟨#[_], Array.push_eq_append⟩

/-- Array types have no methods. -/
theorem method?_arrayType (d : Domain) (element : ValueType) (t : MethodToken) :
    (d.arrayType element).2.method? t = d.method? t := by
  unfold arrayType
  cases d.findArray? element with
  | some id => rfl
  | none =>
    rw [method?_of_append Array.push_eq_append]
    exact Option.or_none

/-- What a definition that succeeds goes through. -/
structure Defines (d : Domain) (decl : TypeDecl) (base : TypeInfo) (made : List Method)
    (after : Domain) : Prop where
  based : d.baseFor decl = .ok base
  making : makeMethods ⟨d.types.size⟩ decl.name d [] decl.methods = (.ok made, after)
  types : after.types = d.types
  risen : d.nextToken ≤ after.nextToken
  passable : ∀ m ∈ made, m.token.id ≠ lastToken

/-- The new type comes last. -/
theorem Defines.types_addType {decl : TypeDecl} {base : TypeInfo} {made : List Method}
    {after : Domain} (defines : Defines d decl base made after) (info : TypeInfo) :
    (after.addType info).types = d.types.push info := by
  rw [addType, defines.types]

/-- A definition leaves the types alone, or it adds one at the end. -/
theorem define_cases (d : Domain) (decl : TypeDecl) :
    (∃ cause after, d.define decl = (.error cause, after) ∧ after.types = d.types ∧
        d.nextToken ≤ after.nextToken) ∨
      ∃ base made after, Defines d decl base made after ∧
        d.define decl =
          (.ok ⟨d.types.size⟩, after.addType (decl.toType ⟨d.types.size⟩ base made)) := by
  unfold define
  cases based : d.baseFor decl with
  | error cause => exact .inl ⟨cause, d, rfl, rfl, UInt32.le_refl _⟩
  | ok base =>
    have same := types_makeMethods ⟨d.types.size⟩ decl.name d [] decl.methods
    have risen := nextToken_le_makeMethods ⟨d.types.size⟩ decl.name d [] decl.methods
    dsimp only
    cases making : makeMethods ⟨d.types.size⟩ decl.name d [] decl.methods with
    | mk outcome after =>
      rw [making] at same risen
      cases outcome with
      | error cause => exact .inl ⟨cause, after, rfl, same, risen⟩
      | ok made =>
        dsimp only
        split
        · exact .inl ⟨_, after, rfl, same, risen⟩
        · rename_i passable
          refine .inr ⟨base, made, after, ⟨based, making, same, risen, fun m member last => ?_⟩, rfl⟩
          exact passable (List.any_eq_true.2 ⟨m, member, beq_iff_eq.2 last⟩)

/-- What a definition that succeeds adds to a domain. -/
theorem define_eq_ok {decl : TypeDecl} {id : TypeId} (defined : d.define decl = (.ok id, e)) :
    ∃ base made after, Defines d decl base made after ∧ id = ⟨d.types.size⟩ ∧
      e = after.addType (decl.toType ⟨d.types.size⟩ base made) := by
  rcases define_cases d decl with ⟨cause, after, refused, -⟩ | ⟨base, made, after, defines, result⟩
  · cases refused.symm.trans defined
  · cases result.symm.trans defined
    exact ⟨base, made, after, defines, rfl, rfl⟩

/-- A type that is defined comes last. -/
theorem extends_define (d : Domain) (decl : TypeDecl) : Extends d (d.define decl).2 := by
  rcases define_cases d decl with
    ⟨cause, after, refused, same, -⟩ | ⟨base, made, after, defines, result⟩
  · rw [refused]
    exact .of_types_eq same
  · rw [result]
    exact (Extends.of_types_eq defines.types).trans ⟨#[_], Array.push_eq_append⟩

/-- What a domain offers to change it: definitions, array types on first use, and tokens that are
set aside. -/
inductive Evolves (d : Domain) : Domain → Prop
  | refl : Evolves d d
  | define {e : Domain} (before : Evolves d e) (decl : TypeDecl) : Evolves d (e.define decl).2
  | arrayType {e : Domain} (before : Evolves d e) (element : ValueType) :
      Evolves d (e.arrayType element).2
  | reserveTokens {e : Domain} (before : Evolves d e) (count : Nat) :
      Evolves d (e.reserveTokens count).2

theorem Evolves.trans (first : Evolves d e) (second : Evolves e f) : Evolves d f := by
  induction second with
  | refl => exact first
  | define _ decl ih => exact ih.define decl
  | arrayType _ element ih => exact ih.arrayType element
  | reserveTokens _ count ih => exact ih.reserveTokens count

/-- Whatever happens to a domain, it only grows. -/
theorem Evolves.extends (changed : Evolves d e) : Extends d e := by
  induction changed with
  | refl => exact .refl d
  | define _ decl ih => exact ih.trans (extends_define _ decl)
  | arrayType _ element ih => exact ih.trans (extends_arrayType _ element)
  | reserveTokens _ count ih => exact ih.trans (.of_types_eq (types_reserveTokens _ count))

/-! ## The methods of a new type -/

/-- Sorting methods with distinct tokens by a property does not lose any. -/
theorem find?_partition {made : List Method} {m : Method} (p : Method → Bool)
    (distinct : (made.map (·.token)).Nodup) (member : m ∈ made) :
    (made.filter p ++ made.filter (!p ·)).find? (·.token == m.token) = some m := by
  have unique : ∀ other ∈ made.filter p ++ made.filter (!p ·), other.token == m.token →
      other = m := by
    intro other found same
    have inMade : other ∈ made := by
      rcases List.mem_append.1 found with yes | no
      · exact List.mem_of_mem_filter yes
      · exact List.mem_of_mem_filter no
    exact List.inj_on_of_nodup_map distinct inMade member (eq_of_beq same)
  have present : m ∈ made.filter p ++ made.filter (!p ·) := by
    cases kept : p m with
    | true => exact List.mem_append_left _ (List.mem_filter.2 ⟨member, kept⟩)
    | false => exact List.mem_append_right _ (List.mem_filter.2 ⟨member, by simp [kept]⟩)
  cases found : (made.filter p ++ made.filter (!p ·)).find? (·.token == m.token) with
  | none =>
    have absent := List.find?_eq_none.1 found m present
    exact (absent (beq_self_eq_true _)).elim
  | some other =>
    have same := List.find?_some (p := fun x : Method => x.token == m.token) found
    rw [unique other (List.mem_of_find?_eq_some found) same]

/-- Every declaration with a token of its own is found under that token afterwards. -/
theorem method?_of_define {decl : TypeDecl} {id : TypeId} (defined : d.define decl = (.ok id, e)) :
    ∀ m ∈ decl.methods, ∀ token, m.token = some token →
      e.method? token = some (m.toMethod token id decl.name) := by
  intro m member token named
  obtain ⟨base, made, after, defines, rfl, rfl⟩ := define_eq_ok defined
  obtain ⟨free, distinct⟩ := makeMethods_free defines.making
  obtain ⟨_, inMade, _, rfl, sameToken⟩ :=
    Results.exists_of_forall₂ (forall₂_of_makeMethods defines.making).flip member
  cases sameToken token named
  have unused := free _ inMade
  have before : d.method? token = none := by
    simpa [isTaken, MethodDecl.toMethod] using unused
  rw [method?_of_append (d := d) (t := token)
    ((defines.types_addType _).trans Array.push_eq_append)]
  rw [before, Option.none_or, Array.findSome?_singleton]
  exact find?_partition _ distinct inMade

end ScriptHost.Host.Domain
