import ScriptHost.Proofs.Host.Comparison
import ScriptHost.Proofs.Host.Stretch
/-!
Loops that count in a local. The test at the head compares the counter with the bound as doubles, so
that the loop goes on until the two share one: up to `2 ^ 53` that is when the counter is at the
bound, and beyond it may be earlier.
-/
namespace ScriptHost.Host

variable {ε : Type} {call : Method → Option ObjectRef → Array Value → StateM (World ε) Completion}
  {method : Method} {body : Body} {this : Option ObjectRef} {a b c : Activation}
  {w after last : World ε} {n k : Nat}

/-! ## Running with calls -/

/-- Running `n` instructions of a body, none of which ends it, and all calls of which return. -/
inductive Passes (call : Method → Option ObjectRef → Array Value → StateM (World ε) Completion)
    (method : Method) (body : Body) (this : Option ObjectRef) :
    Nat → Activation → World ε → Activation → World ε → Prop
  | refl (a : Activation) (w : World ε) : Passes call method body this 0 a w a w
  | next {n : Nat} {instr : Instr} {a b c : Activation} {w after last : World ε}
      (found : body.code[a.pc]? = some instr)
      (performed : perform method this a instr w = (.ok (.next b), after))
      (rest : Passes call method body this n b after c last) :
      Passes call method body this (n + 1) a w c last
  | call {n : Nat} {instr : Instr} {a b c : Activation} {callee : Method}
      {receiver : Option ObjectRef} {args args' : Array Value} {keepsValue : Bool} {v : Value}
      {w middle after last : World ε}
      (found : body.code[a.pc]? = some instr)
      (performed : perform method this a instr w =
        (.ok (.call callee receiver args keepsValue b), middle))
      (returned : World.holding (waiting this b) (call callee receiver args) middle =
        (⟨.returned v, args'⟩, after))
      (rest : Passes call method body this n (if keepsValue then b.push v else b) after c last) :
      Passes call method body this (n + 1) a w c last

namespace Passes

theorem trans (first : Passes call method body this n a w b after)
    (second : Passes call method body this k b after c last) :
    Passes call method body this (k + n) a w c last := by
  induction first with
  | refl => exact second
  | next found performed _ ih => exact .next found performed (ih second)
  | call found performed returned _ ih => exact .call found performed returned (ih second)

/-- What is passed uses up as much of the budget as it has instructions. -/
theorem runBody_eq {limit remaining : Nat} (passes : Passes call method body this n a w b after) :
    runBody call limit method body this (remaining + n) a w =
      runBody call limit method body this remaining b after := by
  induction passes with
  | refl => rfl
  | next found performed _ ih =>
    rw [← Nat.add_assoc, runBody_next found performed]
    exact ih
  | call found performed returned _ ih =>
    rw [← Nat.add_assoc, runBody_succ found, performed]
    dsimp only
    rw [returned]
    exact ih

end Passes

/-! ## One more -/

/-- Whether a value is an unsigned word. -/
def Value.Unsigned (v : Value) : Prop := ∃ u, v = .uint u

/-- Words that are not both unsigned are added as signed ones. -/
theorem apply_add_signed {c d : Value} {i j : Int} {x y : Int64} (word : c.integer? = some i)
    (word' : d.integer? = some j) (signed : ¬ (d.Unsigned ∧ c.Unsigned))
    (read : c.asInt64? = some x) (read' : d.asInt64? = some y) :
    ArithOp.add.apply c d = .ok (.int (x + y)) := by
  cases c with
  | int a =>
    cases d with
    | int b =>
      cases read
      cases read'
      rfl
    | uint t =>
      unfold ArithOp.apply
      simp only [read, read']
      rfl
    | _ => cases word'
  | uint u =>
    cases d with
    | int b =>
      unfold ArithOp.apply
      simp only [read, read']
      rfl
    | uint t => exact absurd ⟨⟨t, rfl⟩, u, rfl⟩ signed
    | _ => cases word'
  | _ => cases word

/-- One more than a word is the next one, if its kind has a next one. -/
theorem apply_add_one {c one : Value} {j : Int} (word : c.integer? = some j)
    (unit : one.integer? = some 1) (low : -2 ^ 63 ≤ j)
    (room : j + 1 < 2 ^ 63 ∨ j + 1 < 2 ^ 64 ∧ one.Unsigned ∧ c.Unsigned) :
    ∃ d, ArithOp.add.apply c one = .ok d ∧ d.integer? = some (j + 1) ∧
      (one.Unsigned ∧ c.Unsigned → d.Unsigned) := by
  by_cases both : one.Unsigned ∧ c.Unsigned
  · obtain ⟨⟨t, rfl⟩, u, rfl⟩ := both
    have below : j + 1 < 2 ^ 64 := by omega
    refine ⟨.uint (u + t), rfl, congrArg some ?_, fun _ => ⟨_, rfl⟩⟩
    have counter : (u.toNat : Int) = j := Option.some.inj word
    have step : (t.toNat : Int) = 1 := Option.some.inj unit
    rw [UInt64.toNat_add, Nat.mod_eq_of_lt (by omega)]
    omega
  · have below : j + 1 < 2 ^ 63 := room.resolve_right fun fits => both fits.2
    have read := Value.asInt64?_of_integer? word low (by omega)
    have read' := Value.asInt64?_of_integer? unit (by decide) (by decide)
    refine ⟨_, apply_add_signed word unit both read read', congrArg some ?_, (absurd · both)⟩
    rw [← Int64.ofInt_add, Int64.toInt_ofInt_of_le (by omega) below]

/-! ## Loops -/

/-- What an instruction puts on the stack, wherever it stands. -/
def Loads (method : Method) (this : Option ObjectRef) (instr : Instr) (v : Value)
    (locals args : Array Value) (w : World ε) : Prop :=
  ∀ pc stack, perform method this ⟨pc, stack, locals, args⟩ instr w =
    (.ok (.next ⟨pc + 1, v :: stack, locals, args⟩), w)

/-- A loop that counts in a local, tests the counter against a bound, and adds one. -/
structure CountingLoop where
  head : UInt32
  exit : UInt32
  counter : UInt16
  bound : Instr
  inner : List Instr
  one : Instr

namespace CountingLoop

/-- Whether to go on. -/
def test (l : CountingLoop) : List Instr :=
  [.ldLoc l.counter, l.bound, .clt, .brFalse l.exit]

/-- The next number, and back to the test. -/
def count (l : CountingLoop) : List Instr :=
  [.ldLoc l.counter, l.one, .arith .add, .stLoc l.counter, .br l.head]

/-- The instructions of a loop. -/
def code (l : CountingLoop) : List Instr :=
  l.test ++ l.inner ++ l.count

/-- The position of the instructions inside a loop. -/
def start (l : CountingLoop) : Nat := l.head.toNat + 4

/-- The position at which a loop counts. -/
def next (l : CountingLoop) : Nat := l.start + l.inner.length

variable {l : CountingLoop} {stack : List Value} {bound one : Value} {limit : Int}
  {inv : Int → Array Value → Array Value → World ε → Prop} {i : Int} {d : Value}
  {locals args : Array Value}

/-- A body has a loop, and what is inside goes through whenever the test lets it. It keeps the
counter and the bound, and takes what holds of one number to what holds of the next. -/
structure Turns (l : CountingLoop)
    (call : Method → Option ObjectRef → Array Value → StateM (World ε) Completion)
    (method : Method) (body : Body) (this : Option ObjectRef) (stack : List Value)
    (bound one : Value) (limit : Int) (inv : Int → Array Value → Array Value → World ε → Prop) :
    Prop where
  code : CodeAt body.code l.head.toNat l.code
  bounded : ∀ {i locals args w}, inv i locals args w → Loads method this l.bound bound locals args w
  turn : ∀ {i d locals args w}, inv i locals args w → locals[l.counter.toNat]? = some d →
    d.integer? = some i → Number.nearest i < Number.nearest limit →
    ∃ k locals' args' after,
      Passes call method body this k ⟨l.start, stack, locals, args⟩ w
        ⟨l.next, stack, locals', args'⟩ after ∧
      locals'[l.counter.toNat]? = some d ∧ Loads method this l.one one locals' args' after ∧
      ∀ e, e.integer? = some (i + 1) →
        inv (i + 1) (locals'.setIfInBounds l.counter.toNat e) args' after

/-- A loop is left with the counter at a number, and what holds then holds of that number. -/
def Leaves (l : CountingLoop)
    (call : Method → Option ObjectRef → Array Value → StateM (World ε) Completion)
    (method : Method) (body : Body) (this : Option ObjectRef) (stack : List Value)
    (inv : Int → Array Value → Array Value → World ε → Prop) (locals args : Array Value)
    (w : World ε) (last : Int) : Prop :=
  ∃ k d locals' args' after,
    Passes call method body this k ⟨l.head.toNat, stack, locals, args⟩ w
      ⟨l.exit.toNat, stack, locals', args'⟩ after ∧
    (∀ limit remaining,
      runBody call limit method body this (remaining + k) ⟨l.head.toNat, stack, locals, args⟩ w =
        runBody call limit method body this remaining ⟨l.exit.toNat, stack, locals', args'⟩ after) ∧
    locals'[l.counter.toNat]? = some d ∧ d.integer? = some last ∧ inv last locals' args' after

theorem Leaves.of_passes {k : Nat} {locals' args' : Array Value} (passes :
    Passes call method body this k ⟨l.head.toNat, stack, locals, args⟩ w
      ⟨l.exit.toNat, stack, locals', args'⟩ after)
    (found : locals'[l.counter.toNat]? = some d) (word : d.integer? = some i)
    (holds : inv i locals' args' after) :
    l.Leaves call method body this stack inv locals args w i :=
  ⟨k, d, locals', args', after, passes, fun _ _ => passes.runBody_eq, found, word, holds⟩

theorem Leaves.of_turn {k : Nat} {locals' args' : Array Value}
    (leaves : l.Leaves call method body this stack inv locals' args' after i) (passes :
      Passes call method body this k ⟨l.head.toNat, stack, locals, args⟩ w
        ⟨l.head.toNat, stack, locals', args'⟩ after) :
    l.Leaves call method body this stack inv locals args w i := by
  obtain ⟨_, _, _, _, _, passes', -, found, word, holds⟩ := leaves
  exact .of_passes (passes.trans passes') found word holds

namespace Turns

/-- The test lets in a counter that is less than the bound as doubles. -/
theorem tests (turns : l.Turns call method body this stack bound one limit inv)
    (word' : bound.integer? = some limit) (holds : inv i locals args w)
    (found : locals[l.counter.toNat]? = some d) (word : d.integer? = some i) :
    Passes call method body this 4 ⟨l.head.toNat, stack, locals, args⟩ w
      ⟨if Number.nearest i < Number.nearest limit then l.start else l.exit.toNat,
        stack, locals, args⟩ w := by
  have code := turns.code.left.left
  refine .next code.head (perform_ldLoc found) ?_
  refine .next code.tail.head (turns.bounded holds ..) ?_
  refine .next code.tail.tail.head (yields_clt word word' ..) ?_
  refine .next code.tail.tail.tail.head (perform_brFalse _) ?_
  simp only [Value.truthy, decide_eq_true_eq]
  exact .refl _ _

/-- Behind what is inside, the loop stores the next number and goes back. -/
theorem counts (turns : l.Turns call method body this stack bound one limit inv)
    (loads : Loads method this l.one one locals args w)
    (found : locals[l.counter.toNat]? = some d) {e : Value}
    (sum : ArithOp.add.apply d one = .ok e) :
    Passes call method body this 5 ⟨l.next, stack, locals, args⟩ w
      ⟨l.head.toNat, stack, locals.setIfInBounds l.counter.toNat e, args⟩ w := by
  have code : CodeAt body.code l.next l.count := by
    have behind := turns.code.right
    rwa [List.length_append, ← Nat.add_assoc] at behind
  have inBounds : l.counter.toNat < locals.size := (Array.getElem?_eq_some_iff.1 found).1
  refine .next code.head (perform_ldLoc found) ?_
  refine .next code.tail.head (loads ..) ?_
  refine .next code.tail.tail.head (perform_arith sum) ?_
  refine .next code.tail.tail.tail.head (perform_stLoc inBounds) ?_
  refine .next code.tail.tail.tail.tail.head (perform_br _) ?_
  exact .refl _ _

/-- One turn takes the loop back to its head with the next number, which its kind has since the
bound is larger. -/
theorem turns_once (turns : l.Turns call method body this stack bound one limit inv)
    (word' : bound.integer? = some limit) (unit : one.integer? = some 1)
    (room : limit < 2 ^ 63 ∨ one.Unsigned ∧ d.Unsigned) (holds : inv i locals args w)
    (found : locals[l.counter.toNat]? = some d) (word : d.integer? = some i)
    (goesOn : Number.nearest i < Number.nearest limit) :
    ∃ k e locals' args' after,
      Passes call method body this k ⟨l.head.toNat, stack, locals, args⟩ w
        ⟨l.head.toNat, stack, locals', args'⟩ after ∧
      locals'[l.counter.toNat]? = some e ∧ e.integer? = some (i + 1) ∧
      (one.Unsigned ∧ d.Unsigned → e.Unsigned) ∧ inv (i + 1) locals' args' after := by
  have less : i < limit := Number.lt_of_nearest_lt goesOn
  have small : limit < 2 ^ 64 := (Value.integer?_range word').2
  obtain ⟨e, sum, word'', kept⟩ := apply_add_one word unit (Value.integer?_range word).1
    (room.imp (by omega) fun unsigned => ⟨by omega, unsigned⟩)
  obtain ⟨k, locals', args', after, passes, found', loads, holds'⟩ :=
    turns.turn holds found word goesOn
  have enters := turns.tests word' holds found word
  rw [if_pos goesOn] at enters
  have inBounds : l.counter.toNat < locals'.size := (Array.getElem?_eq_some_iff.1 found').1
  exact ⟨_, e, _, args', after, (enters.trans passes).trans (turns.counts loads found' sum),
    Array.getElem?_setIfInBounds_self_of_lt inBounds, word'', kept, holds' e word''⟩

/-- A counter that is not less than the bound as doubles ends the loop where it is. -/
theorem leaves_here (turns : l.Turns call method body this stack bound one limit inv)
    (word' : bound.integer? = some limit) (holds : inv i locals args w)
    (found : locals[l.counter.toNat]? = some d) (word : d.integer? = some i)
    (above : Number.nearest limit ≤ Number.nearest i) :
    ∃ last, IsLeast {j | i ≤ j ∧ Number.nearest limit ≤ Number.nearest j} last ∧
      l.Leaves call method body this stack inv locals args w last := by
  have leaves := turns.tests word' holds found word
  rw [if_neg above.not_gt] at leaves
  exact ⟨i, ⟨⟨le_rfl, above⟩, fun j here => here.1⟩, .of_passes leaves found word holds⟩

/-- The loop is left at the first number from the counter on that shares a double with the bound or
lies above it. -/
theorem leaves (turns : l.Turns call method body this stack bound one limit inv)
    (word' : bound.integer? = some limit) (unit : one.integer? = some 1)
    (room : limit < 2 ^ 63 ∨ one.Unsigned ∧ d.Unsigned) (holds : inv i locals args w)
    (found : locals[l.counter.toNat]? = some d) (word : d.integer? = some i) :
    ∃ last, IsLeast {j | i ≤ j ∧ Number.nearest limit ≤ Number.nearest j} last ∧
      l.Leaves call method body this stack inv locals args w last := by
  -- The distance to the bound decreases with every turn.
  induction rounds : (limit - i).toNat generalizing i d locals args w with
  | zero =>
    exact turns.leaves_here word' holds found word (Number.nearest_mono (by omega))
  | succ rounds ih =>
    by_cases goesOn : Number.nearest i < Number.nearest limit
    · obtain ⟨k, e, locals', args', after, passes, found', word'', kept, holds'⟩ :=
        turns.turns_once word' unit room holds found word goesOn
      obtain ⟨last, ⟨⟨notBelow, above⟩, least⟩, leaves⟩ :=
        ih (room.imp_right fun unsigned => ⟨unsigned.1, kept unsigned⟩) holds' found' word''
          (by omega)
      refine ⟨last, ⟨⟨by omega, above⟩, fun j here => least ⟨?_, here.2⟩⟩, leaves.of_turn passes⟩
      have other : i ≠ j := by
        rintro rfl
        exact absurd here.2 goesOn.not_ge
      have notBelow' := here.1
      omega
    · exact turns.leaves_here word' holds found word (Int.not_lt.1 goesOn)

end Turns

end CountingLoop

/-- Between `-2 ^ 53` and `2 ^ 53` a loop that starts at or below its bound is left at the bound. -/
theorem eq_of_isLeast {i limit last : Int} (least : IsLeast
    {j | i ≤ j ∧ Number.nearest limit ≤ Number.nearest j} last) (le : i ≤ limit)
    (low : -2 ^ 53 < limit) (high : limit ≤ 2 ^ 53) : last = limit := by
  have atMost : last ≤ limit := least.2 ⟨le, le_rfl⟩
  by_contra other
  have mono : Number.nearest last ≤ Number.nearest (limit - 1) := Number.nearest_mono (by omega)
  have above := least.1.2
  have before : Number.nearest (limit - 1) = limit - 1 :=
    Number.nearest_of_abs_le (abs_le.2 ⟨by omega, by omega⟩)
  have bound : Number.nearest limit = limit :=
    Number.nearest_of_abs_le (abs_le.2 ⟨low.le, high⟩)
  rw [before] at mono
  rw [bound] at above
  omega

/-- Two words are never found in the wrong order, and words that hold one number are found equal.
That just the right one of the three comparisons holds, takes a double of its own for each of two
numbers, which they have up to `2 ^ 53`; if they share one, neither is less and only words of
different kinds are equal. A loop that counts by one from the first word to the second is left at
the first number that is not less than the second as doubles. -/
theorem compares_exactly {x y : Value} {m n : Int} (first : x.integer? = some m)
    (second : y.integer? = some n) :
    (∃ lt eq gt : Bool, Compares x y m n lt eq gt ∧
      ((lt = true → m < n) ∧ (m = n → eq = true) ∧ (gt = true → n < m)) ∧
      (((lt = true ↔ m < n) ∧ (eq = true ↔ m = n) ∧ (gt = true ↔ n < m)) ↔
        m = n ∨ Number.nearest m ≠ Number.nearest n) ∧
      (m ≠ n → Number.nearest m = Number.nearest n → lt = false ∧ gt = false ∧ eq = !x.alike y)) ∧
    (|m| ≤ 2 ^ 53 → |n| ≤ 2 ^ 53 → m = n ∨ Number.nearest m ≠ Number.nearest n) ∧
    ∀ {ε : Type} (l : CountingLoop)
      (call : Method → Option ObjectRef → Array Value → StateM (World ε) Completion)
      (method : Method) (body : Body) (this : Option ObjectRef) (stack : List Value) (one : Value)
      (inv : Int → Array Value → Array Value → World ε → Prop) (locals args : Array Value)
      (w : World ε),
      l.Turns call method body this stack y one n inv → one.integer? = some 1 →
      n < 2 ^ 63 ∨ one.Unsigned ∧ x.Unsigned → inv m locals args w →
      locals[l.counter.toNat]? = some x →
      ∃ last, IsLeast {j | m ≤ j ∧ Number.nearest n ≤ Number.nearest j} last ∧
        (m ≤ n → -2 ^ 53 < n → n ≤ 2 ^ 53 → last = n) ∧
        l.Leaves call method body this stack inv locals args w last := by
  have compared := compares first second
  refine ⟨⟨_, _, _, compared, compared.sound, compared.right_iff, compared.confused⟩,
    apart_of_abs_le, ?_⟩
  intro ε l call method body this stack one inv locals args w turns unit room holds found
  obtain ⟨last, least, leaves⟩ := turns.leaves second unit room holds found first
  exact ⟨last, least, eq_of_isLeast least, leaves⟩

/-- A loop from zero to an argument of three is left at three. -/
theorem compares_exactly_three :
    let l : CountingLoop := ⟨0, 9, 0, .ldArg 0, [], .ldInt 1⟩
    let body : Body := ⟨#[.numeric .int64], l.code.toArray ++ #[.ldLoc 0, .ret]⟩
    let method : Method := ⟨⟨1⟩, ⟨1⟩, "Clock", "Tick", .static, [], .object, .code body⟩
    let call : Method → Option ObjectRef → Array Value → StateM (World Unit) Completion :=
      fun _ _ args => pure ⟨.returned .null, args⟩
    (Value.int 0).integer? = some 0 ∧ (Value.int 3).integer? = some 3 ∧
    l.Leaves call method body none [] (fun _ _ args _ => args = #[.int 3]) #[.int 0] #[.int 3]
      (.alone {}) 3 := by
  intro l body method call
  have turns : l.Turns call method body none [] (.int 3) (.int 1) 3
      (fun _ _ args _ => args = #[.int 3]) := by
    refine ⟨?_, ?_, ?_⟩
    · exact .of_append l.code #[.ldLoc 0, .ret]
    · rintro i locals _ w rfl pc stack
      exact perform_ldArg rfl
    · rintro i d locals _ w rfl found - -
      exact ⟨0, locals, _, w, .refl _ _, found, fun _ _ => perform_ldInt 1, fun _ _ => rfl⟩
  obtain ⟨last, -, atBound, leaves⟩ := (@compares_exactly (.int 0) (.int 3) 0 3 rfl rfl).2.2 l call
    method body none [] (.int 1) _ #[.int 0] #[.int 3] (.alone {}) turns rfl (.inl (by decide)) rfl
    rfl
  obtain rfl : last = 3 := atBound (by decide) (by decide) (by decide)
  exact ⟨rfl, rfl, leaves⟩

/-- The words `2 ^ 53` and `2 ^ 53 + 1` share a double, so that the first is not found less. -/
theorem compares_neighbours : ¬ ∀ (x y : Value) (m n : Int), x.integer? = some m →
    y.integer? = some n → ∃ lt eq gt : Bool,
      Yields .clt x y (.bool lt) ∧ Yields .ceq x y (.bool eq) ∧ Yields .clt y x (.bool gt) ∧
      (lt = true ↔ m < n) ∧ (eq = true ↔ m = n) ∧ (gt = true ↔ n < m) := by
  intro ordered
  obtain ⟨lt, _, _, yields, -, -, less, -⟩ :=
    ordered (.int 9007199254740992) (.int 9007199254740993) (2 ^ 53) (2 ^ 53 + 1) rfl rfl
  have shared : ¬ Number.nearest (2 ^ 53) < Number.nearest (2 ^ 53 + 1) := by decide +kernel
  have yields' := @yields_clt (.int 9007199254740992) (.int 9007199254740993) (2 ^ 53) (2 ^ 53 + 1)
    rfl rfl
  rw [decide_eq_false shared] at yields'
  rw [Value.bool.inj (yields.unique yields')] at less
  exact absurd (less.2 (by decide)) nofun

end ScriptHost.Host
