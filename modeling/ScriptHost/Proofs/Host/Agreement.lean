import ScriptHost.Proofs.Host.Closed
import ScriptHost.Proofs.Host.Versions
/-!
Instructions on hosts that are alike. An instruction that finds like values and its own locals does
the same on both sides, and it calls what the two versions have under one token.
-/
namespace ScriptHost.Host

open List (Forall₂)

variable {versions : Versions} {p q : Places}

/-! ## Operands -/

section

variable {stack stack' : List Value} {v v' : Value}

theorem sameOutcome_popOperand (like : AllLike p stack stack') :
    SameOutcome (fun r r' => r.1.Like p r'.1 ∧ AllLike p r.2 r'.2) (popOperand stack)
      (popOperand stack') := by
  cases like with
  | nil => exact .error _
  | cons head tail => exact .ok ⟨head, tail⟩

theorem sameOutcome_toObject (like : v.Like p v') :
    SameOutcome (ObjectRef.Like p) v.toObject v'.toObject := by
  cases like with
  | object same => exact .ok same
  | plain noObject =>
    cases v with
    | object ref => cases noObject
    | _ => exact .error _

theorem sameOutcome_popObject (like : AllLike p stack stack') :
    SameOutcome (fun r r' => r.1.Like p r'.1 ∧ AllLike p r.2 r'.2) (popObject stack)
      (popObject stack') := by
  cases like with
  | nil => exact .error _
  | @cons v v' rest rest' head tail =>
    rw [popObject_cons, popObject_cons]
    have same := sameOutcome_toObject head
    generalize v.toObject = r at same
    generalize v'.toObject = r' at same
    cases same with
    | ok given => exact .ok ⟨given, tail⟩
    | error e => exact .error e

theorem sameOutcome_popIndex (like : AllLike p stack stack') :
    SameOutcome (fun r r' => r'.1 = r.1 ∧ AllLike p r.2 r'.2) (popIndex stack) (popIndex stack') := by
  cases like with
  | nil => exact .error _
  | @cons v v' rest rest' head tail =>
    rw [popIndex_cons, popIndex_cons]
    unfold Value.toIndex
    rw [head.asNat?]
    cases v.asNat? with
    | none => exact .error _
    | some i => exact .ok ⟨rfl, tail⟩

theorem sameOutcome_popOperands (like : AllLike p stack stack') (n : Nat) :
    SameOutcome (fun r r' => AllLike p r.1.toList r'.1.toList ∧ AllLike p r.2 r'.2)
      (popOperands n stack) (popOperands n stack') := by
  unfold popOperands
  rw [like.length_eq]
  split
  · exact .error _
  · exact .ok ⟨List.rel_reverse (List.forall₂_take n like), List.forall₂_drop n like⟩

end

/-! ## Instructions -/

/-- An activation and one on a host that is like its own. The other one may have more locals. -/
structure Activation.Like (p : Places) (a b : Activation) : Prop where
  pc : b.pc = a.pc
  stack : AllLike p a.stack b.stack
  locals : ∀ (i : Nat) (v : Value), a.locals[i]? = some v → ∃ v', b.locals[i]? = some v' ∧ v.Like p v'
  args : AllLike p a.args.toList b.args.toList

/-- What an instruction asks for on the one side, and on the other. -/
inductive Step.Like (versions : Versions) (instr : Instr) (p : Places) : Step → Step → Prop
  | next {a b : Activation} (same : a.Like p b) : Like versions instr p (.next a) (.next b)
  | done {v v' : Value} (same : v.Like p v') : Like versions instr p (.done v) (.done v')
  | call {token : MethodToken} {callee callee' : Method} {receiver receiver' : Option ObjectRef}
      {args args' : Array Value} {keepsValue : Bool} {a b : Activation}
      (names : instr.token? = some token)
      (known : versions.first.method? token = some callee)
      (known' : versions.second.method? token = some callee')
      (target : Option.Rel (ObjectRef.Like p) receiver receiver')
      (passed : AllLike p args.toList args'.toList) (rest : a.Like p b) :
      Like versions instr p (.call callee receiver args keepsValue a)
        (.call callee' receiver' args' keepsValue b)

/-- The locals that an instruction names are there. -/
def Instr.LocalsIn (instr : Instr) (size : Nat) : Prop :=
  ∀ i, instr = .ldLoc i ∨ instr = .stLoc i → i.toNat < size

namespace Activation.Like

variable {a b : Activation} {v v' : Value} {stack stack' : List Value}

theorem mono (like : a.Like p b) (grown : p.Grows q) : a.Like q b := by
  refine ⟨like.pc, like.stack.mono grown, fun i v found => ?_, like.args.mono grown⟩
  obtain ⟨v', found', same⟩ := like.locals i v found
  exact ⟨v', found', same.mono grown⟩

theorem advance (like : a.Like p b) :
    ({ a with pc := a.pc + 1 } : Activation).Like p { b with pc := b.pc + 1 } :=
  ⟨congrArg (· + 1) like.pc, like.stack, like.locals, like.args⟩

theorem push (like : a.Like p b) (same : v.Like p v') : (a.push v).Like p (b.push v') :=
  ⟨like.pc, .cons same like.stack, like.locals, like.args⟩

theorem withStack (like : a.Like p b) (same : AllLike p stack stack') :
    (a.withStack stack).Like p (b.withStack stack') :=
  ⟨like.pc, same, like.locals, like.args⟩

theorem jump (like : a.Like p b) (target : UInt32) : (a.jump target).Like p (b.jump target) :=
  ⟨rfl, like.stack, like.locals, like.args⟩

/-- Storing like values in a local that is there on the one side, and so on the other. -/
theorem setLocal {i : Nat} (like : a.Like p b) (operands : AllLike p stack stack')
    (given : v.Like p v') (inside : i < a.locals.size) :
    i < b.locals.size ∧
      ({ a with stack, locals := a.locals.setIfInBounds i v } : Activation).Like p
        { b with stack := stack', locals := b.locals.setIfInBounds i v' } := by
  obtain ⟨_, there, _⟩ := like.locals i _ (Array.getElem?_eq_getElem inside)
  obtain ⟨inside', _⟩ := Array.getElem?_eq_some_iff.1 there
  refine ⟨inside', like.pc, operands, fun j u found => ?_, like.args⟩
  dsimp only at found ⊢
  rw [Array.getElem?_setIfInBounds] at found ⊢
  by_cases hit : i = j
  · rw [if_pos hit, if_pos (hit ▸ inside)] at found
    rw [if_pos hit, if_pos (hit ▸ inside')]
    exact ⟨_, rfl, Option.some.inj found ▸ given⟩
  · rw [if_neg hit] at found
    rw [if_neg hit]
    exact like.locals j u found

end Activation.Like

/-- Making an array. -/
theorem likewise_newArr {a b : Activation} {s t : State} (returnsValue : Bool)
    (this this' : Option ObjectRef) (element : ValueType) (like : a.Like p b)
    (hosts : s.Like versions p t) :
    Likewise versions p (fun q => SameOutcome (Step.Like versions (.newArr element) q))
      (a.step returnsValue this (.newArr element) s)
      (b.step returnsValue this' (.newArr element) t) := by
  obtain ⟨pc, stack, locals, args⟩ := a
  obtain ⟨pc', stack', locals', args'⟩ := b
  have operands : AllLike p stack stack' := like.stack
  cases operands with
  | nil => exact ⟨p, .refl p, hosts, .error _⟩
  | @cons v v' rest rest' head tail =>
    simp only [Activation.step, popOperand_cons, HostM.lift_bind_apply, head.asNat?]
    cases v.asNat? with
    | none => exact ⟨p, .refl p, hosts, .error _⟩
    | some length =>
      have defaults : AllLike p (Array.replicate length (Value.defaultFor element)).toList
          (Array.replicate length (Value.defaultFor element)).toList := by
        rw [Array.toList_replicate]
        exact .replicate length (.defaultFor element)
      obtain ⟨q, grown, after, made⟩ := hosts.newArray element defaults
      simp only [HostM.modifyGet_bind_apply]
      exact ⟨q, grown, after, .ok (.next
        ((like.mono grown).withStack (.cons (.object made) (AllLike.mono tail grown))))⟩

/-- An instruction that makes no array leaves all places as they are. -/
theorem agree_step {a b : Activation} (returnsValue : Bool) {this this' : Option ObjectRef}
    (target : Option.Rel (ObjectRef.Like p) this this') (like : a.Like p b) {instr : Instr}
    (inside : instr.LocalsIn a.locals.size) (noArray : ∀ element, instr ≠ .newArr element) :
    HostM.Agree versions p (Step.Like versions instr p) (a.step returnsValue this instr)
      (b.step returnsValue this' instr) := by
  cases instr <;> simp only [Activation.step]
  case nop | anchor => exact .pure (.next like)
  case ldNull | ldBool | ldInt | ldFloat | ldStr | ldToken =>
    exact .pure (.next (like.push (.plain rfl)))
  case ldArg i =>
    have found := like.args.getElem? i.toNat
    generalize a.args[i.toNat]? = x at found
    generalize b.args[i.toNat]? = y at found
    cases found with
    | none => exact .throw _
    | some same => exact .pure (.next (like.push same))
  case ldLoc i =>
    have found := Array.getElem?_eq_getElem (inside i (.inl rfl))
    obtain ⟨v', found', same⟩ := like.locals _ _ found
    rw [found, found']
    exact .pure (.next (like.push same))
  case stArg i =>
    refine (HostM.Agree.lift (sameOutcome_popOperand like.stack)).bind fun r r' popped => ?_
    rw [like.args.size]
    split
    · exact .pure (.next ⟨like.pc, popped.2, like.locals, like.args.setIfInBounds popped.1 _⟩)
    · exact .throw _
  case stLoc i =>
    have inBounds := inside i (.inr rfl)
    refine (HostM.Agree.lift (sameOutcome_popOperand like.stack)).bind fun r r' popped => ?_
    obtain ⟨inBounds', stored⟩ := like.setLocal popped.2 popped.1 inBounds
    rw [if_pos inBounds, if_pos inBounds']
    exact .pure (.next stored)
  case ldThis =>
    cases target with
    | none => exact .throw _
    | some same => exact .pure (.next (like.push (.object same)))
  case ldFld i =>
    refine (HostM.Agree.lift (sameOutcome_popObject like.stack)).bind fun r r' popped => ?_
    refine HostM.Agree.get.bind fun s t hosts => ?_
    have found := hosts.heap.get? popped.1 i.toNat
    generalize s.heap.get? r.1 i.toNat = x at found
    generalize t.heap.get? r'.1 i.toNat = y at found
    cases found with
    | none => exact .throw _
    | some same => exact .pure (.next (like.withStack (.cons same popped.2)))
  case stFld i =>
    refine (HostM.Agree.lift (sameOutcome_popOperand like.stack)).bind fun r r' popped => ?_
    refine (HostM.Agree.lift (sameOutcome_popObject popped.2)).bind fun o o' object => ?_
    refine (HostM.Agree.setSlot object.1 popped.1 _).bind fun stored stored' same => ?_
    rw [same]
    split
    · exact .pure (.next (like.withStack object.2))
    · exact .throw _
  case newArr element => exact absurd rfl (noArray element)
  case ldElem =>
    refine (HostM.Agree.lift (sameOutcome_popIndex like.stack)).bind fun r r' popped => ?_
    refine (HostM.Agree.lift (sameOutcome_popObject popped.2)).bind fun o o' object => ?_
    refine HostM.Agree.get.bind fun s t hosts => ?_
    have found := hosts.heap.get? object.1 r.1
    rw [popped.1, hosts.heap.size object.1]
    generalize s.heap.get? o.1 r.1 = x at found
    generalize t.heap.get? o'.1 r.1 = y at found
    cases found with
    | none => exact .throw _
    | some same => exact .pure (.next (like.withStack (.cons same object.2)))
  case stElem =>
    refine (HostM.Agree.lift (sameOutcome_popOperand like.stack)).bind fun r r' popped => ?_
    refine (HostM.Agree.lift (sameOutcome_popIndex popped.2)).bind fun i i' index => ?_
    refine (HostM.Agree.lift (sameOutcome_popObject index.2)).bind fun o o' object => ?_
    rw [index.1]
    refine (HostM.Agree.setSlot object.1 popped.1 _).bind fun stored stored' same => ?_
    rw [same]
    split
    · exact .pure (.next (like.withStack object.2))
    · refine HostM.Agree.get.bind fun s t hosts => ?_
      rw [hosts.heap.size object.1]
      exact .throw _
  case arith op =>
    refine (HostM.Agree.lift (sameOutcome_popOperand like.stack)).bind fun r r' first => ?_
    refine (HostM.Agree.lift (sameOutcome_popOperand first.2)).bind fun o o' second => ?_
    rw [Value.Like.apply op second.1 first.1]
    have applied : SameOutcome (Value.Like p) (op.apply o.1 r.1) (op.apply o.1 r.1) := by
      cases result : op.apply o.1 r.1 with
      | error e => exact .error e
      | ok v => exact .ok (.plain (asObject?_of_apply result))
    exact (HostM.Agree.lift applied).bind fun v v' same =>
      .pure (.next (like.withStack (.cons same second.2)))
  case ceq =>
    intro s t hosts
    refine HostM.Agree.bind (.lift (sameOutcome_popOperand like.stack)) (fun r r' first => ?_) s t hosts
    refine (HostM.Agree.lift (sameOutcome_popOperand first.2)).bind fun o o' second => ?_
    rw [Value.Like.equals hosts.heap.single second.1 first.1]
    exact .pure (.next (like.withStack (.cons (.plain rfl) second.2)))
  case clt =>
    refine (HostM.Agree.lift (sameOutcome_popOperand like.stack)).bind fun r r' first => ?_
    refine (HostM.Agree.lift (sameOutcome_popOperand first.2)).bind fun o o' second => ?_
    rw [second.1.asFloat?, first.1.asFloat?]
    split
    · exact .pure (.next (like.withStack (.cons (.plain rfl) second.2)))
    · exact .throw _
  case dup =>
    exact (HostM.Agree.lift (sameOutcome_popOperand like.stack)).bind fun r r' popped =>
      .pure (.next (like.push popped.1))
  case pop =>
    exact (HostM.Agree.lift (sameOutcome_popOperand like.stack)).bind fun r r' popped =>
      .pure (.next (like.withStack popped.2))
  case br t => exact .pure (.next (like.jump t))
  case brTrue t =>
    refine (HostM.Agree.lift (sameOutcome_popOperand like.stack)).bind fun r r' popped => .pure ?_
    rw [popped.1.truthy]
    have rest := like.withStack popped.2
    split
    · exact .next (rest.jump t)
    · exact .next rest
  case brFalse t =>
    refine (HostM.Agree.lift (sameOutcome_popOperand like.stack)).bind fun r r' popped => .pure ?_
    rw [popped.1.truthy]
    have rest := like.withStack popped.2
    split
    · exact .next rest
    · exact .next (rest.jump t)
  case call token =>
    refine HostM.Agree.get.bind fun s t hosts => ?_
    obtain ⟨unknown, unknown'⟩ | ⟨callee, callee', known, known', same⟩ := hosts.method? token
    · rw [unknown, unknown']
      exact .throw _
    rw [known, known']
    have params : callee'.params = callee.params := (congrArg Method.params same :)
    have hasThis : callee'.hasThis = callee.hasThis := (congrArg Method.hasThis same :)
    have keeps : callee'.returnsValue = callee.returnsValue := (congrArg Method.returnsValue same :)
    dsimp only
    rw [params, hasThis, keeps]
    refine (HostM.Agree.lift (sameOutcome_popOperands like.stack _)).bind fun r r' popped => ?_
    have first := (hosts.methods token).symm.trans known
    have second := (hosts.methods' token).symm.trans known'
    split
    · refine (HostM.Agree.lift (sameOutcome_popObject popped.2)).bind fun o o' object => ?_
      exact .pure (.call rfl first second (.some object.1) popped.1 (like.withStack object.2))
    · exact .pure (.call rfl first second .none popped.1 (like.withStack popped.2))
  case newObj token =>
    refine HostM.Agree.get.bind fun s t hosts => ?_
    obtain ⟨unknown, unknown'⟩ | ⟨callee, callee', known, known', same⟩ := hosts.method? token
    · rw [unknown, unknown']
      exact .throw _
    rw [known, known']
    have params : callee'.params = callee.params := (congrArg Method.params same :)
    dsimp only
    rw [params]
    refine (HostM.Agree.lift (sameOutcome_popOperands like.stack _)).bind fun r r' popped => ?_
    exact .pure (.call rfl ((hosts.methods token).symm.trans known)
      ((hosts.methods' token).symm.trans known') .none popped.1 (like.withStack popped.2))
  case throw =>
    refine (HostM.Agree.lift (sameOutcome_popOperand like.stack)).bind fun r r' popped => ?_
    rw [popped.1.shown]
    exact .throw _
  case ret =>
    split
    · exact (HostM.Agree.lift (sameOutcome_popOperand like.stack)).bind fun r r' popped =>
        .pure (.done popped.1)
    · exact .pure (.done (.plain rfl))

/-- An instruction does the same on both sides. -/
theorem likewise_step {a b : Activation} {s t : State} (returnsValue : Bool)
    {this this' : Option ObjectRef} (target : Option.Rel (ObjectRef.Like p) this this')
    (like : a.Like p b) (hosts : s.Like versions p t) {instr : Instr}
    (inside : instr.LocalsIn a.locals.size) :
    Likewise versions p (fun q => SameOutcome (Step.Like versions instr q))
      (a.step returnsValue this instr s) (b.step returnsValue this' instr t) := by
  by_cases makes : ∃ element, instr = .newArr element
  · obtain ⟨element, rfl⟩ := makes
    exact likewise_newArr returnsValue this this' element like hosts
  · exact (agree_step returnsValue target like inside fun element same =>
      makes ⟨element, same⟩).likewise hosts

/-! ## Receivers -/

/-- Making the object that a method runs on. -/
theorem likewise_receiver {method method' : Method} {this this' : Option ObjectRef} {s t : State}
    (same : method'.strip = method.strip) (target : Option.Rel (ObjectRef.Like p) this this')
    (hosts : s.Like versions p t) :
    Likewise versions p (fun q => SameOutcome (Option.Rel (ObjectRef.Like q)))
      (receiver method this s) (receiver method' this' t) := by
  have kind' : method'.kind = method.kind := (congrArg Method.kind same :)
  have declaring : method'.declaring = method.declaring := (congrArg Method.declaring same :)
  have signature : method'.signature = method.signature := (congrArg Method.signature same :)
  cases kind : method.kind with
  | constructor =>
    rw [receiver_constructor kind, receiver_constructor (kind'.trans kind), declaring]
    obtain ⟨q, grown, after, made⟩ := hosts.instantiate method.declaring
    cases result : s.instantiate method.declaring with
    | mk outcome u =>
      cases result' : t.instantiate method.declaring with
      | mk outcome' u' =>
        rw [result, result'] at after made
        cases made with
        | error e => exact ⟨q, grown, after, .error e⟩
        | ok given => exact ⟨q, grown, after, .ok (.some given)⟩
  | ofInstance =>
    unfold receiver
    rw [kind', kind, signature]
    cases target with
    | none => exact ⟨p, .refl p, hosts, .error _⟩
    | some given => exact ⟨p, .refl p, hosts, .ok (.some given)⟩
  | static =>
    unfold receiver
    rw [kind', kind]
    exact ⟨p, .refl p, hosts, .ok .none⟩

end ScriptHost.Host
