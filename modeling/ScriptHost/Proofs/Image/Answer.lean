import ScriptHost.Proofs.Host.Evolution
import ScriptHost.Proofs.Host.Moments
import ScriptHost.Proofs.Image.Question
/-!
What follows the answer of the hub. A patch that declines leaves control to the own code; one that
accepts leaves it to the code that takes by-reference arguments and result from the carrier, and
control never comes to the own code.
-/
namespace ScriptHost.Image

open Host

variable {ε : Type}

/-! ## The answer -/

/-- What the patches are asked about a method. -/
def patchRequest (m : MethodDef) (method : Method) (this : Option ObjectRef) (carrier : ObjectRef) :
    PatchRequest :=
  ⟨m.signature, method, this, carrier⟩

/-- The activation of an injected body that waits for the hub. -/
def asking (m : MethodDef) (own injected : Body) (carrier : ObjectRef) (args : Array Value) :
    Activation :=
  ⟨hubCallAt m + 1, [], askingLocals own injected carrier, args⟩

/-- The patches at work while an injected body waits for the hub. -/
def consulted (ctx : Context ε) (m : MethodDef) (own injected : Body) (method : Method)
    (this : Option ObjectRef) (args : Array Value) (carrier : ObjectRef) :
    StateM (World ε) (Except Interrupt Bool) :=
  World.holding (waiting this (asking m own injected carrier args))
    (World.holding (hubArgs m this carrier).toList
      (ctx.dispatch (patchRequest m method this carrier)))

/-- The world with a carrier for a question. -/
def posed (w : World ε) (method : Method) (args : Array Value) : World ε :=
  { w with host := w.host.withCarrier (args.push (resultDefault method)) }

/-- The world in which the patches are asked about a method. -/
def asked (w : World ε) (m : MethodDef) (own injected : Body) (method : Method)
    (this : Option ObjectRef) (args : Array Value) : World ε :=
  { posed w method args with
    pins := (hubArgs m this w.host.carrierRef).toList ::
      waiting this (asking m own injected w.host.carrierRef args) :: w.pins }

/-- What was held for a question is let go after it. -/
theorem consulted_eq (ctx : Context ε) (w : World ε) (m : MethodDef) (own injected : Body)
    (method : Method) (this : Option ObjectRef) (args : Array Value) :
    consulted ctx m own injected method this args w.host.carrierRef (posed w method args) =
      let (answer, v) := ctx.dispatch (patchRequest m method this w.host.carrierRef)
        (asked w m own injected method this args)
      (answer, { v with pins := v.pins.tail.tail }) := rfl

section

variable {m : MethodDef} {hub : MethodToken} {own injected : Body} {method consult : Method}
  {this : Option ObjectRef} {args : Array Value} {w : World ε} {ctx : Context ε} {depth : Nat}

/-- A method that the domain knows is still known once there is a carrier. -/
theorem method?_withCarrier {s : State} {t : MethodToken} (values : Array Value)
    (known : s.domain.method? t = some method) :
    (s.withCarrier values).domain.method? t = some method := by
  have evolves := evolves_newArray s .object values
  rw [s.newArray_object] at evolves
  exact evolves.extends.method? known

/-- Calling the hub. -/
theorem invoke_hub (ctx : Context ε) (depth : Nat) (this : Option ObjectRef)
    (prepared : Prepared w.host.domain m hub own injected method consult)
    (arity : args.size = method.params.length) :
    invoke ctx (depth + 1) consult none (hubArgs m this w.host.carrierRef)
        { w with host := w.host.withCarrier (args.push .null) } =
      let (answer, after) := World.holding (hubArgs m this w.host.carrierRef).toList
        (ctx.dispatch (patchRequest m method this w.host.carrierRef)) (posed w method args)
      (⟨.ofAnswer answer, hubArgs m this w.host.carrierRef⟩, after) := by
  have known := method?_withCarrier (args.push .null) prepared.known
  have fits : (w.host.withCarrier (args.push .null)).heap.size w.host.carrierRef =
      method.params.length + 1 := by
    rw [State.size_withCarrier, Array.size_push, arity]
  have inBounds : method.params.length < (args.push Value.null).size := by
    rw [Array.size_push, arity]
    exact Nat.lt_succ_self _
  have emptied := congrArg Prod.snd
    (w.host.setSlot_withCarrier (args.push .null) (resultDefault method) inBounds)
  have last : (args.push Value.null).setIfInBounds method.params.length (resultDefault method) =
      args.push (resultDefault method) := by
    rw [← arity]
    apply Array.ext_getElem?
    intro j
    rw [Array.getElem?_setIfInBounds, Array.getElem?_push, Array.getElem?_push, Array.size_push]
    by_cases same : j = args.size
    · simp [same]
    · have other : args.size ≠ j := Ne.symm same
      simp [same, other]
  have arityHub : (hubArgs m this w.host.carrierRef).size = consult.params.length :=
    prepared.hubParams.symm
  have read := ofArgs_hubArgs m this w.host.carrierRef
  have asks : consultPatches ctx (hubArgs m this w.host.carrierRef)
      { w with host := w.host.withCarrier (args.push .null) } = _ :=
    consultPatches_asked read known fits
  rw [invoke_patchHub arityHub prepared.hubKind prepared.hubBody, asks, emptied, last]
  rfl

theorem getElem?_hubCall (shape : Injected m hub own injected) :
    injected.code[hubCallAt m]? = some (.call hub) := by
  have position : 4 + 4 * m.params.length + 1 + 1 + 1 + 1 + 1 = hubCallAt m := by
    unfold hubCallAt
    omega
  rw [← position]
  exact shape.codeAt_question.tail.tail.tail.tail.tail.head

theorem perform_hubCall (this : Option ObjectRef) (args : Array Value)
    (prepared : Prepared w.host.domain m hub own injected method consult) :
    perform method this (calling m own injected this w.host.carrierRef args) (.call hub)
        { w with host := w.host.withCarrier (args.push .null) } =
      (.ok (.call consult none (hubArgs m this w.host.carrierRef) true
        (asking m own injected w.host.carrierRef args)),
        { w with host := w.host.withCarrier (args.push .null) }) := by
  have known := method?_withCarrier (args.push .null) prepared.hubKnown
  have arityHub : (hubOperands m this w.host.carrierRef).length = consult.params.length :=
    prepared.hubParams.symm
  have general : perform method this ⟨hubCallAt m, hubOperands m this w.host.carrierRef ++ [],
      askingLocals own injected w.host.carrierRef, args⟩ (.call hub)
      { w with host := w.host.withCarrier (args.push .null) } = _ :=
    perform_call known prepared.hubKind arityHub
  rw [List.append_nil, prepared.hubReturns] at general
  exact general

/-- Calling the hub from an injected body. -/
theorem holding_invoke_hub (prepared : Prepared w.host.domain m hub own injected method consult)
    (arity : args.size = method.params.length) :
    World.holding (waiting this (asking m own injected w.host.carrierRef args))
        (invoke ctx (depth + 1) consult none (hubArgs m this w.host.carrierRef))
        { w with host := w.host.withCarrier (args.push .null) } =
      let (answer, after) := consulted ctx m own injected method this args w.host.carrierRef
        (posed w method args)
      (⟨.ofAnswer answer, hubArgs m this w.host.carrierRef⟩, after) := by
  have hub := fun pins => invoke_hub ctx depth this (w := { w with pins }) prepared arity
  unfold World.holding at hub ⊢
  dsimp only at hub ⊢
  rw [hub]
  rfl

/-- An injected body runs until the hub has its answer. -/
theorem runBody_asking (ctx : Context ε) (depth : Nat)
    (prepared : Prepared w.host.domain m hub own injected method consult)
    (hasThis : this.isSome = method.hasThis) (arity : args.size = method.params.length)
    (limit remaining : Nat) :
    runBody (invoke ctx (depth + 1)) limit method injected this (remaining + (hubCallAt m + 1))
        (.start injected args) w =
      match consulted ctx m own injected method this args w.host.carrierRef
        (posed w method args) with
      | (.ok replaced, after) =>
        runBody (invoke ctx (depth + 1)) limit method injected this remaining
          ((asking m own injected w.host.carrierRef args).push (.bool replaced)) after
      | (.error i, after) => (⟨.interrupted i, args⟩, after) := by
  have steps := steps_asking prepared hasThis arity w
  have found : injected.code[(calling m own injected this w.host.carrierRef args).pc]? =
      some (.call hub) := getElem?_hubCall prepared.shape
  have split : remaining + (hubCallAt m + 1) = remaining + 1 + hubCallAt m := by omega
  rw [split, steps.runBody_eq]
  rw [runBody_succ found, perform_hubCall this args prepared]
  dsimp only
  rw [holding_invoke_hub prepared arity]
  cases consulted ctx m own injected method this args w.host.carrierRef
    (posed w method args) with
  | mk answer after =>
    cases answer with
    | ok replaced => rfl
    | error i => rfl

/-! ## A patch that declines -/

/-- The mark between the question and the branch. -/
theorem getElem?_vetoBranch (shape : Injected m hub own injected) :
    injected.code[hubCallAt m + 1]? = some (.anchor .vetoBranch) := by
  have position : 4 + 4 * m.params.length + 1 + 1 + 1 + 1 + 1 + 1 = hubCallAt m + 1 := by
    unfold hubCallAt
    omega
  rw [← position]
  exact shape.codeAt_question.tail.tail.tail.tail.tail.tail.head

/-- When the patches decline, the own code runs as it would by itself, in a frame that also holds
the carrier. -/
theorem runBody_declined (shape : Injected m hub own injected)
    {call : Method → Option ObjectRef → Array Value → StateM (World ε) Completion}
    (limit remaining : Nat) (carrier : ObjectRef) (w : World ε) :
    runBody call limit method injected this (remaining + 3)
        ((asking m own injected carrier args).push (.bool false)) w =
      runBody call limit method own this remaining ⟨0, [], askingLocals own injected carrier, args⟩
        w := by
  have code := shape.codeAt_answer
  have mark : injected.code[ownMark m hub own]? = some (.anchor .ownCode) := by
    have last := code.tail.right.head
    have position : hubCallAt m + 2 + 1 + (back m own).length = ownMark m hub own := by
      unfold ownMark
      rw [length_front]
    rwa [position] at last
  have steps : Steps method injected this (ownMark m hub own + 1) 3
      ((asking m own injected carrier args).push (.bool false)) w
      ⟨ownMark m hub own + 1, [], askingLocals own injected carrier, args⟩ w := by
    have far := hubCallAt_lt_ownMark m hub own
    refine .step (getElem?_vetoBranch shape) ?_ (perform_anchor _) ?_
    · change hubCallAt m + 1 < ownMark m hub own + 1
      omega
    refine .step code.head ?_ (perform_brFalse _) ?_
    · change hubCallAt m + 2 < ownMark m hub own + 1
      omega
    simp only [Value.truthy, Bool.false_eq_true, if_false, shape.toNat_ownMark]
    exact .one mark (Nat.lt_succ_self _) (perform_anchor _)
  rw [steps.runBody_eq]
  have fits : ∀ instr ∈ own.code, ∀ target, instr.branchTarget? = some target →
      target.toNat + (Image.shift m hub own).toNat < UInt32.size := by
    intro instr member target branches
    have moves := Array.all_eq_true_iff_forall_mem.1 shape.movable instr member
    unfold movable at moves
    rw [branches] at moves
    simpa using moves
  have size : (prologue m hub own).toArray.size = (Image.shift m hub own).toNat := by
    rw [List.size_toArray, length_prologue, shape.toNat_shift]
  have place : (⟨0, [], askingLocals own injected carrier, args⟩ : Activation).moved
      (Image.shift m hub own).toNat =
        ⟨ownMark m hub own + 1, [], askingLocals own injected carrier, args⟩ := by
    rw [shape.toNat_shift]
    simp only [Activation.moved, Nat.zero_add]
  rw [← place]
  exact runBody_moved size fits shape.code remaining _ w

/-! ## A patch that accepts -/

/-- Taking by-reference arguments from the carrier. -/
theorem steps_loadArgs {body : Body} {bound pc : Nat} {slot : UInt16} {indices : List Nat}
    {locals args : Array Value} {carrier : ObjectRef}
    (code : CodeAt body.code pc (loadArgs slot indices))
    (fits : ∀ i ∈ indices, i < args.size ∧ i < w.host.heap.size carrier ∧ i < 0x10000)
    (there : locals[slot.toNat]? = some (.object carrier))
    (below : pc + 4 * indices.length ≤ bound) :
    Steps method body this bound (4 * indices.length) ⟨pc, [], locals, args⟩ w
      ⟨pc + 4 * indices.length, [], locals, fill (w.host.heap.slots carrier) indices args⟩ w := by
  induction indices generalizing pc args with
  | nil => exact .refl _ _
  | cons i rest ih =>
    obtain ⟨inArgs, inCarrier, small⟩ := fits i List.mem_cons_self
    rw [List.length_cons] at below ⊢
    have block : CodeAt body.code pc
        ([.ldLoc slot, ldNat i, .ldElem, .stArg (.ofNat i)] ++ loadArgs slot rest) := code
    have instrs := block.left
    have slotNumber : (UInt16.ofNat i).toNat = i := UInt16.toNat_ofNat_of_lt' small
    have index : (Value.int (.ofNat i)).asNat? = some i := asNat?_ofNat (by omega)
    have element : w.host.heap.get? carrier i = some ((w.host.heap.slots carrier).getD i .null) := by
      unfold Heap.get?
      rw [Array.getD_eq_getD_getElem?, Array.getElem?_eq_getElem inCarrier]
      rfl
    have one : Steps method body this bound 4 ⟨pc, [], locals, args⟩ w ⟨pc + 4, [], locals,
        args.setIfInBounds i ((w.host.heap.slots carrier).getD i .null)⟩ w := by
      refine .step instrs.head (by dsimp only; omega) (perform_ldLoc there) ?_
      refine .step instrs.tail.head (by dsimp only; omega) (perform_ldInt _) ?_
      refine .step instrs.tail.tail.head (by dsimp only; omega) (perform_ldElem index element) ?_
      refine .one instrs.tail.tail.tail.head (by dsimp only; omega) ?_
      rw [perform_stArg (by rwa [slotNumber]), slotNumber]
    have others : ∀ j ∈ rest,
        j < (args.setIfInBounds i ((w.host.heap.slots carrier).getD i .null)).size ∧
          j < w.host.heap.size carrier ∧ j < 0x10000 := by
      intro j member
      rw [Array.size_setIfInBounds]
      exact fits j (List.mem_cons_of_mem _ member)
    have whole := one.trans (ih block.right others (by omega))
    have position : pc + 4 + 4 * rest.length = pc + 4 * (rest.length + 1) := by omega
    have count : 4 * rest.length + 4 = 4 * (rest.length + 1) := by omega
    rw [position, count] at whole
    exact whole

theorem mem_byRefIndices {params : List Param} {i : Nat} (member : i ∈ byRefIndices params) :
    i < params.length := by
  unfold byRefIndices at member
  obtain ⟨⟨p, j⟩, inside, rfl⟩ := List.mem_map.1 member
  obtain ⟨inBounds, _⟩ := List.mem_zipIdx' (List.mem_filter.1 inside).1
  exact inBounds

/-- What a method gives when a patch took its place. -/
def overriddenResult (m : MethodDef) (slots : Array Value) : Value :=
  if m.returnsValue then slots.getD m.params.length .null else .null

/-- What the arguments of a method hold when a patch took its place. -/
def overriddenArgs (m : MethodDef) (slots args : Array Value) : Array Value :=
  fill slots (byRefIndices m.params) args

/-- How many instructions run after the answer of a patch that accepts. -/
def overrideCost (m : MethodDef) : Nat :=
  5 + 4 * (byRefIndices m.params).length + 5 * m.returnsValue.toNat

/-- The code that gives the result of a patch. -/
def resultCode (m : MethodDef) (own : Body) : List Instr :=
  match resultSlot m own with
  | some slot =>
    [.ldLoc (carrierSlot own), ldNat m.params.length, .ldElem, .stLoc slot, .ldLoc slot]
  | none => []

/-- Where the code that gives the result of a patch stands. -/
def resultAt (m : MethodDef) : Nat :=
  hubCallAt m + 5 + 4 * (byRefIndices m.params).length

theorem ownMark_eq :
    ownMark m hub own = resultAt m + 1 + 5 * m.returnsValue.toNat := by
  unfold ownMark resultAt
  rw [length_front, length_back]
  omega

theorem back_eq : back m own = [.anchor .refOutWriteback] ++
    loadArgs (carrierSlot own) (byRefIndices m.params) ++ [.anchor .ret] ++
    (resultCode m own ++ [.ret]) := by
  rw [← List.append_assoc]
  rfl

theorem codeAt_resultCode (shape : Injected m hub own injected) :
    CodeAt injected.code (resultAt m) (resultCode m own ++ [.ret]) := by
  have code : CodeAt injected.code (hubCallAt m + 2 + 1) (back m own) :=
    shape.codeAt_answer.tail.left
  rw [back_eq] at code
  have after := code.right
  have position : hubCallAt m + 2 + 1 + ([Instr.anchor .refOutWriteback] ++
      loadArgs (carrierSlot own) (byRefIndices m.params) ++ [Instr.anchor .ret]).length = resultAt m := by
    simp only [List.length_append, List.length_singleton, length_loadArgs, resultAt]
    omega
  rwa [position] at after

/-- Control takes the by-reference arguments from the carrier. -/
theorem steps_taking (shape : Injected m hub own injected) (arity : args.size = m.params.length)
    {carrier : ObjectRef} (fits : w.host.heap.size carrier = m.params.length + 1) :
    Steps method injected this (ownMark m hub own) (4 + 4 * (byRefIndices m.params).length)
      ((asking m own injected carrier args).push (.bool true)) w
      ⟨resultAt m, [], askingLocals own injected carrier,
        overriddenArgs m (w.host.heap.slots carrier) args⟩ w := by
  have code := shape.codeAt_answer
  have far : ownMark m hub own = resultAt m + 1 + 5 * m.returnsValue.toNat := ownMark_eq
  unfold resultAt at far ⊢
  have backCode : CodeAt injected.code (hubCallAt m + 3) (back m own) := code.tail.left
  have loads : CodeAt injected.code (hubCallAt m + 4)
      (loadArgs (carrierSlot own) (byRefIndices m.params)) := backCode.left.left.left.right
  have closing : CodeAt injected.code (hubCallAt m + 4 + 4 * (byRefIndices m.params).length)
      [.anchor .ret] := by
    have after := backCode.left.left.right
    rw [List.length_append, length_loadArgs, List.length_singleton] at after
    rwa [show hubCallAt m + 3 + (1 + 4 * (byRefIndices m.params).length) =
      hubCallAt m + 4 + 4 * (byRefIndices m.params).length by omega] at after
  have entry : Steps method injected this (ownMark m hub own) 3
      ((asking m own injected carrier args).push (.bool true)) w
      ⟨hubCallAt m + 4, [], askingLocals own injected carrier, args⟩ w := by
    refine .step (getElem?_vetoBranch shape) ?_ (perform_anchor _) ?_
    · change hubCallAt m + 1 < ownMark m hub own
      omega
    refine .step code.head ?_ (perform_brFalse _) ?_
    · change hubCallAt m + 2 < ownMark m hub own
      omega
    simp only [Value.truthy, if_true]
    exact .one backCode.head (by change hubCallAt m + 3 < _; omega) (perform_anchor _)
  have params := shape.params
  have fitsAll : ∀ i ∈ byRefIndices m.params,
      i < args.size ∧ i < w.host.heap.size carrier ∧ i < 0x10000 := by
    intro i member
    have inside := mem_byRefIndices member
    rw [arity, fits]
    omega
  have loaded : Steps method injected this (ownMark m hub own) _ _ w _ w :=
    steps_loadArgs loads fitsAll (getElem?_askingLocals shape carrier) (by omega)
  have leaving : Steps method injected this (ownMark m hub own) 1
      ⟨hubCallAt m + 4 + 4 * (byRefIndices m.params).length, [],
        askingLocals own injected carrier, overriddenArgs m (w.host.heap.slots carrier) args⟩ w
      ⟨hubCallAt m + 4 + 4 * (byRefIndices m.params).length + 1, [],
        askingLocals own injected carrier, overriddenArgs m (w.host.heap.slots carrier) args⟩ w :=
    .one closing.head (by dsimp only; omega) (perform_anchor _)
  have whole := (entry.trans loaded).trans leaving
  rwa [show hubCallAt m + 4 + 4 * (byRefIndices m.params).length + 1 =
      hubCallAt m + 5 + 4 * (byRefIndices m.params).length by omega,
    show 1 + (4 * (byRefIndices m.params).length + 3) =
      4 + 4 * (byRefIndices m.params).length by omega] at whole

/-- Control takes the result from the carrier, through the local for it. -/
theorem steps_result (method : Method) (this : Option ObjectRef) (args : Array Value)
    (shape : Injected m hub own injected) (wanted : m.returnsValue = true)
    {carrier : ObjectRef} (fits : w.host.heap.size carrier = m.params.length + 1) :
    ∃ locals, Steps method injected this (ownMark m hub own) 5
      ⟨resultAt m, [], askingLocals own injected carrier, args⟩ w
      ⟨resultAt m + 5, [(w.host.heap.slots carrier).getD m.params.length .null], locals, args⟩ w := by
  have far : ownMark m hub own = resultAt m + 1 + 5 * m.returnsValue.toNat := ownMark_eq
  have code := codeAt_resultCode shape
  have params := shape.params
  have room := shape.room
  unfold resultCode resultSlot at code
  simp only [wanted, Bool.toNat_true, if_true] at far code room
  have index : (Value.int (.ofNat m.params.length)).asNat? = some m.params.length :=
    asNat?_ofNat (by omega)
  have element : w.host.heap.get? carrier m.params.length =
      some ((w.host.heap.slots carrier).getD m.params.length .null) := by
    have inside : m.params.length < (w.host.heap.slots carrier).size := by
      change m.params.length < w.host.heap.size carrier
      omega
    unfold Heap.get?
    rw [Array.getD_eq_getD_getElem?, Array.getElem?_eq_getElem inside]
    rfl
  have slotNumber : (UInt16.ofNat (own.locals.size + 1)).toNat = own.locals.size + 1 :=
    UInt16.toNat_ofNat_of_lt' room
  have hasResult : (UInt16.ofNat (own.locals.size + 1)).toNat <
      (askingLocals own injected carrier).size := by
    unfold askingLocals
    rw [slotNumber, Array.size_setIfInBounds, Array.size_map, shape.size_locals, wanted,
      Bool.toNat_true]
    omega
  refine ⟨(askingLocals own injected carrier).setIfInBounds (own.locals.size + 1)
    ((w.host.heap.slots carrier).getD m.params.length .null), ?_⟩
  refine .step code.head (by dsimp only; omega) (perform_ldLoc (getElem?_askingLocals shape _)) ?_
  refine .step code.tail.head (by dsimp only; omega) (perform_ldInt _) ?_
  refine .step code.tail.tail.head (by dsimp only; omega) (perform_ldElem index element) ?_
  refine .step code.tail.tail.tail.head (by dsimp only; omega) (perform_stLoc hasResult) ?_
  refine .one code.tail.tail.tail.tail.head (by dsimp only; omega) ?_
  rw [slotNumber] at hasResult ⊢
  exact perform_ldLoc (by rw [slotNumber, Array.getElem?_setIfInBounds_self_of_lt hasResult])

/-- When a patch accepts, control stays before the own code until the method returns. -/
theorem steps_accepted (this : Option ObjectRef) (shape : Injected m hub own injected)
    (returns : method.returnsValue = m.returnsValue) (arity : args.size = m.params.length)
    {carrier : ObjectRef} (fits : w.host.heap.size carrier = m.params.length + 1) :
    ∃ n a, overrideCost m = n + 1 ∧
      Steps method injected this (ownMark m hub own) n
        ((asking m own injected carrier args).push (.bool true)) w a w ∧
      a.args = overriddenArgs m (w.host.heap.slots carrier) args ∧
      injected.code[a.pc]? = some .ret ∧ a.pc < ownMark m hub own ∧
      perform method this a .ret w =
        (.ok (.done (overriddenResult m (w.host.heap.slots carrier))), w) := by
  have far : ownMark m hub own = resultAt m + 1 + 5 * m.returnsValue.toNat := ownMark_eq
  have taken : Steps method injected this (ownMark m hub own) _ _ w _ w :=
    steps_taking shape arity fits
  have code := codeAt_resultCode shape
  unfold overrideCost overriddenResult
  unfold resultCode resultSlot at code
  cases wanted : m.returnsValue with
  | false =>
    simp only [wanted, Bool.toNat_false, Bool.false_eq_true, if_false, List.nil_append] at far code ⊢
    refine ⟨_, _, ?_, taken, rfl, code.head, ?_, perform_ret_nothing (returns.trans wanted)⟩
    · omega
    · dsimp only
      omega
  | true =>
    simp only [wanted, Bool.toNat_true, if_true] at far code ⊢
    obtain ⟨locals, given⟩ := steps_result method this
      (overriddenArgs m (w.host.heap.slots carrier) args) shape wanted fits
    have last : injected.code[resultAt m + 5]? = some .ret := code.right.head
    refine ⟨_, _, ?_, taken.trans given, rfl, last, ?_, perform_ret_value (returns.trans wanted)⟩
    · omega
    · dsimp only
      omega

/-- A method of which a patch took the place gives what the patch left in the carrier. -/
theorem runBody_accepted (shape : Injected m hub own injected)
    {call : Method → Option ObjectRef → Array Value → StateM (World ε) Completion}
    (returns : method.returnsValue = m.returnsValue) (arity : args.size = m.params.length)
    {carrier : ObjectRef} (fits : w.host.heap.size carrier = m.params.length + 1)
    (limit remaining : Nat) :
    runBody call limit method injected this (remaining + overrideCost m)
        ((asking m own injected carrier args).push (.bool true)) w =
      (⟨.returned (overriddenResult m (w.host.heap.slots carrier)),
        overriddenArgs m (w.host.heap.slots carrier) args⟩, w) := by
  obtain ⟨n, a, cost, steps, left, atReturn, _, performed⟩ :=
    steps_accepted this shape returns arity fits
  have split : remaining + overrideCost m = remaining + 1 + n := by omega
  rw [split, steps.runBody_eq, runBody_succ atReturn, performed, ← left]

end

end ScriptHost.Image

namespace ScriptHost

open Host Image

/-! ## Control before a position -/

variable {ε : Type} {ctx : Context ε} {method : Method} {this : Option ObjectRef} {bound nesting : Nat}

/-- Control stands before a position. -/
def Host.Moment.Before (bound : Nat) (moment : Moment ε) : Prop :=
  moment.activation.pc < bound

/-- A stretch stays before its bound, and what follows it may be taken to be its end. -/
theorem Host.Steps.always {body : Body} {n : Nat} {a b : Activation} {w after : World ε}
    (steps : Steps method body this bound n a w b after)
    (last : ∀ remaining, Always ctx (Moment.Before bound)
      ⟨nesting, method, body, this, remaining, b, after⟩) (remaining : Nat) :
    Always ctx (Moment.Before bound) ⟨nesting, method, body, this, remaining, a, w⟩ := by
  induction steps generalizing remaining with
  | refl => exact last remaining
  | step found below performed _ ih =>
    refine .intro below fun moment follows => ?_
    cases follows with
    | next found' _ performed' =>
      cases found.symm.trans found'
      cases performed.symm.trans performed'
      exact ih last _
    | resume found' _ performed' _ =>
      cases found.symm.trans found'
      cases performed.symm.trans performed'
    | enter found' _ performed' _ =>
      cases found.symm.trans found'
      cases performed.symm.trans performed'

namespace Image

variable {m : MethodDef} {hub : MethodToken} {own injected : Body} {consult : Method}
  {args : Array Value} {w : World ε}

/-- After the answer of a patch that accepts, control stays before the own code. -/
theorem always_accepted (this : Option ObjectRef) (shape : Injected m hub own injected)
    (returns : method.returnsValue = m.returnsValue) (arity : args.size = m.params.length)
    {carrier : ObjectRef} (fits : w.host.heap.size carrier = m.params.length + 1)
    (remaining : Nat) :
    Always ctx (Moment.Before (ownMark m hub own)) ⟨nesting, method, injected, this, remaining,
      (asking m own injected carrier args).push (.bool true), w⟩ := by
  obtain ⟨n, a, _, steps, _, atReturn, before, performed⟩ :=
    steps_accepted this shape returns arity fits
  refine steps.always (fun remaining => .intro before fun moment follows => ?_) remaining
  cases follows with
  | next found _ performed' =>
    cases atReturn.symm.trans found
    cases performed.symm.trans performed'
  | resume found _ performed' _ =>
    cases atReturn.symm.trans found
    cases performed.symm.trans performed'
  | enter found _ performed' _ =>
    cases atReturn.symm.trans found
    cases performed.symm.trans performed'

/-- If a patch accepts, control stays before the own code from the start on. -/
theorem always_asking (prepared : Prepared w.host.domain m hub own injected method consult)
    (hasThis : this.isSome = method.hasThis) (arity : args.size = method.params.length)
    {after : World ε} (accepted : consulted ctx m own injected method this args w.host.carrierRef
      (posed w method args) = (.ok true, after))
    (fits : after.host.heap.size w.host.carrierRef = m.params.length + 1) (remaining : Nat) :
    Always ctx (Moment.Before (ownMark m hub own))
      ⟨nesting + 1, method, injected, this, remaining, .start injected args, w⟩ := by
  have steps := steps_asking prepared hasThis arity w
  have atHub : injected.code[(calling m own injected this w.host.carrierRef args).pc]? =
      some (.call hub) := getElem?_hubCall prepared.shape
  have called := perform_hubCall this args prepared
  have answered : World.holding (waiting this (asking m own injected w.host.carrierRef args))
      (invoke ctx (nesting + 1) consult none (hubArgs m this w.host.carrierRef)) _ = _ :=
    holding_invoke_hub prepared arity
  rw [accepted] at answered
  have before : (calling m own injected this w.host.carrierRef args).pc < ownMark m hub own :=
    Nat.lt_trans (Nat.lt_add_of_pos_right Nat.two_pos) (hubCallAt_lt_ownMark m hub own)
  refine steps.always (fun remaining => .intro before fun moment follows => ?_) remaining
  cases follows with
  | next found _ performed =>
    cases atHub.symm.trans found
    cases called.symm.trans performed
  | resume found _ performed returned =>
    cases atHub.symm.trans found
    cases called.symm.trans performed
    cases answered.symm.trans returned
    exact always_accepted this prepared.shape prepared.returnsValue
      (arity.trans (congrArg List.length prepared.params)) fits _
  | enter found _ performed entered =>
    cases atHub.symm.trans found
    cases called.symm.trans performed
    cases entered with
    | start _ _ _ code => cases prepared.hubBody.symm.trans code

/-- If a patch accepts, no instruction of the own code is ever about to run. -/
theorem before_of_accepted {depth : Nat} {ref : Option ObjectRef} {v after : World ε}
    (prepared : Prepared v.host.domain m hub own injected method consult)
    (received : World.onHost (receiver method this) w = (.ok ref, v))
    (arity : args.size = method.params.length)
    (accepted : consulted ctx m own injected method ref args v.host.carrierRef
      (posed v method args) = (.ok true, after))
    (fits : after.host.heap.size v.host.carrierRef = m.params.length + 1) {moment : Moment ε}
    (reaches : Reaches ctx (depth + 2) method this args w moment) :
    moment.activation.pc < ownMark m hub own := by
  refine Reaches.of_always (P := Moment.Before (ownMark m hub own)) (fun first entered => ?_) reaches
  cases entered with
  | start nested _ received' code =>
    cases received.symm.trans received'
    cases prepared.code.symm.trans code
    cases Nat.succ.inj nested
    exact always_asking prepared (isSome_of_receiver (congrArg Prod.fst received)) arity accepted
      fits _

end Image

end ScriptHost
