import ScriptHost.Proofs.Host.Carrier
import ScriptHost.Proofs.Host.Instructions
import ScriptHost.Proofs.Host.Stretch
import ScriptHost.Proofs.Image.Prologue
import ScriptHost.Proofs.Text.Shown
/-!
Running a prologue up to the answer of the hub: the arguments go into a new carrier, the hub is
asked, and the answer decides where control goes.
-/
namespace ScriptHost.Image

open Host

variable {ε : Type}

/-! ## Positions -/

theorem length_storeArgs (carrier : UInt16) (indices : List Nat) :
    (storeArgs carrier indices).length = 4 * indices.length := by
  induction indices with
  | nil => rfl
  | cons i rest ih =>
    have unfolded : storeArgs carrier (i :: rest) =
        [.ldLoc carrier, ldNat i, .ldArg (.ofNat i), .stElem] ++ storeArgs carrier rest := rfl
    rw [unfolded, List.length_append, ih, List.length_cons]
    simp only [List.length_cons, List.length_nil]
    omega

theorem length_loadArgs (carrier : UInt16) (indices : List Nat) :
    (loadArgs carrier indices).length = 4 * indices.length := by
  induction indices with
  | nil => rfl
  | cons i rest ih =>
    have unfolded : loadArgs carrier (i :: rest) =
        [.ldLoc carrier, ldNat i, .ldElem, .stArg (.ofNat i)] ++ loadArgs carrier rest := rfl
    rw [unfolded, List.length_append, ih, List.length_cons]
    simp only [List.length_cons, List.length_nil]
    omega

variable (m : MethodDef) (hub : MethodToken) (own : Body)

/-- Where the call of the hub stands in a prologue. -/
def hubCallAt : Nat :=
  9 + 4 * m.params.length

theorem length_front : (front m hub own).length = hubCallAt m + 2 := by
  simp only [front, question, hubCallAt, List.length_append, List.length_cons, List.length_nil,
    length_storeArgs, List.length_range]
  omega

theorem length_byRefIndices : (byRefIndices m.params).length ≤ m.params.length := by
  unfold byRefIndices
  rw [List.length_map]
  exact Nat.le_trans (List.length_filter_le _ _) (by simp)

theorem length_back :
    (back m own).length = 3 + 4 * (byRefIndices m.params).length + 5 * m.returnsValue.toNat := by
  unfold back patchedReturn resultSlot
  cases m.returnsValue <;> simp [length_loadArgs] <;> omega

theorem hubCallAt_lt_ownMark : hubCallAt m + 2 < ownMark m hub own := by
  unfold ownMark
  rw [length_front]
  omega

theorem length_prologue : (prologue m hub own).length = ownMark m hub own + 1 := by
  simp only [prologue, ownMark, List.length_append, List.length_cons, List.length_nil]

/-! ## Methods with a prologue -/

/-- A method of a domain that was injected, together with the hub that it asks. -/
structure Prepared (d : Domain) (m : MethodDef) (hub : MethodToken) (own injected : Body)
    (method consult : Method) : Prop where
  shape : Injected m hub own injected
  code : method.body = .code injected
  signature : method.signature = m.signature
  kind : method.kind = m.kind
  params : method.params = m.params
  returnsValue : method.returnsValue = m.returnsValue
  ret : m.returnsValue = true → method.ret = m.ret
  known : d.method? m.token = some method
  hubKnown : d.method? hub = some consult
  hubBody : consult.body = .patchHub
  hubKind : consult.kind = .static
  hubParams : consult.params.length = 4
  hubReturns : consult.returnsValue = true

variable {m hub own}

/-- A prologue is short enough for its branches. -/
theorem ownMark_lt (params : m.params.length ≤ 0x10000) : ownMark m hub own + 1 < 0x100000000 := by
  have byRef := length_byRefIndices m
  have value : m.returnsValue.toNat ≤ 1 := Bool.toNat_le _
  unfold ownMark
  rw [length_front, length_back]
  unfold hubCallAt
  omega

namespace Injected

variable {injected : Body} (shape : Injected m hub own injected)
include shape

theorem codeAt : CodeAt injected.code 0 (prologue m hub own) := by
  rw [shape.code]
  exact .of_append _ _

/-- The code that asks the hub. -/
theorem codeAt_question : CodeAt injected.code (4 + 4 * m.params.length) [.anchor .hubCall,
    .ldStr m.signature, .ldToken m.token, if m.kind = .static then .ldNull else .ldThis,
    .ldLoc (carrierSlot own), .call hub, .anchor .vetoBranch] := by
  have code : CodeAt injected.code 0 (front m hub own) := shape.codeAt.left.left.left
  have after := code.right
  rw [List.length_append, length_storeArgs, List.length_range, Nat.zero_add] at after
  exact after

/-- The code behind the question. -/
theorem codeAt_answer : CodeAt injected.code (hubCallAt m + 2)
    (.brFalse (.ofNat (ownMark m hub own)) :: (back m own ++ [.anchor .ownCode])) := by
  have code := shape.codeAt
  unfold prologue at code
  rw [List.append_assoc, List.append_assoc] at code
  have after := code.right
  rw [length_front, Nat.zero_add] at after
  exact after

theorem toNat_carrierSlot : (carrierSlot own).toNat = own.locals.size := by
  have room := shape.room
  exact UInt16.toNat_ofNat_of_lt' (Nat.lt_of_le_of_lt (Nat.le_add_right _ _) room)

theorem toNat_ownMark : (UInt32.ofNat (ownMark m hub own)).toNat = ownMark m hub own :=
  UInt32.toNat_ofNat_of_lt' (Nat.lt_of_succ_lt (ownMark_lt shape.params))

theorem toNat_shift : (Image.shift m hub own).toNat = ownMark m hub own + 1 :=
  UInt32.toNat_ofNat_of_lt' (ownMark_lt shape.params)

theorem size_locals : injected.locals.size = own.locals.size + 1 + m.returnsValue.toNat := by
  rw [shape.locals]
  unfold injectedLocals
  cases m.returnsValue <;> simp

end Injected

/-! ## Values in a prologue -/

/-- A whole number is read back as it was written. -/
theorem asNat?_int {i : Int64} {n : Nat} (value : i.toInt = n) : (Value.int i).asNat? = some n := by
  have notNegative : ¬ i < 0 := by
    rw [Int64.lt_iff_toInt_lt, value]
    simp
  simp only [Value.asNat?, Value.asInt64?, Option.bind_some, if_neg notNegative, value,
    Int.toNat_natCast]

theorem asNat?_ofNat {n : Nat} (small : n < 0x8000000000000000) : (Value.int (.ofNat n)).asNat? = some n :=
  asNat?_int (Int64.toInt_ofNat_of_lt small)

theorem asNat?_token (t : MethodToken) :
    (Value.int t.id.toUInt64.toInt64).asNat? = some t.id.toNat := by
  have small : t.id.toNat < 0x100000000 := t.id.toNat_lt
  have same : t.id.toUInt64.toInt64 = Int64.ofNat t.id.toNat := by
    rw [← UInt64.toInt64_ofNat']
    congr 1
    exact UInt64.toNat_inj.1 (by simp)
  exact asNat?_int (by rw [same, Int64.toInt_ofNat_of_lt (by omega)])

/-- What a prologue hands the hub in place of the receiver. -/
def targetValue (this : Option ObjectRef) : Value :=
  (this.map Value.object).getD .null

/-- What a prologue hands the hub. -/
def hubArgs (m : MethodDef) (this : Option ObjectRef) (carrier : ObjectRef) : Array Value :=
  #[.text m.signature, .int m.token.id.toUInt64.toInt64, targetValue this, .object carrier]

/-- What the hub understands. -/
theorem ofArgs_hubArgs (m : MethodDef) (this : Option ObjectRef) (carrier : ObjectRef) :
    HubQuery.ofArgs (hubArgs m this carrier) = .ok ⟨m.signature, m.token, this, carrier⟩ := by
  have small : m.token.id.toNat < 0x100000000 := m.token.id.toNat_lt
  unfold HubQuery.ofArgs hubArgs
  simp only [Value.text, Value.asBytes?, Value.asObject?, asNat?_token, if_pos small, Option.elim,
    bind, Except.bind, pure, Except.pure, Text.shown_toUTF8, UInt32.ofNat_toNat]
  cases this <;> rfl

/-! ## Up to the call of the hub -/

/-- The locals of an injected body once the carrier is made. -/
def askingLocals (own injected : Body) (carrier : ObjectRef) : Array Value :=
  (injected.locals.map Value.defaultFor).setIfInBounds own.locals.size (.object carrier)

section

variable {method : Method} {body : Body} {this : Option ObjectRef} {bound : Nat}

/-- Storing arguments in the carrier. -/
theorem steps_storeArgs {pc : Nat} {slot : UInt16} {indices : List Nat} {locals args : Array Value}
    {values : Array Value} {w : World ε} (s : State)
    (code : CodeAt body.code pc (storeArgs slot indices))
    (fits : ∀ i ∈ indices, i < args.size ∧ i < values.size ∧ i < 0x10000)
    (carrier : locals[slot.toNat]? = some (.object s.carrierRef))
    (below : pc + 4 * indices.length ≤ bound) :
    Steps method body this bound (4 * indices.length) ⟨pc, [], locals, args⟩
      { w with host := s.withCarrier values } ⟨pc + 4 * indices.length, [], locals, args⟩
      { w with host := s.withCarrier (fill args indices values) } := by
  induction indices generalizing pc values with
  | nil => exact .refl _ _
  | cons i rest ih =>
    obtain ⟨inArgs, inCarrier, small⟩ := fits i List.mem_cons_self
    rw [List.length_cons] at below ⊢
    have block : CodeAt body.code pc
        ([.ldLoc slot, ldNat i, .ldArg (.ofNat i), .stElem] ++ storeArgs slot rest) := code
    have instrs := block.left
    have slotNumber : (UInt16.ofNat i).toNat = i := UInt16.toNat_ofNat_of_lt' small
    have argument : args[(UInt16.ofNat i).toNat]? = some (args.getD i .null) := by
      rw [slotNumber, Array.getD_eq_getD_getElem?, Array.getElem?_eq_getElem inArgs]
      rfl
    have index : (Value.int (.ofNat i)).asNat? = some i := asNat?_ofNat (by omega)
    have place : i < ({ w with host := s.withCarrier values } : World ε).host.heap.size
        s.carrierRef := by simpa using inCarrier
    have stored := congrArg Prod.snd (s.setSlot_withCarrier values (args.getD i .null) inCarrier)
    have one : Steps method body this bound 4 ⟨pc, [], locals, args⟩
        { w with host := s.withCarrier values } ⟨pc + 4, [], locals, args⟩
        { w with host := s.withCarrier (values.setIfInBounds i (args.getD i .null)) } := by
      refine .step instrs.head (by dsimp only; omega) (perform_ldLoc carrier) ?_
      refine .step instrs.tail.head (by dsimp only; omega) (perform_ldInt _) ?_
      refine .step instrs.tail.tail.head (by dsimp only; omega) (perform_ldArg argument) ?_
      refine .one instrs.tail.tail.tail.head (by dsimp only; omega) ?_
      rw [perform_stElem index place, stored]
    have others : ∀ j ∈ rest, j < args.size ∧
        j < (values.setIfInBounds i (args.getD i .null)).size ∧ j < 0x10000 := by
      intro j member
      rw [Array.size_setIfInBounds]
      exact fits j (List.mem_cons_of_mem _ member)
    have whole := one.trans (ih block.right others (by omega))
    have position : pc + 4 + 4 * rest.length = pc + 4 * (rest.length + 1) := by omega
    have count : 4 * rest.length + 4 = 4 * (rest.length + 1) := by omega
    rw [position, count] at whole
    exact whole

end

section

variable {d : Domain} {injected : Body} {method consult : Method} {this : Option ObjectRef}

/-- The carrier is where the prologue looks for it. -/
theorem getElem?_askingLocals (shape : Injected m hub own injected) (carrier : ObjectRef) :
    (askingLocals own injected carrier)[(carrierSlot own).toNat]? = some (.object carrier) := by
  have room : own.locals.size < (injected.locals.map Value.defaultFor).size := by
    rw [Array.size_map, shape.size_locals]
    omega
  rw [shape.toNat_carrierSlot]
  exact Array.getElem?_setIfInBounds_self_of_lt room

/-- The operands of the call of the hub, top first. -/
def hubOperands (m : MethodDef) (this : Option ObjectRef) (carrier : ObjectRef) : List Value :=
  [.object carrier, targetValue this, .int m.token.id.toUInt64.toInt64, .text m.signature]

/-- The activation of an injected body that calls the hub. -/
def calling (m : MethodDef) (own injected : Body) (this : Option ObjectRef) (carrier : ObjectRef)
    (args : Array Value) : Activation :=
  ⟨hubCallAt m, hubOperands m this carrier, askingLocals own injected carrier, args⟩

/-- The receiver, or null in its place. -/
theorem perform_target {pc : Nat} {stack : List Value} {locals args : Array Value} {w : World ε}
    (prepared : Prepared d m hub own injected method consult)
    (hasThis : this.isSome = method.hasThis) :
    perform method this ⟨pc, stack, locals, args⟩
        (if m.kind = .static then .ldNull else .ldThis) w =
      (.ok (.next ⟨pc + 1, targetValue this :: stack, locals, args⟩), w) := by
  unfold Method.hasThis at hasThis
  rw [prepared.kind] at hasThis
  cases this with
  | none =>
    have isStatic : m.kind = .static := by simpa using hasThis
    rw [if_pos isStatic]
    rfl
  | some ref =>
    have notStatic : m.kind ≠ .static := by simpa using hasThis
    rw [if_neg notStatic]
    rfl

/-- What stands before the call of the hub runs and leaves the operands for that call. -/
theorem steps_asking (prepared : Prepared d m hub own injected method consult)
    (hasThis : this.isSome = method.hasThis) {args : Array Value}
    (arity : args.size = method.params.length) (w : World ε) :
    Steps method injected this (ownMark m hub own) (hubCallAt m)
      (.start injected args) w
      (calling m own injected this w.host.carrierRef args)
      { w with host := w.host.withCarrier (args.push .null) } := by
  have shape := prepared.shape
  have code : CodeAt injected.code 0 (front m hub own) := shape.codeAt.left.left.left
  have far := hubCallAt_lt_ownMark m hub own
  have size : args.size = m.params.length := by rw [arity, prepared.params]
  have params := shape.params
  unfold calling
  unfold hubCallAt at far ⊢
  generalize last : ownMark m hub own = bound at far ⊢
  have head : CodeAt injected.code 0 [.anchor .argMarshal, ldNat (m.params.length + 1),
      .newArr .object, .stLoc (carrierSlot own)] := code.left.left
  have stores : CodeAt injected.code 4
      (storeArgs (carrierSlot own) (List.range m.params.length)) := code.left.right
  have tail := shape.codeAt_question
  have slot := shape.toNat_carrierSlot
  have room : (carrierSlot own).toNat < (injected.locals.map Value.defaultFor).size := by
    rw [Array.size_map, shape.size_locals, slot]
    omega
  have carrierThere := getElem?_askingLocals shape w.host.carrierRef
  have length : (Value.int (.ofNat (m.params.length + 1))).asNat? = some (m.params.length + 1) :=
    asNat?_ofNat (by omega)
  have made : Steps method injected this bound 4 (.start injected args) w
      ⟨4, [], askingLocals own injected w.host.carrierRef, args⟩
      { w with host := w.host.withCarrier (.replicate (m.params.length + 1) .null) } := by
    refine .step head.head (by dsimp only [Activation.start]; omega) (perform_anchor _) ?_
    refine .step head.tail.head (by dsimp only; omega) (perform_ldInt _) ?_
    refine .step head.tail.tail.head (by dsimp only; omega) (perform_newArr length) ?_
    refine .one head.tail.tail.tail.head (by dsimp only; omega) ?_
    rw [perform_stLoc room, State.newArray_object, slot]
    rfl
  have stored : Steps method injected this bound (4 * (List.range m.params.length).length)
      ⟨4, [], askingLocals own injected w.host.carrierRef, args⟩
      { w with host := w.host.withCarrier (.replicate (m.params.length + 1) .null) }
      ⟨4 + 4 * (List.range m.params.length).length, [],
        askingLocals own injected w.host.carrierRef, args⟩
      { w with host := w.host.withCarrier (fill args (List.range m.params.length)
        (.replicate (m.params.length + 1) .null)) } := by
    refine steps_storeArgs w.host stores (fun i member => ?_) carrierThere ?_
    · have inRange := List.mem_range.1 member
      rw [Array.size_replicate]
      omega
    · rw [List.length_range]
      omega
  rw [List.length_range, ← size, fill_range, size] at stored
  have target : Steps method injected this bound 5
      ⟨4 + 4 * m.params.length, [], askingLocals own injected w.host.carrierRef, args⟩
      { w with host := w.host.withCarrier (args.push .null) }
      ⟨9 + 4 * m.params.length, hubOperands m this w.host.carrierRef,
        askingLocals own injected w.host.carrierRef, args⟩
      { w with host := w.host.withCarrier (args.push .null) } := by
    refine .step tail.head (by dsimp only; omega) (perform_anchor _) ?_
    refine .step tail.tail.head (by dsimp only; omega) (perform_ldStr _) ?_
    refine .step tail.tail.tail.head (by dsimp only; omega) (perform_ldToken _) ?_
    refine .step tail.tail.tail.tail.head (by dsimp only; omega) (perform_target prepared hasThis) ?_
    refine .one tail.tail.tail.tail.tail.head (by dsimp only; omega) ?_
    rw [perform_ldLoc carrierThere]
    have position : 4 + 4 * m.params.length + 1 + 1 + 1 + 1 + 1 = 9 + 4 * m.params.length := by omega
    rw [position]
    rfl
  have whole := (made.trans stored).trans target
  have count : 5 + (4 * m.params.length + 4) = 9 + 4 * m.params.length := by omega
  rw [count] at whole
  exact whole

end

end ScriptHost.Image
