import ScriptHost.Proofs.Engine.Delivery
import ScriptHost.Proofs.Image.Answer
import ScriptHost.Proofs.Session.Asking
import ScriptHost.Proofs.Session.Interpreter
/-!
Methods of which patches take the place. The results of the patch go to the result and to the
by-reference arguments in the order of their declaration, and scripts receive them in that order.
-/
namespace ScriptHost

open Host Image

/-! ## Slots and parameters -/

/-- The types of what a patch gives for a method: its result, and its by-reference parameters. -/
def Host.Method.givenTypes (method : Method) : List ValueType :=
  (if method.returnsValue then [method.ret] else []) ++
    (method.params.filter (·.isByRef)).map (·.type)

/-- The by-reference parameters with their positions from `k` on. -/
def byRefFrom (k : Nat) (params : List Param) : List Nat :=
  ((params.zipIdx k).filter (·.1.isByRef)).map (·.2)

theorem byRefFrom_cons (k : Nat) (p : Param) (params : List Param) :
    byRefFrom k (p :: params) =
      if p.isByRef then k :: byRefFrom (k + 1) params else byRefFrom (k + 1) params := by
  unfold byRefFrom
  rw [List.zipIdx_cons, List.filter_cons]
  dsimp only
  split <;> rfl

theorem le_of_mem_byRefFrom {k i : Nat} {params : List Param} (member : i ∈ byRefFrom k params) :
    k ≤ i := by
  obtain ⟨⟨p, j⟩, inside, rfl⟩ := List.mem_map.1 member
  exact List.le_snd_of_mem_zipIdx (List.mem_filter.1 inside).1

theorem nodup_byRefFrom (k : Nat) (params : List Param) : (byRefFrom k params).Nodup := by
  have positions : ((params.zipIdx k).map (·.2)).Nodup := by
    rw [List.zipIdx_map_snd]
    exact List.nodup_range'
  exact positions.sublist (List.filter_sublist.map _)

theorem length_byRefFrom (k : Nat) (params : List Param) :
    (byRefFrom k params).length = (params.filter (·.isByRef)).length := by
  induction params generalizing k with
  | nil => rfl
  | cons p params ih =>
    rw [byRefFrom_cons, List.filter_cons]
    split
    · rw [List.length_cons, ih, List.length_cons]
    · exact ih _

theorem patchedSlots_eq (r : PatchRequest) :
    (Run.patchedSlots r).map (·.2) = r.method.givenTypes ∧
      (Run.patchedSlots r).map (·.1) =
        (if r.method.returnsValue then [r.method.params.length] else []) ++
          byRefIndices r.method.params := by
  have received : ∀ (params : List Param) (k : Nat),
      let slots := (params.zipIdx k).filterMap fun entry =>
        if entry.1.isByRef then some (entry.2, entry.1.type) else none
      slots.map (·.2) = (params.filter (·.isByRef)).map (·.type) ∧
        slots.map (·.1) = byRefFrom k params := by
    intro params
    induction params with
    | nil => exact fun _ => ⟨rfl, rfl⟩
    | cons p params ih =>
      intro k
      obtain ⟨types, slots⟩ := ih (k + 1)
      rw [byRefFrom_cons, List.zipIdx_cons, List.filterMap_cons, List.filter_cons]
      dsimp only
      cases p.isByRef with
      | false => exact ⟨types, slots⟩
      | true => exact ⟨congrArg (p.type :: ·) types, congrArg (k :: ·) slots⟩
  obtain ⟨types, slots⟩ := received r.method.params 0
  unfold Run.patchedSlots Method.givenTypes
  cases r.method.returnsValue with
  | false => exact ⟨types, slots⟩
  | true => exact ⟨congrArg (r.method.ret :: ·) types, congrArg (r.method.params.length :: ·) slots⟩

/-- The positions that a patch fills differ from each other. -/
theorem nodup_patchedSlots (r : PatchRequest) : ((Run.patchedSlots r).map (·.1)).Nodup := by
  rw [(patchedSlots_eq r).2]
  refine List.Nodup.append ?_ (nodup_byRefFrom 0 r.method.params) ?_
  · split
    · exact List.nodup_singleton _
    · exact List.nodup_nil
  · intro i first member
    have inside := mem_byRefIndices member
    split at first
    · cases List.mem_singleton.1 first
      exact Nat.lt_irrefl _ inside
    · cases first

/-! ## Writing results back -/

/-- Arguments after a call that gave some values for the by-reference parameters. -/
def writeBack : List Param → (args given : List Value) → List Value
  | p :: params, v :: args, given =>
    if p.isByRef then given.headD .null :: writeBack params args given.tail
    else v :: writeBack params args given
  | _, args, _ => args

theorem length_writeBack (params : List Param) (args given : List Value) :
    (writeBack params args given).length = args.length := by
  induction params generalizing args given with
  | nil => rfl
  | cons p params ih =>
    cases args with
    | nil => rfl
    | cons v args =>
      unfold writeBack
      split <;> rw [List.length_cons, ih, List.length_cons]

/-- The values for by-reference parameters are found at the positions of those. -/
theorem getElem?_writeBack {params : List Param} {args given : List Value} {k : Nat}
    {f : Nat → Value} (arity : args.length = params.length)
    (enough : given.length = (byRefFrom k params).length)
    (agree : ∀ entry ∈ (byRefFrom k params).zip given, f entry.1 = entry.2) {i : Nat}
    (inBounds : i < args.length) :
    (writeBack params args given)[i]? =
      if k + i ∈ byRefFrom k params then some (f (k + i)) else args[i]? := by
  induction params generalizing args given k i with
  | nil => simp [writeBack, byRefFrom]
  | cons p params ih =>
    cases args with
    | nil => cases inBounds
    | cons v args =>
      have shorter : args.length = params.length := Nat.succ.inj arity
      have shift : ∀ i, k + (i + 1) = k + 1 + i := fun i => by omega
      unfold writeBack
      cases byRef : p.isByRef with
      | false =>
        rw [byRefFrom_cons, byRef] at enough agree
        simp only [byRefFrom_cons, byRef, Bool.false_eq_true, if_false] at enough agree ⊢
        cases i with
        | zero =>
          have notThere : k + 0 ∉ byRefFrom (k + 1) params := fun member =>
            Nat.not_succ_le_self k (le_of_mem_byRefFrom member)
          rw [if_neg notThere]
          rfl
        | succ i =>
          rw [shift i]
          exact ih shorter enough agree (Nat.lt_of_succ_lt_succ inBounds)
      | true =>
        simp only [byRefFrom_cons, byRef, if_true] at enough agree ⊢
        cases given with
        | nil => cases enough
        | cons u given =>
          cases i with
          | zero =>
            have first : f k = u := agree (k, u) List.mem_cons_self
            have member : k + 0 ∈ k :: byRefFrom (k + 1) params := List.mem_cons_self
            rw [if_pos member, Nat.add_zero, first]
            rfl
          | succ i =>
            have differs : k + (i + 1) ≠ k := by omega
            have others : ∀ entry ∈ (byRefFrom (k + 1) params).zip given, f entry.1 = entry.2 :=
              fun entry member => agree entry (List.mem_cons_of_mem _ member)
            have later := ih shorter (Nat.succ.inj enough) others (Nat.lt_of_succ_lt_succ inBounds)
            simp only [List.mem_cons, differs, false_or]
            rw [shift i]
            exact later

/-- By-reference parameters hold what was given for them, in order. -/
theorem received_writeBack {params : List Param} {args given : List Value}
    (arity : args.length = params.length)
    (enough : given.length = (params.filter (·.isByRef)).length) :
    ((params.zip (writeBack params args given)).filterMap fun (p, v) =>
      if p.isByRef then some v else none) = given := by
  induction params generalizing args given with
  | nil =>
    cases given with
    | nil => rfl
    | cons u given => cases enough
  | cons p params ih =>
    cases args with
    | nil => cases arity
    | cons v args =>
      have shorter : args.length = params.length := Nat.succ.inj arity
      unfold writeBack
      cases byRef : p.isByRef with
      | false =>
        rw [List.filter_cons, byRef] at enough
        simp only [Bool.false_eq_true, if_false] at enough ⊢
        rw [List.zip_cons_cons, List.filterMap_cons, byRef]
        exact ih shorter enough
      | true =>
        rw [List.filter_cons, byRef] at enough
        cases given with
        | nil => cases enough
        | cons u given =>
          have later := ih shorter (Nat.succ.inj enough)
          simp only [if_true]
          rw [List.zip_cons_cons, List.filterMap_cons, byRef]
          exact congrArg (u :: ·) later

/-! ## Accepting -/

variable {levels : Nat} {m : MethodDef} {hub : MethodToken} {own injected : Body}
  {method consult : Method} {this ref : Option ObjectRef} {args : Array Value}
  {w v x y z : World Engine} {f : Script.FunctionRef} {arguments results : List Script.Value}
  {given : List Value}

/-- The values that a patch gave for the by-reference parameters of a method. -/
def Host.Method.givenBack (method : Method) (given : List Value) : List Value :=
  if method.returnsValue then given.tail else given

theorem length_givenBack (enough : given.length = method.givenTypes.length) :
    (method.givenBack given).length = (method.params.filter (·.isByRef)).length := by
  unfold Method.givenTypes at enough
  unfold Method.givenBack
  cases wanted : method.returnsValue with
  | false =>
    rw [wanted] at enough
    simpa using enough
  | true =>
    rw [wanted] at enough
    simp only [if_true, List.length_append, List.length_singleton, List.length_map] at enough ⊢
    rw [List.length_tail]
    omega

theorem overriddenArgs_eq {slots : Array Value} (arity : args.size = m.params.length)
    (enough : given.length = (m.params.filter (·.isByRef)).length)
    (agree : ∀ entry ∈ (byRefIndices m.params).zip given, slots.getD entry.1 .null = entry.2) :
    overriddenArgs m slots args = (writeBack m.params args.toList given).toArray := by
  have enough' : given.length = (byRefFrom 0 m.params).length := by rw [enough, length_byRefFrom]
  unfold overriddenArgs
  apply Array.ext_getElem?
  intro i
  have listed : (writeBack m.params args.toList given).toArray[i]? =
      (writeBack m.params args.toList given)[i]? := List.getElem?_toArray
  rw [getElem?_fill, listed]
  by_cases inBounds : i < args.size
  · have listArity : args.toList.length = m.params.length := arity
    have written := getElem?_writeBack (f := fun i => slots.getD i .null) listArity enough' agree
      inBounds
    rw [Nat.zero_add] at written
    rw [written, Array.getElem?_toList]
    have same : (i ∈ byRefIndices m.params ∧ i < args.size) ↔ i ∈ byRefFrom 0 m.params :=
      and_iff_left inBounds
    simp only [same]
  · have outside : args.size ≤ i := Nat.le_of_not_lt inBounds
    have short : (writeBack m.params args.toList given).length ≤ i := by
      rwa [length_writeBack, Array.length_toList]
    rw [if_neg fun both => inBounds both.2, List.getElem?_eq_none short,
      Array.getElem?_eq_none outside]

/-- What the carrier of a call holds when a patch took the place of the method. -/
structure Delivered (method : Method) (args : Array Value) (given : List Value)
    (slots : Array Value) : Prop where
  size : slots.size = method.params.length + 1
  result : (if method.returnsValue then slots.getD method.params.length .null else .null) =
    if method.returnsValue then given.headD .null else .null
  received : ∀ entry ∈ (byRefIndices method.params).zip (method.givenBack given),
    slots.getD entry.1 .null = entry.2

/-- Storing what was converted delivers it. -/
theorem delivered_of_stored {r : PatchRequest} {values : Array Value}
    (length : given.length = r.method.givenTypes.length)
    (size : values.size = r.method.params.length + 1) :
    Delivered r.method args given ((((Run.patchedSlots r).map (·.1)).zip given).foldl
      (fun slots entry => slots.setIfInBounds entry.1 entry.2) values) := by
  have slots := (patchedSlots_eq r).2
  have count : ((Run.patchedSlots r).map (·.1)).length = given.length := by
    rw [List.length_map, length, ← (patchedSlots_eq r).1, List.length_map]
  have positions : (((Run.patchedSlots r).map (·.1)).zip given).map (·.1) =
      (Run.patchedSlots r).map (·.1) := List.map_fst_zip (Nat.le_of_eq count)
  have stays : ∀ entry ∈ ((Run.patchedSlots r).map (·.1)).zip given,
      entry.1 < values.size →
      ((((Run.patchedSlots r).map (·.1)).zip given).foldl
        (fun slots entry => slots.setIfInBounds entry.1 entry.2) values).getD entry.1 .null =
          entry.2 := by
    intro entry member inBounds
    have distinct : ((((Run.patchedSlots r).map (·.1)).zip given).map (·.1)).Nodup := by
      rw [positions]
      exact nodup_patchedSlots r
    rw [Array.getD_eq_getD_getElem?, Run.getElem?_stored member distinct inBounds]
    rfl
  have byRef : ∀ (others : List Value) (entry : Nat × Value),
      entry ∈ (byRefIndices r.method.params).zip others → entry.1 < values.size := by
    intro others entry member
    have inside := mem_byRefIndices (List.of_mem_zip member).1
    omega
  refine ⟨(Run.size_stored _ _).trans size, ?_, ?_⟩
  · cases wanted : r.method.returnsValue with
    | false => rfl
    | true =>
      rw [slots, wanted] at stays count ⊢
      cases given with
      | nil => cases count
      | cons v given =>
        exact stays (r.method.params.length, v) List.mem_cons_self (by rw [size]; exact Nat.lt_succ_self _)
  · intro entry member
    refine stays entry ?_ (byRef _ entry member)
    rw [slots]
    unfold Method.givenBack at member
    cases wanted : r.method.returnsValue with
    | false =>
      rw [wanted] at member
      exact member
    | true =>
      rw [slots, wanted] at count
      rw [wanted] at member
      cases given with
      | nil => cases count
      | cons v given => exact List.mem_cons_of_mem _ member

/-- A patch that accepts leaves its results in the carrier. -/
theorem consulted_accepts (limit : Nat) (arity : args.size = method.params.length)
    (fits : v.outer.script.Fits)
    (found : v.outer.bridge.patches.find? m.signature = some f)
    (made : (((ref.map Value.object).toList ++ passedArgs method.params args.toList).mapM Run.toScript :
        Run Bridge.Error _) (asked v m own injected method ref args) = (.ok arguments, x))
    (called : Run.callValue (Session.interpreter levels).function (.function f) arguments
      (Run.keeping arguments x) = (.ok results, y))
    (truthy : (results.headD .nil).truthy = true)
    (converted : Run.Converted method.givenTypes results.tail (Run.keeping results y) given z) :
    ∃ after, consulted (Run.patchedContext (Session.interpreter levels).function limit) m own injected
        method ref args v.host.carrierRef (posed v method args) = (.ok true, after) ∧
      Delivered method args given (after.host.heap.slots v.host.carrierRef) := by
  have proper : Proper (fun _ => False) (asked v m own injected method ref args) :=
    proper_of_fits fits
  have isOpen : (patchRequest m method ref v.host.carrierRef).Open fun _ => False :=
    ⟨fun _ _ hidden => hidden, fun hidden => hidden⟩
  obtain ⟨leads, _⟩ := Run.orderly_dispatchPatch (Session.orderly_interpreter levels) isOpen
    (asked v m own injected method ref args) proper
  obtain ⟨types, _⟩ := patchedSlots_eq (patchRequest m method ref v.host.carrierRef)
  have converted' : Run.Converted ((Run.patchedSlots
      (patchRequest m method ref v.host.carrierRef)).map (·.2)) results.tail
      (Run.keeping results y) given z := types ▸ converted
  have arguments := (patchArguments_asked m own injected ref v arity).trans made
  obtain ⟨last, accepted, host⟩ := Run.dispatchPatch_accepts found arguments called truthy
    converted'.stage
  rw [accepted] at leads
  have there : v.host.carrierRef.id < (asked v m own injected method ref args).host.heap.objects.size := by
    change v.host.heap.objects.size < (v.host.heap.objects.push _).size
    rw [Array.size_push]
    exact Nat.lt_succ_self _
  have size : last.host.heap.size v.host.carrierRef = method.params.length + 1 := by
    rw [leads.host.leads.size there]
    change ((asked v m own injected method ref args).host.heap.slots v.host.carrierRef).size = _
    rw [slots_asked, Array.size_push, arity]
  have slots : last.host.heap.slots v.host.carrierRef = _ :=
    (congrArg (fun s : State => s.heap.slots v.host.carrierRef) host).trans
      (Run.slots_storeAll _ _ _)
  have sizeBefore : (z.host.heap.slots v.host.carrierRef).size = method.params.length + 1 := by
    rw [← size, Heap.size, slots, Run.size_stored]
    rfl
  refine ⟨{ last with pins := last.pins.tail.tail }, ?_, ?_⟩
  · rw [consulted_eq]
    unfold Run.patchedContext
    dsimp only
    rw [accepted]
  · change Delivered method args given (last.host.heap.slots v.host.carrierRef)
    rw [slots]
    exact delivered_of_stored (r := patchRequest m method ref v.host.carrierRef)
      converted.length sizeBefore

/-! ## Calls -/

/-- What a call gives when a patch took the place of the method: a new object, or the first of the
values that the patch gave. -/
def Host.Method.answer (method : Method) (ref : Option ObjectRef) (given : List Value) : Value :=
  match method.kind, ref with
  | .constructor, some ref => .object ref
  | _, _ => if method.returnsValue then given.headD .null else .null

theorem ofCall_answer (method : Method) (ref : Option ObjectRef) (given : List Value)
    (left : Array Value) :
    Completion.ofCall method ref
        ⟨.returned (if method.returnsValue then given.headD .null else .null), left⟩ =
      ⟨.returned (method.answer ref given), left⟩ := by
  unfold Completion.ofCall Method.answer
  cases method.kind <;> cases ref <;> rfl

/-- A call of a method of which a patch takes the place, if the steps suffice. -/
theorem invoke_answers (ctx : Context Engine) (depth : Nat)
    (prepared : Prepared v.host.domain m hub own injected method consult)
    (arity : args.size = method.params.length)
    (received : World.onHost (receiver method this) w = (.ok ref, v)) {after : World Engine}
    (accepted : consulted ctx m own injected method ref args v.host.carrierRef
      (posed v method args) = (.ok true, after))
    (delivered : Delivered method args given (after.host.heap.slots v.host.carrierRef))
    (enough : given.length = method.givenTypes.length)
    (budget : hubCallAt m + 1 + overrideCost m ≤ ctx.stepLimit) :
    invoke ctx (depth + 2) method this args w =
      (⟨.returned (method.answer ref given),
        (writeBack method.params args.toList (method.givenBack given)).toArray⟩, after) := by
  obtain ⟨remaining, split⟩ := Nat.exists_eq_add_of_le' budget
  have limit : ctx.stepLimit = remaining + overrideCost m + (hubCallAt m + 1) := by omega
  have params := prepared.params
  have sameArity : args.size = m.params.length := arity.trans (congrArg List.length params)
  have size : after.host.heap.size v.host.carrierRef = m.params.length + 1 :=
    delivered.size.trans (by rw [params])
  have hasThis := isSome_of_receiver (congrArg Prod.fst received)
  have back : (method.givenBack given).length = (m.params.filter (·.isByRef)).length :=
    params ▸ length_givenBack enough
  have argsSame : overriddenArgs m (after.host.heap.slots v.host.carrierRef) args =
      (writeBack method.params args.toList (method.givenBack given)).toArray := by
    rw [params]
    refine overriddenArgs_eq sameArity back ?_
    rw [← params]
    exact delivered.received
  have resultSame : overriddenResult m (after.host.heap.slots v.host.carrierRef) =
      if method.returnsValue then given.headD .null else .null := by
    unfold overriddenResult
    rw [← prepared.returnsValue, ← params]
    exact delivered.result
  have ran := runBody_asking ctx depth prepared hasThis arity ctx.stepLimit
    (remaining + overrideCost m)
  rw [← limit, accepted] at ran
  dsimp only at ran
  rw [runBody_accepted prepared.shape prepared.returnsValue sameArity size, argsSame, resultSame] at ran
  rw [invoke_code ctx (depth + 1) prepared.code arity received, ran, ← ofCall_answer]

/-- What scripts receive from a call of a method of which a patch took the place: the new object if
there is one, and what the patch gave. -/
def Host.Method.receivedValues (method : Method) (ref : Option ObjectRef) (given : List Value) :
    List Value :=
  (if method.kind = .constructor then (ref.map Value.object).toList else []) ++ given

theorem marshalResults_answer (isSome : ref.isSome = method.hasThis)
    (arity : args.size = method.params.length)
    (enough : given.length = method.givenTypes.length) :
    Run.marshalResults method (method.answer ref given)
        (writeBack method.params args.toList (method.givenBack given)) =
      (method.receivedValues ref given).mapM Run.toScript := by
  have listArity : args.toList.length = method.params.length := arity
  have received := received_writeBack listArity (length_givenBack enough)
  unfold Run.marshalResults
  rw [received]
  unfold Method.receivedValues Method.answer
  by_cases makes : method.kind = .constructor
  · have noResult : method.returnsValue = false := by simp [Method.returnsValue, makes]
    have hasThis : method.hasThis = true := by simp [Method.hasThis, makes]
    obtain ⟨r, rfl⟩ := Option.isSome_iff_exists.1 (isSome.trans hasThis)
    simp only [Method.givenBack, noResult, makes]
    rfl
  · have ordinary : (method.kind == .constructor) = false := by simpa using makes
    rw [if_neg makes, ordinary, Bool.or_false, List.nil_append]
    cases wanted : method.returnsValue with
    | false => simp only [Method.givenBack, wanted, Bool.false_eq_true, if_false]
    | true =>
      unfold Method.givenTypes at enough
      rw [wanted] at enough
      cases given with
      | nil => simp at enough
      | cons v given =>
        simp only [Method.givenBack, wanted, if_true]
        cases kind : method.kind with
        | constructor => exact absurd kind makes
        | _ => rfl

/-- A call from a script of a method of which a patch takes the place. -/
theorem callMember_answers {type : TypeId} {member : String} {shape : Bridge.CallShape}
    {passed : List Script.Value} {w₀ w₁ last : World Engine} {run : Run.Runner}
    {depth : Nat} (deepest : callDepth = depth + 2)
    (resolved : Run.resolveMethod type member shape (passed.map (·.tag)) w₀ = (.ok method, w₁))
    (marshaled : Run.marshalArguments method.params passed w₁ = (.ok args.toList, w))
    (invoked : invoke (Run.patchedContext run w.outer.bridge.options.stepLimit) (depth + 2) method
        this args w =
      (⟨.returned (method.answer ref given),
        (writeBack method.params args.toList (method.givenBack given)).toArray⟩, last))
    (isSome : ref.isSome = method.hasThis) (arity : args.size = method.params.length)
    (enough : given.length = method.givenTypes.length) :
    Run.callMember run type member shape this passed w₀ =
      ((method.receivedValues ref given).mapM Run.toScript : Run Bridge.Error _) last := by
  have host : Run.invokeHost (Run.patchedContext run w.outer.bridge.options.stepLimit) method this
      args.toList w = (.ok (method.answer ref given,
        writeBack method.params args.toList (method.givenBack given)), last) := by
    rw [Run.invokeHost_apply, deepest, Array.toArray_toList, invoked]
  unfold Run.callMember
  rw [Run.bind_apply, resolved]
  dsimp only
  unfold Run.invokeMethod
  rw [Run.bind_apply, marshaled]
  dsimp only
  rw [Run.bridge_bind_apply, Run.bind_apply, Run.mapError_apply, host]
  dsimp only [Except.mapError]
  rw [marshalResults_answer isSome arity enough]

/-- Whatever function is the patch of a method of an injected image: it is called with the receiver
and with what callers pass. If it says yes and the results that follow can be converted, then no
instruction of the own code runs; the first of them is the result of the method if it has one, the
others are what its by-reference arguments hold, and scripts receive them in that order. -/
theorem overrides_of_inject {image after : Image} {report : InjectReport} {s loaded : State}
    {ids : List TypeId} (injection : image.inject = .ok (after, report))
    (load : after.load s = (.ok ids, loaded)) {m : MethodDef} (member : m ∈ image.methods)
    (patchable : m.attrs.patchable = true) :
    ∃ source own moved hub injected method consult, m.body = some source ∧
      after.remapBody s.domain.nextToken source = .ok own ∧
      moved = mapMethod (tokenMap after s.domain.nextToken) m source ∧
      Prepared loaded.domain moved hub own injected method consult ∧
      ∀ (levels limit depth : Nat) (this ref : Option ObjectRef) (args : Array Value)
        (w v x : World Engine) (f : Script.FunctionRef) (arguments : List Script.Value),
        loaded.domain.Evolves w.host.domain → w.outer.script.Fits →
        args.size = method.params.length →
        World.onHost (receiver method this) w = (.ok ref, v) →
        w.outer.bridge.patches.find? method.signature = some f →
        (((ref.map Value.object).toList ++ passedArgs method.params args.toList).mapM Run.toScript :
          Run Bridge.Error _) (asked v moved own injected method ref args) = (.ok arguments, x) →
        Run.runPatch (Session.interpreter levels).function f
            (patchRequest moved method ref v.host.carrierRef)
            (asked v moved own injected method ref args) =
          Run.holding arguments (fun _ => []) (do
            let results ← (Run.callValue (Session.interpreter levels).function (.function f)
              arguments).mapError .script
            Run.holding results (fun _ => [])
              (Run.accept (patchRequest moved method ref v.host.carrierRef) results)) x ∧
        ∀ (results : List Script.Value) (given : List Value) (y z : World Engine),
          Run.callValue (Session.interpreter levels).function (.function f) arguments
            (Run.keeping arguments x) = (.ok results, y) →
          (results.headD .nil).truthy = true →
          Run.Converted method.givenTypes results.tail (Run.keeping results y) given z →
          (∀ i type, method.givenTypes[i]? = some type → results.tail.getD i .nil = .nil →
            given[i]? = some (.defaultFor type)) ∧
          (∀ moment, Reaches (Run.patchedContext (Session.interpreter levels).function limit)
            (depth + 2) method this args w moment →
              moment.activation.pc < ownMark moved hub own) ∧
          (15 + 4 * m.params.length + 4 * (m.params.filter (·.isByRef)).length +
              5 * m.returnsValue.toNat ≤ limit →
            ∃ last, invoke (Run.patchedContext (Session.interpreter levels).function limit)
                (depth + 2) method this args w =
              (⟨.returned (method.answer ref given),
                (writeBack method.params args.toList (method.givenBack given)).toArray⟩, last) ∧
            ∀ (type : TypeId) (name : String) (shape : Bridge.CallShape)
              (passed : List Script.Value) (w₀ w₁ : World Engine), callDepth = depth + 2 →
              w.outer.bridge.options.stepLimit = limit →
              Run.resolveMethod type name shape (passed.map (·.tag)) w₀ = (.ok method, w₁) →
              Run.marshalArguments method.params passed w₁ = (.ok args.toList, w) →
              Run.callMember (Session.interpreter levels).function type name shape this passed w₀ =
                ((method.receivedValues ref given).mapM Run.toScript : Run Bridge.Error _) last) := by
  obtain ⟨source, hub, injected, method, consult, body, remapped, prepared⟩ :=
    prepared_of_load injection load member patchable
  refine ⟨source, _, _, hub, injected, method, consult, body, remapped, rfl, prepared, ?_⟩
  intro levels limit depth this ref args w v x f arguments grown fits arity received found made
  have outer : v.outer = w.outer := by
    rw [World.onHost_apply] at received
    exact (congrArg (fun r : _ × World Engine => r.2.outer) received).symm
  have changed := EvolvesTypes.onHost (evolves_receiver method this) w
  rw [received] at changed
  rw [prepared.signature, ← outer] at found
  rw [← outer] at fits
  have prepared' := prepared.mono (grown.trans changed).extends
  have given := (patchArguments_asked _ source injected ref v arity).trans made
  refine ⟨Run.runPatch_apply f given, fun results given y z called truthy converted => ?_⟩
  obtain ⟨answered, accepted, delivered⟩ :=
    consulted_accepts limit arity fits found made called truthy converted
  have size : answered.host.heap.size v.host.carrierRef = m.params.length + 1 :=
    delivered.size.trans (congrArg (fun params => List.length params + 1) prepared.params)
  refine ⟨fun i type found absent => converted.default found absent,
    fun moment reaches => before_of_accepted prepared' received arity accepted size reaches,
    fun budget => ?_⟩
  have byRef : (byRefIndices m.params).length = (m.params.filter (·.isByRef)).length :=
    length_byRefFrom 0 m.params
  have cost : hubCallAt (mapMethod (tokenMap after s.domain.nextToken) m source) + 1 +
      overrideCost (mapMethod (tokenMap after s.domain.nextToken) m source) ≤ limit := by
    change 9 + 4 * m.params.length + 1 + (5 + 4 * (byRefIndices m.params).length +
      5 * m.returnsValue.toNat) ≤ limit
    omega
  have invoked := invoke_answers (Run.patchedContext (Session.interpreter levels).function limit)
    depth prepared' arity received accepted delivered converted.length cost
  refine ⟨answered, invoked, fun type name shape passed w₀ w₁ deepest limits resolved marshaled => ?_⟩
  subst limits
  exact callMember_answers deepest resolved marshaled invoked
    (isSome_of_receiver (congrArg Prod.fst received)) arity converted.length

/-! ## A patch that accepts -/

/-- A function that says yes and gives two numbers. -/
def giving (x y : Float) : Script.FunctionRef where
  id := 0
  name := "giving"
  proto := none
  body := .block [{ action := .ret [.bool true, .number x, .number y] 3 }]

/-- A function that gives seven and eight. -/
def consent : Script.FunctionRef :=
  giving 7 8

/-- Scripts pass both numbers to it. -/
def consentArguments : List Script.Value :=
  [.number (Number.ofInt64 1), .number (Number.ofInt64 2)]

theorem callValue_consent (w : World Engine) (same : w.outer = (patchedWishes consent).outer) :
    ∃ v, Run.callValue (Session.interpreter 9).function (.function consent) consentArguments
      (Run.keeping consentArguments w) = (.ok [.bool true, .number 7, .number 8], v) := by
  obtain ⟨host, journal, pins, outer⟩ := w
  obtain rfl : outer = (patchedWishes consent).outer := same
  have shallow : 0 < 200 := by decide
  have room : 0 + 2 + 1 < 65536 := by decide
  exact Run.callValue_results (Nat.le_refl 0) shallow room rfl rfl

section

variable {moved : MethodDef} {g : MethodToken → MethodToken} {d : Domain}

theorem converted_consent (prepared : Prepared d moved hub own injected method consult)
    (same : moved = mapMethod g grant grantBody) (w : World Engine) :
    Run.Converted method.givenTypes [.number 7, .number 8] w [.int 7, .int 8] w := by
  have seven : narrow 7 .int64 = .ok (.int 7) := by decide +kernel
  have eight : narrow 8 .int64 = .ok (.int 8) := by decide +kernel
  have returns : method.returnsValue = true := by
    rw [prepared.returnsValue, same]
    rfl
  have ret : method.ret = .numeric .int64 := by
    rw [prepared.ret (by rw [same]; rfl), same]
    rfl
  have params : method.params = grant.params := by
    rw [prepared.params, same]
    rfl
  have types : method.givenTypes = [.numeric .int64, .numeric .int64] := by
    unfold Method.givenTypes
    rw [returns, ret, params]
    rfl
  have converts : ∀ (x : Float) (v : Value), narrow x .int64 = .ok v →
      Run.toHostSlot (.number x) (.numeric .int64) .output w = (.ok v, w) := by
    intro x v narrowed
    have read : Run.toHostSlot (.number x) (.numeric .int64) .output w =
        (Run.ofExcept (narrow x .int64) : Run Bridge.Error _) w := rfl
    rw [read, narrowed]
    rfl
  rw [types]
  exact .step (converts 7 (.int 7) seven) (.step (converts 8 (.int 8) eight) (.done [] w))

end

theorem passed_consent (params : method.params = grant.params) (w : World Engine) :
    ((((none : Option ObjectRef).map Value.object).toList ++
      passedArgs method.params [.int 1, .int 2]).mapM Run.toScript : Run Bridge.Error _) w =
        (.ok consentArguments, w) := by
  rw [params]
  rfl

/-- A patch that accepts gives the result and the by-reference argument. -/
theorem overrides_of_consent :
    ∃ method, (injectedWishes.load {}).2.domain.method? ⟨2⟩ = some method ∧
      (invoke (Run.patchedContext (Session.interpreter 9).function 32) 4 method none
        #[.int 1, .int 2] (patchedWishes consent)).1 = ⟨.returned (.int 7), #[.int 1, .int 8]⟩ := by
  obtain ⟨report, injection⟩ := inject_wishes
  obtain ⟨source, own, moved, hub, injected, method, consult, body, remapped, same, prepared,
    overrides⟩ := overrides_of_inject injection load_injectedWishes (m := grant) (by decide) rfl
  obtain rfl : grantBody = source := Option.some.inj body
  have named := prepared.known
  rw [same] at named
  change (injectedWishes.load {}).2.domain.method? (tokenMap injectedWishes _ ⟨2⟩) = _ at named
  rw [tokenMap_injectedWishes] at named
  have params : method.params = grant.params := by
    rw [prepared.params, same]
    rfl
  have kind : method.kind = .static := by
    rw [prepared.kind, same]
    rfl
  have arity : (#[.int 1, .int 2] : Array Value).size = method.params.length := by
    rw [params]
    rfl
  have found : (Table.insert {} grant.signature consent).find? method.signature = some consent := by
    rw [prepared.signature, same]
    rfl
  have fits : (patchedWishes consent).outer.script.Fits := Nat.le_refl 0
  obtain ⟨y, called⟩ := callValue_consent
    (asked (patchedWishes consent) moved own injected method none #[.int 1, .int 2]) rfl
  obtain ⟨_, answers⟩ := overrides 9 32 2 none none #[.int 1, .int 2] (patchedWishes consent)
    (patchedWishes consent) _ consent consentArguments .refl fits arity (receiver_static kind none _)
    found (passed_consent params _)
  obtain ⟨_, _, covered⟩ := answers _ [.int 7, .int 8] y _ called rfl
    (converted_consent prepared same _)
  obtain ⟨last, ran, _⟩ := covered (by decide)
  refine ⟨method, named, ?_⟩
  rw [ran]
  have returns : method.returnsValue = true := by
    rw [prepared.returnsValue, same]
    rfl
  simp only [Method.answer, Method.givenBack, kind, returns, params]
  rfl

/-- A patch that accepts, and a budget that covers the question but not the prologue: the method
ends with the exception for that all the same. -/
theorem invoke_short (depth : Nat) {ctx : Context Engine}
    (prepared : Prepared v.host.domain m hub own injected method consult)
    (arity : args.size = method.params.length)
    (received : World.onHost (receiver method this) w = (.ok ref, v)) {after : World Engine}
    (accepted : consulted ctx m own injected method ref args v.host.carrierRef
      (posed v method args) = (.ok true, after))
    (size : after.host.heap.size v.host.carrierRef = m.params.length + 1)
    (asks : hubCallAt m + 1 ≤ ctx.stepLimit)
    (short : ctx.stepLimit < hubCallAt m + 1 + overrideCost m) :
    (invoke ctx (depth + 2) method this args w).1.ending =
      .threw (.stepLimit ctx.stepLimit method.signature) := by
  obtain ⟨remaining, split⟩ := Nat.exists_eq_add_of_le' asks
  have sameArity : args.size = m.params.length :=
    arity.trans (congrArg List.length prepared.params)
  obtain ⟨n, a, cost, steps, _, atReturn, _, _⟩ :=
    steps_accepted ref prepared.shape prepared.returnsValue sameArity size
  have ran := runBody_asking ctx depth prepared
    (isSome_of_receiver (congrArg Prod.fst received)) arity ctx.stepLimit remaining
  rw [← split, accepted] at ran
  have few : remaining ≤ n := by omega
  have ended : (runBody (invoke ctx (depth + 1)) ctx.stepLimit method injected ref remaining
      ((asking m own injected v.host.carrierRef args).push (.bool true)) after).1.ending =
        .threw (.stepLimit ctx.stepLimit method.signature) := by
    rcases Nat.lt_or_eq_of_le few with less | same
    · exact steps.runBody_short less
    · have exactly : remaining = 0 + n := by omega
      rw [exactly, steps.runBody_eq, runBody_zero atReturn]
  rw [invoke_code ctx (depth + 1) prepared.code arity received, ran]
  exact Completion.threw_ofCall.2 ended

/-- Within a budget that covers the question only, a method may fail although its patch says yes and
gives values that can be converted. -/
theorem override_out_of_steps :
    ∃ method, (injectedWishes.load {}).2.domain.method? ⟨2⟩ = some method ∧
      (patchedWishes consent).outer.bridge.patches.find? method.signature = some consent ∧
      (∀ w : World Engine, w.outer = (patchedWishes consent).outer → ∃ v,
        Run.callValue (Session.interpreter 9).function (.function consent) consentArguments
          (Run.keeping consentArguments w) = (.ok [.bool true, .number 7, .number 8], v)) ∧
      (∀ w, Run.Converted method.givenTypes [.number 7, .number 8] w [.int 7, .int 8] w) ∧
      (invoke (Run.patchedContext (Session.interpreter 9).function 20) 4 method none
        #[.int 1, .int 2] (patchedWishes consent)).1.ending =
          .threw (.stepLimit 20 method.signature) := by
  obtain ⟨report, injection⟩ := inject_wishes
  obtain ⟨source, hub, injected, method, consult, body, _, prepared⟩ :=
    prepared_of_load injection load_injectedWishes (m := grant) (by decide) rfl
  obtain rfl : grantBody = source := Option.some.inj body
  have named := prepared.known
  change (injectedWishes.load {}).2.domain.method? (tokenMap injectedWishes _ ⟨2⟩) = _ at named
  rw [tokenMap_injectedWishes] at named
  have params : method.params = grant.params := prepared.params
  have kind : method.kind = .static := prepared.kind
  have arity : (#[.int 1, .int 2] : Array Value).size = method.params.length := by
    rw [params]
    rfl
  have found : (patchedWishes consent).outer.bridge.patches.find? method.signature = some consent := by
    rw [prepared.signature]
    rfl
  have fits : (patchedWishes consent).outer.script.Fits := Nat.le_refl 0
  refine ⟨method, named, found, callValue_consent, converted_consent prepared rfl, ?_⟩
  obtain ⟨y, called⟩ := callValue_consent (asked (patchedWishes consent) _ (mapBody
    (tokenMap injectedWishes _) grantBody) injected method none #[.int 1, .int 2]) rfl
  rw [prepared.signature] at found
  obtain ⟨after, accepted, delivered⟩ := consulted_accepts 20 arity fits found
    (passed_consent params _) called rfl (converted_consent prepared rfl _)
  have size : after.host.heap.size (patchedWishes consent).host.carrierRef =
      grant.params.length + 1 := delivered.size.trans (by rw [params])
  have prepared' : Prepared (patchedWishes consent).host.domain _ hub _ injected method consult :=
    prepared
  exact invoke_short 2 prepared' arity (receiver_static kind none _) accepted size (by decide)
    (by decide)

end ScriptHost
