import ScriptHost.Proofs.Engine.Answers
import ScriptHost.Proofs.Host.Closed
import ScriptHost.Proofs.Image.Answer
import ScriptHost.Proofs.Image.Injection
/-!
Whole worlds, and what patches are asked in them about a method that is about to run.
-/
namespace ScriptHost

open Host Image

/-! ## Whole worlds -/

theorem Engine.Sealed.anti {hidden hidden' : Nat → Prop} {e : Engine} (isSealed : e.Sealed hidden)
    (fewer : ∀ id, hidden' id → hidden id) : e.Sealed hidden' := by
  refine ⟨fun entry member => (isSealed.names entry member).anti fewer, ?_⟩
  intro slot member entry found
  have known := isSealed.registry slot member entry found
  cases entry with
  | strong ref | weak ref => exact ObjectRef.Open.anti known fewer
  | type id => trivial

/-- A world all of whose references are to objects that are there, and whose current frame starts on
the stack. -/
structure Whole (w : World Engine) : Prop where
  host : w.host.Closed
  engine : w.outer.Sealed w.host.Lacks
  fits : w.outer.script.Fits

/-- A world that is whole does not refer to the carrier that it makes next. -/
theorem Whole.proper_posed {w : World Engine} (whole : Whole w) (method : Method)
    {args : Array Value} (known : AllOpen w.host.Lacks args.toList) :
    Proper (· = w.host.carrierRef.id) (posed w method args) := by
  have fewer : ∀ id, id = w.host.carrierRef.id → w.host.Lacks id := fun id same =>
    Nat.le_of_eq same.symm
  have slots : AllOpen w.host.Lacks (args.push (resultDefault method)).toList := by
    rw [Array.toList_push]
    refine known.append (.cons ?_ .nil)
    unfold resultDefault
    split
    · exact Value.open_defaultFor _
    · trivial
  exact ⟨whole.host.sealed_withCarrier slots, whole.engine.anti fewer, whole.fits⟩

/-! ## Questions -/

/-- The locals that an injected body has besides those of its own code: the carrier, and the result
of the method if it has one. -/
def Image.prologueLocals (m : MethodDef) (carrier : ObjectRef) : Array Value :=
  #[.object carrier] ++ (if m.returnsValue then #[.defaultFor m.ret] else #[])

theorem Image.askingLocals_eq {m : MethodDef} {hub : MethodToken} {own injected : Body}
    (shape : Injected m hub own injected) (carrier : ObjectRef) :
    askingLocals own injected carrier =
      own.locals.map Value.defaultFor ++ prologueLocals m carrier := by
  have listed : injected.locals.map Value.defaultFor = own.locals.map Value.defaultFor ++
      (#[.defaultFor (.array .object)] ++ (if m.returnsValue then #[.defaultFor m.ret] else #[])) := by
    rw [shape.locals]
    unfold injectedLocals
    rw [Array.map_append, Array.map_push, ← Array.append_assoc, ← Array.push_eq_append]
    cases m.returnsValue <;> simp
  have size : (own.locals.map Value.defaultFor).size ≤ own.locals.size :=
    Nat.le_of_eq Array.size_map
  unfold askingLocals prologueLocals
  rw [listed, Array.setIfInBounds_append_right size, Array.size_map, Nat.sub_self,
    Array.setIfInBounds_append_left Nat.zero_lt_one]
  rfl

/-- What callers pass for the parameters of a method. -/
def Image.passedArgs (params : List Param) (args : List Value) : List Value :=
  (params.zip args).filterMap fun (p, v) => if p.isInput then some v else none

/-- The arguments that callers pass are found by the positions of their parameters. -/
theorem Image.passedArgs_eq {params : List Param} {args : List Value} {k : Nat} {f : Nat → Value}
    (same : ∀ i v, args[i]? = some v → f (k + i) = v) (arity : args.length = params.length) :
    ((params.zipIdx k).filterMap fun (p, i) => if p.isInput then some (f i) else none) =
      passedArgs params args := by
  induction params generalizing args k with
  | nil => rfl
  | cons p rest ih =>
    cases args with
    | nil => cases arity
    | cons v others =>
      have first : f k = v := same 0 v rfl
      have next : ∀ i u, others[i]? = some u → f (k + 1 + i) = u := by
        intro i u found
        rw [Nat.add_assoc, Nat.add_comm 1 i]
        exact same (i + 1) u found
      have later := ih next (Nat.succ.inj arity)
      unfold passedArgs at later ⊢
      rw [List.zipIdx_cons, List.filterMap_cons, List.zip_cons_cons, List.filterMap_cons, later]
      dsimp only
      rw [first]

variable (m : MethodDef) (own injected : Body) {method : Method} (this : Option ObjectRef)
  {args : Array Value} (w : World Engine)

/-- What a carrier holds when the patches are asked. -/
theorem slots_asked (method : Method) (args : Array Value) : (asked w m own injected method this args).host.heap.slots w.host.carrierRef =
    args.push (resultDefault method) :=
  w.host.slots_withCarrier _

/-- A patch gets the receiver, if there is one, and what callers pass. -/
theorem patchArguments_asked (arity : args.size = method.params.length) :
    Run.patchArguments (patchRequest m method this w.host.carrierRef)
        (asked w m own injected method this args) =
      (((this.map Value.object).toList ++ passedArgs method.params args.toList).mapM Run.toScript :
        Run Bridge.Error _) (asked w m own injected method this args) := by
  have read : Run.patchArguments (patchRequest m method this w.host.carrierRef)
        (asked w m own injected method this args) =
      (((this.map Value.object).toList ++ method.params.zipIdx.filterMap fun (p, i) =>
        if p.isInput then some (((asked w m own injected method this args).host.heap.slots
          w.host.carrierRef).getD i .null) else none).mapM Run.toScript : Run Bridge.Error _)
        (asked w m own injected method this args) := rfl
  have slot : ∀ i v, args.toList[i]? = some v →
      (args.push (resultDefault method)).getD (0 + i) .null = v := by
    intro i v found
    have inBounds : i < args.size := (List.getElem?_eq_some_iff.1 found).1
    rw [Nat.zero_add, Array.getD_eq_getD_getElem?, Array.getElem?_push,
      if_neg (Nat.ne_of_lt inBounds), ← Array.getElem?_toList, found]
    rfl
  have passed : (method.params.zipIdx.filterMap fun (p, i) =>
      if p.isInput then some ((args.push (resultDefault method)).getD i .null) else none) =
        passedArgs method.params args.toList :=
    passedArgs_eq (f := fun i => (args.push (resultDefault method)).getD i .null) slot arity
  rw [read, slots_asked, passed]

/-- A world with an injected method that has a patch. -/
def patchedWishes (f : Script.FunctionRef) : World Engine where
  host := (injectedWishes.load {}).2
  journal := #[]
  pins := []
  outer := { Engine.ofOptions {} with
    bridge := { options := {}, patches := Table.insert {} grant.signature f } }

end ScriptHost
