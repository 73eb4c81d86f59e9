import ScriptHost.Proofs.Engine.Members
import ScriptHost.Session.BridgeActions
import ScriptHost.Session.DomainActions
import ScriptHost.Session.StackActions
/-!
The actions of scripts are orderly if the functions are that they run. Those on the stack reach no
further down than their frame.
-/
namespace ScriptHost.Session

open Host (AllOpen ObjectRef TypeId)
open Run
open Script (Discipline Term Value)
open Script.State (Shares)

variable {α : Type} {hidden : Nat → Prop} {run : Runner} {d : Discipline}

/-! ## Terms -/

theorem orderly_need {P : α → Prop} (what : String) {found : Option α}
    (given : ∀ a, found = some a → P a) : Orderly hidden d P (need what found) := by
  cases found with
  | none => exact .fail _
  | some a => exact .pure (given a rfl)

theorem orderly_ofScript {P : α → Prop} {m : Run Script.Error α} (orderly : Orderly hidden d P m) :
    Orderly hidden d P (ofScript m) :=
  orderly.mapError _

theorem orderly_ofBridge {P : α → Prop} {m : Run Bridge.Error α}
    (orderly : Orderly hidden .still P m) : Orderly hidden d P (ofBridge m) :=
  (orderly.mapError _).of_still

theorem orderly_value (t : Term) : Orderly hidden d (fun _ => True) (value t) := by
  cases t with
  | var name => exact Orderly.engine.bind fun _ _ => orderly_need _ fun _ _ => trivial
  | argument i => exact Orderly.script.bind fun _ _ => .pure trivial
  | global name => exact Orderly.script.bind fun _ _ => .pure trivial
  | _ => exact .pure trivial

theorem orderly_values (terms : List Term) :
    Orderly hidden d (fun _ => True) (terms.mapM value) :=
  (Orderly.mapM fun t _ => orderly_value t).any

theorem orderly_function (t : Term) : Orderly hidden d (fun _ => True) (function t) :=
  (orderly_value t).bind fun _ _ => orderly_need _ fun _ _ => trivial

theorem orderly_handle (t : Script.HandleTerm) : Orderly hidden d (fun _ => True) (handle t) := by
  cases t with
  | word raw => exact .pure trivial
  | value t =>
    refine (orderly_value t).bind fun v _ => ?_
    exact Orderly.bind (orderly_need (P := fun _ => True) _ fun _ _ => trivial) fun _ _ =>
      .pure trivial

theorem orderly_typeId (t : Script.TypeTerm) : Orderly hidden d (fun _ => True) (typeId t) := by
  cases t with
  | named name => exact Orderly.domain.bind fun _ _ => orderly_need _ fun _ _ => trivial
  | id index => exact .pure trivial

theorem open_of_find? {e : Engine} (isSealed : e.Sealed hidden) {name : String} {ref : ObjectRef}
    (found : e.names.find? name = some ref) : ref.Open hidden := by
  obtain ⟨before, after, same, _⟩ := List.lookup_eq_some_iff.1 found
  refine isSealed.names (name, ref) ?_
  rw [same]
  exact List.mem_append_right _ List.mem_cons_self

theorem orderly_object (name : String) :
    Orderly hidden d (ObjectRef.Open hidden) (object name) :=
  Orderly.engine.bind fun _ isSealed => orderly_need _ fun _ => open_of_find? isSealed.1

theorem orderly_object? (name : Option String) :
    Orderly hidden d (fun this => ∀ ref, this = some ref → ref.Open hidden) (object? name) := by
  cases name with
  | none => exact .pure fun _ same => (nomatch same)
  | some name =>
    exact (orderly_object name).bind fun ref known =>
      .pure fun other same => Option.some.inj same ▸ known

theorem orderly_hostValue (t : Host.ValueTerm) :
    Orderly hidden d (Host.Value.Open hidden) (hostValue t) := by
  cases t with
  | literal v =>
    refine Orderly.engine.bind fun e _ => orderly_need _ fun u found => ?_
    cases found
    exact v.open_toValue
  | object name =>
    refine Orderly.engine.bind fun e isSealed => orderly_need _ fun u found => ?_
    obtain ⟨ref, there, rfl⟩ := Option.map_eq_some_iff.1 found
    exact open_of_find? isSealed.1 there

theorem orderly_hostValues (terms : List Host.ValueTerm) :
    Orderly hidden d (AllOpen hidden) (terms.mapM hostValue) :=
  Orderly.mapM fun t _ => orderly_hostValue t

theorem orderly_overload (type : TypeId) (name : String) (position : Nat) :
    Orderly hidden d (fun _ => True) (overload type name position) := by
  refine Orderly.domain.bind fun _ _ => ?_
  refine Orderly.bind (orderly_need (P := fun _ => True) _ fun _ _ => trivial) fun info _ => ?_
  exact orderly_need _ fun _ _ => trivial

/-! ## Outcomes -/

theorem orderly_nameObject (name : String) {ref : ObjectRef} (known : ref.Open hidden) :
    Orderly hidden d (fun _ => True) (nameObject name ref) := by
  refine Orderly.modifyEngine fun e isSealed fits =>
    ⟨⟨?_, isSealed.registry⟩, .refl fits, .refl _, rfl⟩
  intro entry member
  rcases List.mem_cons.1 member with rfl | member
  · exact known
  · exact isSealed.names entry (List.mem_filter.1 member).1

theorem orderly_nameValue (name : Option String) {v : Host.Value} (known : v.Open hidden) :
    Orderly hidden d (fun _ => True) (nameValue name v) := by
  unfold nameValue
  split
  · rename_i ref same
    refine orderly_nameObject _ ?_
    cases v <;> cases same
    exact known
  · exact .pure trivial

theorem orderly_hostReport (v : Host.Value) : Orderly hidden d (fun _ => True) (hostReport v) :=
  Orderly.get.bind fun _ _ => .pure trivial

theorem orderly_answer (r : Report) : Orderly hidden d (fun _ => True) (answer r) :=
  .pure trivial

theorem orderly_single (v : Value) : Orderly hidden d (fun _ => True) (single v) :=
  Orderly.script.bind fun _ _ => .pure trivial

theorem orderly_several (values : List Value) :
    Orderly hidden d (fun _ => True) (several values) :=
  Orderly.script.bind fun _ _ => .pure trivial

theorem orderly_topOutcome : Orderly hidden d (fun _ => True) topOutcome :=
  Orderly.script.bind fun _ _ => .pure trivial

theorem orderly_bindAll (names : List String) (values : List Value) :
    Orderly hidden d (fun _ => True) (bindAll names values) := by
  induction names generalizing values with
  | nil => exact .discard _ _
  | cons name rest ih =>
    refine Orderly.engine.bind fun e _ => ?_
    refine Orderly.bind (.modifyEngine fun _ isSealed fits =>
      ⟨⟨isSealed.names, isSealed.registry⟩, .refl fits, .refl _, rfl⟩) fun _ _ => ?_
    exact (Orderly.discard _ _).bind fun _ _ => ih values.tail

/-! ## The stack -/

/-- Changes to the scripts alone are orderly if they are allowed. -/
theorem orderly_of_retouches {ε : Type} {m : Run ε α}
    (retouches : ∀ w, Proper hidden w →
      ∃ a s, Retouches m w a s ∧ d.Allows w.outer.script s) :
    Orderly hidden d (fun _ => True) m := by
  intro w proper
  obtain ⟨a, s, same, allows⟩ := retouches w proper
  rw [same]
  exact ⟨⟨proper.host.keeps, ⟨proper.engine.names, proper.engine.registry⟩, allows, .refl w⟩,
    fun _ _ => trivial⟩

theorem orderly_push (v : Value) :
    Orderly hidden .framed (fun _ => True) (push v : StepRun Unit) :=
  .modifyScript fun _ fits => ⟨rfl, .of_append Array.push_eq_append fits⟩

theorem orderly_truncate (depth : Nat) :
    Orderly hidden .framed (fun _ => True) (truncate depth : StepRun Unit) := by
  refine orderly_of_retouches fun w proper => ?_
  obtain ⟨s, cut, stack, frames⟩ := retouches_truncate (ε := StepError) depth w
  exact ⟨(), s, cut, frames, .of_take stack proper.fits (Nat.le_max_right ..)⟩

/-- Making a frame longer or shorter leaves what is below it alone. -/
theorem exists_setTop (count : Nat) {w : Host.World Engine} (fits : w.outer.script.Fits) :
    ∃ stack graveyard, Retouches (setTop count) w () { w.outer.script with stack, graveyard } ∧
      Shares w.outer.script.base w.outer.script { w.outer.script with stack, graveyard } := by
  obtain ⟨g, cut⟩ := exists_cutStack (ε := StepError) (w.outer.script.base + count) [] w
  have shorter : Shares w.outer.script.base w.outer.script { w.outer.script with
      stack := w.outer.script.stack.take (w.outer.script.base + count), graveyard := g } :=
    .of_take rfl fits (Nat.le_add_right ..)
  exact ⟨_, g, Retouches.script.bind (cut.bind (.modifyScript _)),
    shorter.trans (.of_append rfl shorter.1)⟩

/-- Taking the top value off leaves what is below the frame alone. -/
theorem exists_popValue {w : Host.World Engine} (fits : w.outer.script.Fits) :
    ∃ v stack, Retouches popValue w v { w.outer.script with stack } ∧
      Shares w.outer.script.base w.outer.script { w.outer.script with stack } := by
  by_cases empty : w.outer.script.top = 0
  · have nothing : Retouches popValue w .nil w.outer.script := by
      refine Retouches.script.bind ?_
      rw [if_pos empty]
      rfl
    exact ⟨_, _, nothing, .refl fits⟩
  · generalize same : w.outer.script.takeFrom (w.outer.script.stack.size - 1) = taken
    have popped : Retouches popValue w (taken.1.headD .nil) taken.2 := by
      refine Retouches.script.bind ?_
      rw [if_neg empty, ← same]
      exact (Retouches.onScript _).bind rfl
    rw [← same] at popped
    refine ⟨_, _, popped, .of_take rfl fits ?_⟩
    unfold Script.State.top at empty
    omega

theorem orderly_setTop (count : Nat) :
    Orderly hidden .framed (fun _ => True) (setTop count) := by
  refine orderly_of_retouches fun w proper => ?_
  obtain ⟨_, _, changed, shares⟩ := exists_setTop count proper.fits
  exact ⟨_, _, changed, rfl, shares⟩

theorem orderly_popValue : Orderly hidden .framed (fun _ => True) popValue := by
  refine orderly_of_retouches fun w proper => ?_
  obtain ⟨_, _, popped, shares⟩ := exists_popValue proper.fits
  exact ⟨_, _, popped, rfl, shares⟩

theorem orderly_checkString (index : Int) :
    Orderly hidden d (fun _ => True) (checkString index) := by
  refine Orderly.script.bind fun s _ => ?_
  split
  · exact .pure trivial
  · exact orderly_failHere _

theorem orderly_setGlobal {ε : Type} (name : String) (v : Value) :
    Orderly hidden d (fun _ => True) (setGlobal name v : Run ε Unit) := by
  refine Orderly.script.bind fun s _ => ?_
  exact Orderly.bind (.modifyScript fun _ fits => .of_eq rfl rfl fits) fun _ _ => .discard _ _

theorem orderly_forgetVariable (name : String) :
    Orderly hidden d (fun _ => True) (forgetVariable name) := by
  refine Orderly.engine.bind fun e _ => ?_
  refine Orderly.bind (.modifyEngine fun _ isSealed fits =>
    ⟨⟨isSealed.names, isSealed.registry⟩, .refl fits, .refl _, rfl⟩) fun _ _ => ?_
  exact (Orderly.discard _ _).bind fun _ _ => .pure trivial

theorem orderly_makeBehaviour (name : String) (parts : List (Script.BehaviourPart × Term)) :
    Orderly hidden d (fun _ => True) (makeBehaviour name parts) := by
  refine Orderly.bind (.foldlM fun b entry => ?_) fun b _ =>
    .onScript fun _ fits => .of_eq rfl rfl fits
  exact (orderly_function _).bind fun _ _ => .pure trivial

/-- Making a function is orderly if it only takes note of the function. -/
theorem orderly_madeFunction
    {make : Script.State → Except Script.Error Script.FunctionRef × Script.State}
    (same : ∀ s, (make s).2.stack = s.stack ∧ (make s).2.frames = s.frames) :
    Orderly hidden d (fun _ => True) (madeFunction make) := by
  have made : Orderly hidden d (fun _ => True)
      (onScript make : Run Script.Error (Except Script.Error Script.FunctionRef)) :=
    .onScript fun s fits => .of_eq (same s).1 (same s).2 fits
  refine Orderly.bind (orderly_ofScript (P := fun _ => True) ?_) fun f _ => orderly_single _
  exact made.bind fun result _ => .ofExcept fun _ _ => trivial

theorem loadPrototype_same (s : Script.State) (name : String) :
    (s.loadPrototype name).2.stack = s.stack ∧ (s.loadPrototype name).2.frames = s.frames := by
  unfold Script.State.loadPrototype
  split <;> exact ⟨rfl, rfl⟩

theorem load_same (s : Script.State) (chunk : List UInt8) (name : String) :
    (s.load chunk name).2.stack = s.stack ∧ (s.load chunk name).2.frames = s.frames := by
  unfold Script.State.load
  split
  · exact loadPrototype_same s _
  · exact ⟨rfl, rfl⟩

section

variable (orderly : OrderlyRunner hidden run)
include orderly

theorem orderly_performStack (a : Script.StackAction) :
    Orderly hidden .framed (fun _ => True) (performStack run a) := by
  cases a with
  | bind v => exact (orderly_value v).bind fun _ _ => orderly_single _
  | forget name => exact (orderly_forgetVariable name).bind fun _ _ => orderly_answer _
  | same a b =>
    exact (orderly_value a).bind fun _ _ => (orderly_value b).bind fun _ _ => orderly_answer _
  | debug v => exact (orderly_value v).bind fun _ _ => orderly_answer _
  | inspect v => exact (orderly_value v).bind fun _ _ => orderly_answer _
  | push v =>
    exact (orderly_value v).bind fun _ _ => (orderly_push _).bind fun _ _ => orderly_topOutcome
  | pop count =>
    exact Orderly.script.bind fun _ _ => (orderly_truncate _).bind fun _ _ => orderly_topOutcome
  | popValue => exact orderly_popValue.bind fun _ _ => orderly_single _
  | setTop count => exact (orderly_setTop count).bind fun _ _ => orderly_topOutcome
  | truncate depth =>
    refine (orderly_truncate depth).bind fun _ _ => ?_
    exact Orderly.script.bind fun _ _ => orderly_answer _
  | top => exact Orderly.script.bind fun _ _ => orderly_answer _
  | valueAt i => exact Orderly.script.bind fun _ _ => orderly_single _
  | kindAt i => exact Orderly.script.bind fun _ _ => orderly_answer _
  | frame => exact Orderly.script.bind fun _ _ => orderly_several _
  | checkString index =>
    exact (orderly_ofScript (orderly_checkString index)).bind fun _ _ => orderly_answer _
  | setGlobal name v =>
    refine (orderly_value v).bind fun _ _ => ?_
    exact (orderly_setGlobal name _).bind fun _ _ => orderly_answer _
  | getGlobal name => exact Orderly.script.bind fun _ _ => orderly_single _
  | call arguments wanted =>
    refine (orderly_ofScript (orderly_call orderly arguments wanted)).bind fun _ _ => ?_
    exact orderly_topOutcome
  | protectedCall arguments wanted =>
    refine (orderly_ofScript (orderly_protectedCall orderly arguments wanted)).bind fun _ _ => ?_
    exact orderly_topOutcome
  | callFunction f arguments wanted =>
    refine (orderly_function f).bind fun f _ => ?_
    refine (orderly_values arguments).bind fun arguments _ => ?_
    have called := orderly_ofScript (orderly_callFunction orderly f arguments wanted)
    exact (called.of_still.holding _ _).bind fun _ _ => orderly_several _
  | callValue f arguments =>
    refine (orderly_value f).bind fun f _ => ?_
    refine (orderly_values arguments).bind fun arguments _ => ?_
    have called := orderly_ofScript (orderly_callValue orderly f arguments)
    exact (called.of_still.holding _ _).bind fun _ _ => orderly_several _
  | method target name arguments =>
    refine (orderly_value target).bind fun target _ => ?_
    refine (orderly_values arguments).bind fun arguments _ => ?_
    have called := orderly_ofScript (orderly_callMethod orderly target name arguments)
    exact (called.of_still.holding _ _).bind fun _ _ => orderly_several _
  | index target key =>
    refine (orderly_value target).bind fun target _ => (orderly_value key).bind fun key _ => ?_
    have called := orderly_ofScript (orderly_index orderly target key)
    exact (called.of_still.holding _ _).bind fun _ _ => orderly_single _
  | setIndex target key v =>
    refine (orderly_value target).bind fun target _ => (orderly_value key).bind fun key _ => ?_
    refine (orderly_value v).bind fun v _ => ?_
    have called := orderly_ofScript (orderly_setIndex orderly target key v)
    exact (called.of_still.holding _ _).bind fun _ _ => orderly_answer _
  | display v =>
    refine (orderly_value v).bind fun v _ => ?_
    have called := orderly_ofScript (orderly_display orderly v)
    exact (called.of_still.holding _ _).bind fun _ _ => orderly_answer _
  | traceback => exact Orderly.script.bind fun _ _ => orderly_answer _
  | error message => exact orderly_ofScript (orderly_failHere message)
  | raise message => exact .fail _
  | panic message => exact .breakOff message
  | pendingFinalizers => exact Orderly.script.bind fun _ _ => orderly_answer _
  | collect =>
    have collected := orderly_ofScript (orderly_collect orderly Host.callDepth 0)
    exact collected.of_still.bind fun _ _ => orderly_answer _
  | behaviour name parts =>
    exact (orderly_makeBehaviour name parts).bind fun _ _ => orderly_answer _
  | behaviourPart key part =>
    have noted : Orderly hidden .framed (fun _ => True) (noteHandedOut part) := by
      unfold noteHandedOut
      split
      · exact .note _
      · exact .pure trivial
    exact noted.bind fun _ _ => Orderly.script.bind fun _ _ => orderly_single _
  | wrapper slot key =>
    refine Orderly.bind (.note _) fun _ _ => ?_
    refine Orderly.bind (P := fun _ => True) (.onScript fun _ fits => ?_) fun _ _ => orderly_single _
    exact .of_eq rfl rfl fits
  | loadPrototype name => exact orderly_madeFunction (loadPrototype_same · name)
  | dump f =>
    refine (orderly_function f).bind fun f _ => ?_
    refine Orderly.bind (P := fun _ => True) (orderly_ofScript (.ofExcept fun _ _ => trivial)) ?_
    exact fun _ _ => orderly_answer _
  | load chunk name => exact orderly_madeFunction (load_same · chunk.toList name)
  | debugStack => exact Orderly.script.bind fun _ _ => orderly_answer _

end

end ScriptHost.Session
