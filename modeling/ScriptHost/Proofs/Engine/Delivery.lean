import ScriptHost.Proofs.Engine.Answers
import ScriptHost.Proofs.Host.Carrier
/-!
What a patch that takes the place of a method delivers: its results, converted in order, stored in
the carrier.
-/
namespace ScriptHost.Run

open Host (ObjectRef PatchRequest World)
open Script (FunctionRef Value)

variable {run : Runner} {r : PatchRequest} {w t : World Engine} {slots : List (Nat × Host.ValueType)}
  {types : List Host.ValueType} {values : List Value} {given : List Host.Value}

/-! ## Results -/

/-- The world in which a function is called with arguments. -/
def calling (f : FunctionRef) (arguments : List Value) (w : World Engine) : World Engine :=
  keeping [.function f] (withScript w (w.outer.script.pushAll (.function f :: arguments)))

/-- The world in which a function starts to run. -/
def entered (f : FunctionRef) (arguments : List Value) (w : World Engine) : World Engine :=
  withScript (calling f arguments w)
    ((calling f arguments w).outer.script.enter ⟨w.outer.script.stack.size + 1, f.name⟩)

section

variable {f : FunctionRef} {arguments results : List Value} {v : World Engine}

/-- What a function left on top of the stack takes the place of the callee and its arguments. -/
theorem finish_results
    (left : v.outer.script.stack =
      w.outer.script.stack ++ (.function f :: arguments).toArray ++ results.toArray) :
    ∃ s, Retouches (finish w.outer.script.stack.size results.length (-1) : Run Script.Error Unit)
        v () s ∧
      s.stack = w.outer.script.stack ++ results.toArray := by
  have size : v.outer.script.stack.size =
      w.outer.script.stack.size + (arguments.length + 1) + results.length := by
    simp only [left, Array.size_append, List.size_toArray, List.length_cons]
  have below : w.outer.script.stack.size < v.outer.script.stack.size := by omega
  obtain ⟨s, (finished : Retouches (finish w.outer.script.stack.size results.length (-1) :
    Run Script.Error Unit) v () s), _, _, stack⟩ := retouches_finish (-1) v below
  have all : min results.length
      (v.outer.script.stack.size - (w.outer.script.stack.size + 1)) = results.length := by omega
  have taken : (v.outer.script.takeFrom (v.outer.script.stack.size - results.length)).1 = results := by
    have start : v.outer.script.stack.size - results.length =
        (w.outer.script.stack ++ (Value.function f :: arguments).toArray).size := by
      have length : (Value.function f :: arguments).toArray.size = arguments.length + 1 := rfl
      rw [Array.size_append, length]
      omega
    unfold Script.State.takeFrom
    rw [start, left]
    simp
  have kept : v.outer.script.stack.take w.outer.script.stack.size = w.outer.script.stack := by
    rw [left, Array.append_assoc]
    simp [Array.take_eq_extract]
  rw [all, taken, kept] at stack
  exact ⟨s, finished, stack⟩

theorem enter_results (shallow : w.outer.script.frames.length < w.outer.script.maxDepth)
    (room : w.outer.script.stack.size + arguments.length + 1 < w.outer.script.maxStack)
    (ran : run f (entered f arguments w) = (.ok results.length, v))
    (left : v.outer.script.stack =
      w.outer.script.stack ++ (.function f :: arguments).toArray ++ results.toArray) :
    ∃ s, enter run w.outer.script.stack.size f (-1) (calling f arguments w) =
        (.ok (), withScript v s) ∧
      s.stack = w.outer.script.stack ++ results.toArray := by
  obtain ⟨s, finished, stack⟩ := finish_results left
  refine ⟨s.leave, ?_, stack⟩
  have size : (w.outer.script.stack ++ (Value.function f :: arguments).toArray).size =
      w.outer.script.stack.size + arguments.length + 1 := Array.size_append
  have free : ¬ (w.outer.script.maxDepth ≤ w.outer.script.frames.length ||
      w.outer.script.maxStack ≤
        (w.outer.script.stack ++ (Value.function f :: arguments).toArray).size) = true := by
    rw [size, Bool.or_eq_true, decide_eq_true_eq, decide_eq_true_eq]
    omega
  unfold enter
  rw [script_bind_apply]
  refine (congrArg (fun m : Run Script.Error Unit => m _) (if_neg free)).trans ?_
  rw [(Retouches.modifyScript _).andThen, bind_apply, outcome_apply]
  dsimp only
  have whole : Retouches (do
      finish w.outer.script.stack.size results.length (-1)
      modifyScript (·.leave) : Run Script.Error Unit) v () s.leave :=
    finished.bind (.modifyScript _)
  have ran' : run f (withScript (calling f arguments w)
      ((calling f arguments w).outer.script.enter ⟨w.outer.script.stack.size + 1, f.name⟩)) =
        (.ok results.length, v) := ran
  rw [ran']
  exact whole

/-- Calling the function below some arguments leaves the stack as entering it does. -/
theorem call_of_enter {pos : Nat} {wanted : Int} {u : World Engine}
    (enough : arguments.length + 1 ≤ w.outer.script.top)
    (place : w.outer.script.stack.size - arguments.length - 1 = pos)
    (callee : w.outer.script.stack.getD pos .nil = .function f)
    (enters : enter run pos f wanted (keeping [.function f] w) = (.ok (), u)) :
    ∃ t, call run arguments.length wanted w = (.ok (), t) ∧
      t.outer.script.stack = u.outer.script.stack := by
  unfold call
  rw [script_bind_apply, if_neg (Nat.not_lt.2 enough), place, callee]
  dsimp only
  rw [holding_apply, enters]
  obtain ⟨graveyard, same⟩ := discard_eq { u.outer with held := u.outer.held.tail } [] [.function f]
  refine ⟨_, rfl, ?_⟩
  dsimp only
  rw [same]

/-- A call gives what its function left on top of the stack. -/
theorem callValue_results (fits : w.outer.script.Fits)
    (shallow : w.outer.script.frames.length < w.outer.script.maxDepth)
    (room : w.outer.script.stack.size + arguments.length + 1 < w.outer.script.maxStack)
    (ran : run f (entered f arguments w) = (.ok results.length, v))
    (left : v.outer.script.stack =
      w.outer.script.stack ++ (.function f :: arguments).toArray ++ results.toArray) :
    ∃ u, callValue run (.function f) arguments w = (.ok results, u) := by
  obtain ⟨s, enters, stack⟩ := enter_results shallow room ran left
  have start : w.outer.script.base ≤ w.outer.script.stack.size := fits
  have size : (w.outer.script.stack ++ (Value.function f :: arguments).toArray).size =
      w.outer.script.stack.size + (arguments.length + 1) := Array.size_append
  have enough : arguments.length + 1 ≤
      (w.outer.script.stack ++ (Value.function f :: arguments).toArray).size -
        w.outer.script.base := by omega
  have place : (w.outer.script.stack ++ (Value.function f :: arguments).toArray).size -
      arguments.length - 1 = w.outer.script.stack.size := by omega
  have callee : (w.outer.script.stack ++ (Value.function f :: arguments).toArray).getD
      w.outer.script.stack.size .nil = .function f := by
    rw [Array.getD_eq_getD_getElem?, Array.getElem?_append_right (Nat.le_refl _), Nat.sub_self]
    rfl
  obtain ⟨u, called, stack'⟩ := call_of_enter
    (w := withScript w (w.outer.script.pushAll (.function f :: arguments))) enough place callee enters
  have results' : (u.outer.script.takeFrom w.outer.script.stack.size).1 = results := by
    have whole : u.outer.script.stack = w.outer.script.stack ++ results.toArray := stack'.trans stack
    unfold Script.State.takeFrom
    rw [whole]
    simp
  refine ⟨withScript u (u.outer.script.takeFrom w.outer.script.stack.size).2, ?_⟩
  unfold callValue
  rw [script_bind_apply, (Retouches.modifyScript _).andThen, bind_apply]
  have protectedly : protectedCall run arguments.length (-1)
      (withScript w (w.outer.script.pushAll (.function f :: arguments))) = (.ok (), u) := by
    unfold protectedCall
    rw [script_bind_apply, bind_apply, outcome_apply, called]
    rfl
  rw [protectedly]
  dsimp only
  rw [onScript_apply, results']
  rfl

end

/-! ## Converting -/

/-- Script values become host values of some types in order. Nil stands for those that are missing,
and those for which there is no type are left out. -/
inductive Converted : List Host.ValueType → List Value → World Engine → List Host.Value →
    World Engine → Prop
  | done (values : List Value) (w : World Engine) : Converted [] values w [] w
  | step {type : Host.ValueType} {types : List Host.ValueType} {values : List Value}
      {v : Host.Value} {given : List Host.Value} {w u t : World Engine}
      (first : toHostSlot (values.headD .nil) type .output w = (.ok v, u))
      (rest : Converted types values.tail u given t) :
      Converted (type :: types) values w (v :: given) t

namespace Converted

theorem length (converted : Converted types values w given t) : given.length = types.length := by
  induction converted with
  | done => rfl
  | step _ _ ih => rw [List.length_cons, ih, List.length_cons]

/-- What is missing or nil becomes the default of its type. -/
theorem default (converted : Converted types values w given t) {i : Nat} {type : Host.ValueType}
    (found : types[i]? = some type) (absent : values.getD i .nil = .nil) :
    given[i]? = some (.defaultFor type) := by
  induction converted generalizing i with
  | done => cases found
  | @step first types values v given w u t converts rest ih =>
    cases i with
    | zero =>
      cases found
      have head : values.headD .nil = .nil := by
        cases values with
        | nil => rfl
        | cons value others => exact absent
      rw [head] at converts
      cases converts
      rfl
    | succ i =>
      have later : values.tail.getD i .nil = .nil := by
        cases values with
        | nil => rfl
        | cons value others => exact absent
      exact ih found later

/-- What is converted is staged for the slots. -/
theorem stage {values : List Value}
    (converted : Converted (slots.map (·.2)) values w given t) :
    stage slots values w = (.ok ((slots.map (·.1)).zip given), t) := by
  induction slots generalizing values given w with
  | nil =>
    cases converted
    rfl
  | cons slot rest ih =>
    cases converted with
    | step first others =>
      unfold Run.stage
      rw [bind_apply, first]
      dsimp only
      rw [bind_apply, ih others]
      rfl

end Converted

/-! ## Storing -/

/-- What an object holds after values were stored into it. -/
theorem slots_storeAll (ref : ObjectRef) (staged : List (Nat × Host.Value)) (s : Host.State) :
    (storeAll ref staged s).heap.slots ref =
      staged.foldl (fun slots entry => slots.setIfInBounds entry.1 entry.2) (s.heap.slots ref) := by
  induction staged generalizing s with
  | nil => rfl
  | cons entry rest ih =>
    have later := ih (s.setSlot ref entry.1 entry.2).2
    rw [s.slots_setSlot] at later
    exact later

/-- Values with the positions at which they are stored. -/
abbrev Stored := List (Nat × Host.Value)

theorem size_stored (staged : Stored) (values : Array Host.Value) :
    (staged.foldl (fun slots entry => slots.setIfInBounds entry.1 entry.2) values).size =
      values.size := by
  induction staged generalizing values with
  | nil => rfl
  | cons entry rest ih =>
    rw [List.foldl_cons, ih, Array.size_setIfInBounds]

theorem getElem?_stored_of_not_mem {i : Nat} {staged : Stored} (values : Array Host.Value)
    (notThere : i ∉ staged.map (·.1)) :
    (staged.foldl (fun slots entry => slots.setIfInBounds entry.1 entry.2) values)[i]? =
      values[i]? := by
  induction staged generalizing values with
  | nil => rfl
  | cons entry rest ih =>
    rw [List.map_cons, List.mem_cons, not_or] at notThere
    rw [List.foldl_cons, ih _ notThere.2, Array.getElem?_setIfInBounds, if_neg (Ne.symm notThere.1)]

/-- Values stored at positions that differ from each other all stay. -/
theorem getElem?_stored {entry : Nat × Host.Value} {staged : Stored} {values : Array Host.Value}
    (member : entry ∈ staged) (distinct : (staged.map (·.1)).Nodup)
    (inBounds : entry.1 < values.size) :
    (staged.foldl (fun slots entry => slots.setIfInBounds entry.1 entry.2) values)[entry.1]? =
      some entry.2 := by
  induction staged generalizing values with
  | nil => cases member
  | cons first rest ih =>
    rw [List.map_cons, List.nodup_cons] at distinct
    rw [List.foldl_cons]
    rcases List.mem_cons.1 member with rfl | later
    · rw [getElem?_stored_of_not_mem _ distinct.1, Array.getElem?_setIfInBounds_self_of_lt inBounds]
    · exact ih later distinct.2 (by rwa [Array.size_setIfInBounds])

/-! ## Taking the place of a method -/

/-- A patch is called with its arguments, whatever it then does. -/
theorem runPatch_apply {arguments : List Value} {v : World Engine} (f : FunctionRef)
    (made : patchArguments r w = (.ok arguments, v)) :
    runPatch run f r w = holding arguments (fun _ => []) (do
      let results ← (callValue run (.function f) arguments).mapError .script
      holding results (fun _ => []) (accept r results)) v := by
  unfold runPatch
  rw [bind_apply, made]

/-- A patch that says yes, and all of whose results can be converted, takes the place of the method
and leaves its results in the carrier. -/
theorem dispatchPatch_accepts {f : FunctionRef} {arguments results : List Value}
    {staged : List (Nat × Host.Value)} {v u : World Engine}
    (found : w.outer.bridge.patches.find? r.signature = some f)
    (made : patchArguments r w = (.ok arguments, v))
    (called : callValue run (.function f) arguments (keeping arguments v) = (.ok results, u))
    (truthy : (results.headD .nil).truthy = true)
    (converted : stage (patchedSlots r) results.tail (keeping results u) = (.ok staged, t)) :
    ∃ last, dispatchPatch run r w = (.ok true, last) ∧
      last.host = storeAll r.carrier staged t.host := by
  have ran : ∃ last, runPatch run f r w = (.ok true, last) ∧
      last.host = storeAll r.carrier staged t.host := by
    rw [runPatch_apply f made, holding_apply, bind_apply, mapError_apply, called]
    dsimp only [Except.mapError]
    rw [holding_apply, accept_apply, if_pos truthy, converted]
    exact ⟨_, rfl, rfl⟩
  obtain ⟨last, replaced, host⟩ := ran
  obtain ⟨s, restored⟩ := guarded_apply (runPatch run f r) w
  rw [replaced] at restored
  exact ⟨withScript last s, by rw [dispatchPatch_apply found, restored], host⟩

end ScriptHost.Run
