import ScriptHost.Proofs.Engine.MethodCalls
import ScriptHost.Proofs.Handles.Sessions
import ScriptHost.Proofs.Image.Codec
/-!
Calls of methods by the host and by scripts. Both come to the same, unless a patch finds out which
of them it is asked in.
-/
namespace ScriptHost

open Host (Method ObjectRef TypeId World)
open Script (Step Value Wrapper)

/-! ## Patches that make no difference -/

/-- Without patches there is nothing that could tell engines apart. -/
theorem Run.indistinct_of_unpatched {e e' : Engine} (agrees : e.Agrees e')
    (unpatched : e.bridge.patches = {}) (unpatched' : e'.bridge.patches = {})
    (run run' : Runner) : Indistinct run run' e e' := by
  refine ⟨fun a b => a.Agrees b ∧ a.bridge.patches = {} ∧ b.bridge.patches = {},
    ⟨agrees, unpatched, unpatched'⟩, fun _ _ => And.left,
    fun limit => ⟨rfl, fun r w v beside => ?_⟩⟩
  have declined : ∀ (run : Runner) (w : World Engine), w.outer.bridge.patches = {} →
      (patchedContext run limit).dispatch r w = (.ok false, w) := by
    intro run w none
    have asked : dispatchPatch run r w = (.ok false, w) := by
      unfold dispatchPatch
      rw [bridge_bind_apply, none]
      rfl
    unfold patchedContext
    dsimp only
    rw [asked]
  rw [declined run w beside.outer.2.1, declined run' v beside.outer.2.2]
  exact ⟨rfl, beside⟩

namespace Session

open Run

variable {w v : World Engine} {o : ObjectRef} {t : Wrapper} {member : String}

/-! ## Where methods are called -/

/-- The bridge runs its functions in a session, one level deeper. -/
theorem serves_interpreter (n : Nat) :
    Serves (interpreter (n + 1)).function (interpreter n).function := by
  intro f b body
  funext w
  have runs : execute (n + 1) (.function f) =
      (do return some (← runBridgeFunction (interpreter n).function b) : Run Script.Error _) := by
    unfold execute
    dsimp only
    rw [body]
    rfl
  change (do return (← execute (n + 1) (.function f)).getD 0 : Run Script.Error Nat) w = _
  rw [runs, bind_apply, bind_apply]
  cases runBridgeFunction (interpreter n).function b w with
  | mk result v => cases result <;> rfl

theorem joined_of_balanced (fits : w.outer.script.Fits) (balanced : Balanced [] w)
    (bridge : w.outer.bridgeDropped = false) : Joined w :=
  ⟨bridge, balanced.furnished, balanced.typed.placed, fits⟩

/-- As long as the bridge is there, calls through it have what they rely on: wherever a session
comes to, and wherever it passes through. -/
theorem joined_of_reached {options : Options} {installed : Bool}
    (reached : Reached options installed w) :
    (w.outer.bridgeDropped = false → Joined w) ∧
      ∀ command, performCommand (watcher (fun w => w.outer.bridgeDropped = false → Joined w) levels)
        command w = performCommand (interpreter levels) command w := by
  obtain ⟨fits, balanced⟩ := reached.sound
  have alike : (interpreter levels).Alike
      (watcher (fun w => w.outer.bridgeDropped = false → Joined w) levels) :=
    alike_watcher (fun _ => joined_of_balanced) levels
  exact ⟨joined_of_balanced fits balanced, fun command =>
    (balances_performCommand alike fits balanced command).1.symm⟩

/-! ## One method, called by the host and by a script -/

/-- A call of a member of an object that can be made by the host, with a handle, and by a script,
with a wrapper: the host finds a method, the member is not hidden by a field or a property, and
there is room for the functions of the bridge. -/
structure Callable (h : Bridge.Handle) (t : Wrapper) (o : ObjectRef) (member : String)
    (arguments : List Value) (m : Method) (w v : World Engine) : Prop where
  joined : Joined w
  live : w.outer.bridge.registry.resolve (aliveIn w) h = .ok (.object o)
  wrapper : WrapperOf w t o
  held : .handle t ∈ w.outer.values
  shows : w.host.domain.ShowsMethod o.type member
  found : resolveMethod o.type member .ofInstance (arguments.map (·.tag)) w = (.ok m, v)
  shallow : w.outer.script.frames.length < w.outer.script.maxDepth
  room : w.outer.script.stack.size + max 3 (arguments.length + 2) < w.outer.script.maxStack

/-- The call by the host and the call by a script run the same method on the same object. -/
structure SameMethod (n : Nat) (h : Bridge.Handle) (t : Wrapper) (o : ObjectRef) (member : String)
    (arguments : List Value) (m : Method) (w v : World Engine) : Prop where
  byHost : callHandle (interpreter (n + 1)).function h member arguments w =
    invokeMethod (interpreter (n + 1)).function m (some o) arguments v
  /-- The function of the member finds the method and the object, -/
  byScript : callWrapped (interpreter n).function o.type member (.handle t :: arguments)
      (withinMember o.type member (.handle t :: arguments) w) =
    invokeMethod (interpreter n).function m (some o) arguments
      (withinMember o.type member (.handle t :: arguments) v)
  /-- and the script gets what the method gives. -/
  relayed : Relays Eq Bridge.Error.message
    (invokeMethod (interpreter n).function m (some o) arguments
      (withinMember o.type member (.handle t :: arguments) v)).1
    (callMethod (interpreter (n + 1)).function (.handle t) member arguments w).1
  /-- The same arguments arrive in the host. -/
  passed : (marshalArguments m.params arguments
      (withinMember o.type member (.handle t :: arguments) v)).1 =
    (marshalArguments m.params arguments v).1

/-- The call by the host and the call by a script come to the same. -/
structure SameEnd (n : Nat) (h : Bridge.Handle) (t : Wrapper) (member : String)
    (arguments : List Value) (w : World Engine) : Prop where
  host : (callMethod (interpreter (n + 1)).function (.handle t) member arguments w).2.host =
    (callHandle (interpreter (n + 1)).function h member arguments w).2.host
  /-- Handles stand for the same after the calls, -/
  registry : (callMethod (interpreter (n + 1)).function
      (.handle t) member arguments w).2.outer.bridge.registry =
    (callHandle (interpreter (n + 1)).function h member arguments w).2.outer.bridge.registry
  /-- and results are the same but for the numbers of new wrappers. -/
  answer : Relays (List.Forall₂ fun a b => b.meaning = a.meaning) Bridge.Error.message
    (callHandle (interpreter (n + 1)).function h member arguments w).1
    (callMethod (interpreter (n + 1)).function (.handle t) member arguments w).1

variable {h : Bridge.Handle} {arguments : List Value} {m : Method}

/-- A method that the host finds for a call is the one that a script calls. Both calls come to the
same, as long as patches do not tell apart where they are asked. -/
theorem sameCall_of_callable (n : Nat) (callable : Callable h t o member arguments m w v) :
    SameMethod n h t o member arguments m w v ∧
      (Indistinct (interpreter (n + 1)).function (interpreter n).function v.outer
          (withinMember o.type member (.handle t :: arguments) v).outer →
        SameEnd n h t member arguments w) := by
  obtain ⟨joined, live, wrapper, held, shows, found, shallow, room⟩ := callable
  have byHost : callHandle (interpreter (n + 1)).function h member arguments w =
      invokeMethod (interpreter (n + 1)).function m (some o) arguments v := by
    have resolved : resolveHandle h w = (.ok (.object o), w) := by
      change ofExcept (w.outer.bridge.registry.resolve (aliveIn w) h) w = _
      rw [live]
      rfl
    unfold callHandle
    rw [bind_apply, resolved]
    dsimp only
    unfold callMember
    rw [bind_apply, found]
  obtain ⟨relayed, after⟩ := callMethod_relays (serves_interpreter n) (orderly_interpreter n) joined
    wrapper held shows found shallow (by omega) (by omega)
  obtain ⟨passed, -⟩ := likewise_marshalArguments (fun _ _ => id) m.params arguments v _
    (beside_withinMember o.type member (.handle t :: arguments) v)
  refine ⟨⟨byHost, callWrapped_within joined.placed wrapper.refers found, relayed, passed.eq⟩,
    fun patches => ?_⟩
  obtain ⟨alike, beside⟩ := invokeMethod_of_indistinct (w := v)
    (v := withinMember o.type member (.handle t :: arguments) v) rfl rfl patches m (some o)
    arguments
  have whole := beside.trans after
  rw [← byHost] at alike whole
  exact ⟨whole.host, whole.outer.registry, .ofLike alike relayed⟩

theorem Callable.indistinct (callable : Callable h t o member arguments m w v)
    (unpatched : w.outer.bridge.patches = {}) (run run' : Runner) : Indistinct run run' v.outer
      (withinMember o.type member (.handle t :: arguments) v).outer := by
  obtain ⟨cache, rfl, -⟩ := resolveMethod_alike callable.found
  have beside := beside_withinMember o.type member (.handle t :: arguments) (withCache w cache)
  have within := patches_withinMember o.type member (.handle t :: arguments) (withCache w cache)
  exact indistinct_of_unpatched beside.outer unpatched (within.trans unpatched) run run'

/-! ### A wish -/

/-- A type with a method that gives its argument, and may be patched. -/
def plea : Image where
  name := "Plea"
  types := [{ name := "Wish" }]
  methods := [
    { token := ⟨1⟩, declaring := "Wish", name := "Ask", kind := .static, params := Host.hubParams
      ret := .bool, attrs := { patchHub := true } },
    { token := ⟨2⟩, declaring := "Wish", name := "Grant", kind := .ofInstance
      params := [⟨"a", .bool, .input⟩], ret := .bool, attrs := { patchable := true }
      body := some { code := #[.ldArg 0, .ret] } }]

/-- The image after injection. -/
def injectedPlea : Image :=
  match plea.inject with
  | .ok (after, _) => after
  | .error _ => plea

/-- A new engine, with the image loaded. -/
def pleaded : World Engine :=
  { start {} true with host := (injectedPlea.load {}).2 }

theorem decode_plea : Image.decode? plea.encode = some plea := by
  refine Image.decode?_encode ?_ (by decide +kernel)
  intro m member body is instr inside x same
  simp only [plea, List.mem_cons, List.not_mem_nil, or_false] at member
  rcases member with rfl | rfl
  · cases is
  · cases is
    subst same
    simp at inside

theorem start_host (options : Options) (installed : Bool) :
    (start options installed).host = {} := by
  cases installed <;> rfl

/-- Loading the text of an image that is injected and loaded without a hitch. -/
theorem loadImage_injected {text : String} {image after : Image} {report : Image.InjectReport}
    {ids : List TypeId} {host : Host.State} (decoded : Image.decode? text = some image)
    (injected : image.inject = .ok (after, report)) (loaded : after.load w.host = (.ok ids, host)) :
    loadImage text true w = (.ok ids, { w with host }) := by
  have onto : (onHost after.load : StepRun _) w = (.ok (.ok ids), { w with host }) := by
    change (Except.ok (after.load w.host).1,
      ({ w with host := (after.load w.host).2 } : World _)) = _
    rw [loaded]
  unfold loadImage
  rw [decoded]
  dsimp only
  rw [if_pos rfl, injected]
  refine (bind_apply (pure after) _ w).trans ?_
  change ((onHost after.load >>= _ : StepRun _) w) = _
  rw [bind_apply, onto]
  rfl

theorem loadImage_plea : loadImage plea.encode true (start {} true) = (.ok [⟨1⟩], pleaded) := by
  have injects : plea.inject.isOk = true := by decide +kernel
  have ids : (injectedPlea.load {}).1 = .ok [⟨1⟩] := by decide +kernel
  obtain ⟨report, injected⟩ : ∃ report, plea.inject = .ok (injectedPlea, report) := by
    unfold injectedPlea
    cases result : plea.inject with
    | error e =>
      rw [result] at injects
      cases injects
    | ok r => exact ⟨r.2, rfl⟩
  refine loadImage_injected decode_plea injected ?_
  rw [start_host]
  exact Prod.ext ids rfl

/-- A command without values leads on to where it ends. -/
theorem Reached.performed {options : Options} {installed : Bool}
    (reached : Reached options installed w) {c : Command} {r : Report}
    (ran : performCommand (interpreter levels) c w = (.ok { report := r }, v)) :
    Reached options installed v := by
  have next := reached.command { action := c, quiet := true } (by rw [ran]; exact nofun)
  unfold runCommand at next
  dsimp only at next
  rw [bind_apply, outcome_apply, ran] at next
  exact next

theorem Reached.loadImage {options : Options} {installed : Bool}
    (reached : Reached options installed w) {text : String} {inject : Bool} {ids : List TypeId}
    (loaded : loadImage text inject w = (.ok ids, v)) : Reached options installed v := by
  refine reached.performed (c := .action (.domain (.loadImage text inject)))
    (r := idReport ids) ?_
  change (do answer (idReport (← Session.loadImage text inject)) : StepRun Outcome) _ = _
  rw [bind_apply, loaded]
  rfl

theorem reached_pleaded : Reached {} true pleaded :=
  Reached.start.loadImage loadImage_plea

/-- An object of the type, and a variable that holds a wrapper of it. -/
def pleading : World Engine :=
  (runAll [
    { action := .action (.domain (.instantiate (.named "Wish") "o")) },
    { action := .action (.bridge (.toScript (.object "o"))), names := ["w"] }] pleaded).2

/-- The object. -/
def wish : ObjectRef := ⟨0, ⟨1⟩⟩

/-- The wrapper. -/
def wisher : Wrapper := ⟨13, 0, 0⟩

theorem reached_pleading : Reached {} true pleading :=
  reached_pleaded.runAll (by decide +kernel)

/-- The world has the wrapper of the object, and the method can be called on it. -/
def Grantable (w : World Engine) : Prop :=
  w.outer.bridgeDropped = false ∧
    w.outer.bridge.registry.resolve (aliveIn w) wisher.handle = .ok (.object wish) ∧
    w.outer.bridge.exposed.find? wish.type = some ⟨0, 1⟩ ∧
    holdsWrapper w.outer.values wisher = true ∧
    (w.host.domain.get? wish.type).any (fun info => info.hasMethod "Grant" &&
      (info.field? "Grant").isNone && (info.property? "Grant").isNone) = true ∧
    (resolveMethod wish.type "Grant" .ofInstance [.bool] w).1.isOk = true ∧
    w.outer.script.frames.length < w.outer.script.maxDepth ∧
    w.outer.script.stack.size + 3 < w.outer.script.maxStack

instance (w : World Engine) : Decidable (Grantable w) :=
  inferInstanceAs (Decidable (_ ∧ _))

theorem Grantable.callable (grantable : Grantable w) (reached : Reached {} true w) :
    ∃ m v, Callable wisher.handle wisher wish "Grant" [.bool true] m w v := by
  obtain ⟨bridge, live, exposed, held, shown, resolves, shallow, room⟩ := grantable
  have shows : w.host.domain.ShowsMethod wish.type "Grant" := by
    cases known : w.host.domain.get? wish.type with
    | none =>
      rw [known] at shown
      cases shown
    | some info =>
      rw [known] at shown
      simp only [Option.any_some, Bool.and_eq_true, Option.isNone_iff_eq_none] at shown
      exact .of_declares known shown.1.1 shown.1.2 shown.2
  cases found : resolveMethod wish.type "Grant" .ofInstance [.bool] w with
  | mk result v =>
    rw [found] at resolves
    cases result with
    | error stop => cases resolves
    | ok m =>
      exact ⟨m, v, (joined_of_reached reached).1 bridge, live, ⟨live, _, exposed, rfl⟩,
        (holdsWrapper_iff _ _).1 held, shows, found, shallow, room⟩

/-- Without patches, a host and a script that ask for the wish get the same. -/
theorem sameCall_pleading : Reached {} true pleading ∧ ∃ m v,
    Callable wisher.handle wisher wish "Grant" [.bool true] m pleading v ∧
      SameMethod 9 wisher.handle wisher wish "Grant" [.bool true] m pleading v ∧
      Indistinct (interpreter 10).function (interpreter 9).function v.outer
        (withinMember wish.type "Grant" [.handle wisher, .bool true] v).outer ∧
      SameEnd 9 wisher.handle wisher "Grant" [.bool true] pleading := by
  have grantable : Grantable pleading := by decide +kernel
  have none : pleading.outer.bridge.patches.entries.isEmpty = true := by decide +kernel
  have unpatched : pleading.outer.bridge.patches = {} :=
    congrArg Table.mk (List.isEmpty_iff.1 none)
  obtain ⟨m, v, callable⟩ := grantable.callable reached_pleading
  have patches := callable.indistinct unpatched (interpreter 10).function (interpreter 9).function
  obtain ⟨method, ends⟩ := sameCall_of_callable 9 callable
  exact ⟨reached_pleading, m, v, callable, method, patches, ends patches⟩

/-! ### A patch that tells calls apart -/

/-- A patch that cuts the stack at a fixed depth, which is above its arguments where the host calls,
and below them where a script does. -/
def sway : List (Step Command) := [
  { action := .action (.define "f" [{ action := .stack (.truncate 3) },
      { action := .ret [.bool true, .argument 2] 2 }] "f") },
  { action := .action (.bridge (.patch "Wish::Grant(Boolean)" (.var "f"))) }]

/-- The world with that patch. -/
def swayed : World Engine :=
  (runAll sway pleading).2

theorem reached_swayed : Reached {} true swayed :=
  reached_pleading.runAll (by decide +kernel)

/-- The truth value that is the only result. -/
def flag? {ε : Type} : Except (Stop ε) (List Value) → Option Bool
  | .ok [.bool b] => some b
  | _ => none

theorem flag?_eq_some {ε : Type} {r : Except (Stop ε) (List Value)} {b : Bool}
    (flag : flag? r = some b) : r = .ok [.bool b] := by
  unfold flag? at flag
  split at flag
  · cases flag
    rfl
  · cases flag

/-- The host gets what it wished for, and the script does not. -/
theorem swayed_tells_apart : Reached {} true swayed ∧ ∃ m v,
    Callable wisher.handle wisher wish "Grant" [.bool true] m swayed v ∧
      (callHandle (interpreter 10).function wisher.handle "Grant" [.bool true] swayed).1 =
        .ok [.bool true] ∧
      (callMethod (interpreter 10).function (.handle wisher) "Grant" [.bool true] swayed).1 =
        .ok [.bool false] ∧
      ¬ SameEnd 9 wisher.handle wisher "Grant" [.bool true] swayed := by
  have grantable : Grantable swayed := by decide +kernel
  have byHost : flag? (callHandle (interpreter 10).function wisher.handle "Grant" [.bool true]
    swayed).1 = some true := by decide +kernel
  have byScript : flag? (callMethod (interpreter 10).function (.handle wisher) "Grant"
    [.bool true] swayed).1 = some false := by decide +kernel
  obtain ⟨m, v, callable⟩ := grantable.callable reached_swayed
  refine ⟨reached_swayed, m, v, callable, flag?_eq_some byHost, flag?_eq_some byScript,
    fun same => ?_⟩
  have answer := same.answer
  rw [flag?_eq_some byHost, flag?_eq_some byScript] at answer
  cases answer with
  | ok related => cases related with | cons alike _ => cases alike

end Session

end ScriptHost
