import ScriptHost.Engine.Provided
import ScriptHost.Proofs.Engine.Relay
import ScriptHost.Proofs.Host.Layout
/-!
Calls of methods from scripts. Reading a method off a wrapper gives the function that the type has
for it, and calling this function on the wrapper calls the method on the object, as the host does.
-/
namespace ScriptHost

open Host (Domain Method ObjectRef TypeId TypeInfo World)
open Script (BridgeFunction FunctionRef Value Wrapper)

variable {ε α : Type} {w v : World Engine} {o : ObjectRef} {t : Wrapper} {member : String}

/-! ## Names of methods -/

namespace Host.Domain

/-- A name means a method to scripts: on the way from a type to its bases, no type up to one that
declares a method of the name has a field or a readable property of that name. -/
def ShowsMethod (d : Domain) (type : TypeId) (name : String) : Prop :=
  ∃ before t after, d.chain type = before ++ t :: after ∧ t.hasMethod name = true ∧
    ∀ s ∈ before ++ [t], s.field? name = none ∧ (s.property? name).bind (·.getter) = none

/-- A method that a type itself declares is not hidden by its bases. -/
theorem ShowsMethod.of_declares {d : Domain} {type : TypeId} {name : String} {info : TypeInfo}
    (found : d.get? type = some info) (declares : info.hasMethod name = true)
    (field : info.field? name = none) (property : info.property? name = none) :
    d.ShowsMethod type name := by
  obtain ⟨bases, walk⟩ := exists_chain_eq_cons found
  refine ⟨[], info, bases, walk, declares, fun s there => ?_⟩
  rw [List.mem_singleton.1 there, property]
  exact ⟨field, rfl⟩

theorem ShowsMethod.readable {d : Domain} {type : TypeId} {name : String}
    (shows : d.ShowsMethod type name) :
    (d.chain type).findSome? (Run.readableAt · name) = some .method := by
  obtain ⟨before, t, after, chain, declares, clear⟩ := shows
  rw [chain]
  clear chain
  have plain : ∀ s ∈ before ++ [t], Run.readableAt s name =
      if s.hasMethod name then some .method else none := by
    intro s there
    obtain ⟨field, property⟩ := clear s there
    unfold Run.readableAt
    rw [field, property]
  induction before with
  | nil =>
    rw [List.nil_append, List.findSome?_cons, plain t List.mem_cons_self, if_pos declares]
  | cons s rest ih =>
    rw [List.cons_append, List.findSome?_cons, plain s List.mem_cons_self]
    split
    · rename_i found
      split at found
      · exact found.symm
      · cases found
    · exact ih (fun s there => clear s (List.mem_cons_of_mem _ there))
        fun s there => plain s (List.mem_cons_of_mem _ there)

end Host.Domain

theorem Script.Value.text?_text (s : String) : (Value.text s).text? = some s := by
  change String.fromUTF8? s.toUTF8 = some s
  unfold String.fromUTF8?
  exact dif_pos s.isValidUTF8

/-! ## The functions of members -/

/-- The function with which scripts call a member of a type. -/
def Script.FunctionRef.ofMember (id : Nat) (type : TypeId) (typeName member : String) :
    FunctionRef :=
  ⟨id, typeName ++ "." ++ member, none, .bridge (.member type member)⟩

/-- The function of a member, made on first use, and the engine then. -/
def Engine.memberFunction (e : Engine) (type : TypeId) (typeName member : String) :
    FunctionRef × Engine :=
  match e.bridge.wrappers.find? (type, member) with
  | some f => (f, e)
  | none =>
    let f := FunctionRef.ofMember e.script.nextId type typeName member
    (f, { e with
      script := { e.script with nextId := e.script.nextId + 1 }
      bridge := { e.bridge with wrappers := e.bridge.wrappers.insert (type, member) f } })

/-- The function of a member depends on the functions that there are and on the next number, and
nothing else changes when it is made. -/
theorem Engine.exists_memberFunction (e : Engine) (type : TypeId) (typeName member : String) :
    ∃ f nextId wrappers, ∀ e' : Engine, e'.bridge.wrappers = e.bridge.wrappers →
      e'.script.nextId = e.script.nextId → e'.memberFunction type typeName member = (f, { e' with
        script := { e'.script with nextId }, bridge := { e'.bridge with wrappers } }) := by
  cases found : e.bridge.wrappers.find? (type, member) with
  | some f =>
    refine ⟨f, e.script.nextId, e.bridge.wrappers, fun e' same number => ?_⟩
    unfold Engine.memberFunction
    rw [← same, ← number]
    rw [← same] at found
    rw [found]
  | none =>
    refine ⟨.ofMember e.script.nextId type typeName member, e.script.nextId + 1,
      e.bridge.wrappers.insert (type, member) (.ofMember e.script.nextId type typeName member),
      fun e' same number => ?_⟩
    unfold Engine.memberFunction
    rw [← same, ← number]
    rw [← same] at found
    rw [found]

/-- What calls through the bridge rely on: the bridge is there, what scripts do with objects gets to
it, types know their positions, and the current frame starts on the stack. -/
structure Joined (w : World Engine) : Prop where
  bridge : w.outer.bridgeDropped = false
  furnished : Furnished w.outer.bridge.exposed w.outer.bridge.wrappers w.outer.script.behaviours
  placed : w.host.domain.Placed
  fits : w.outer.script.Fits

/-- A wrapper by which scripts refer to an object. -/
structure WrapperOf (w : World Engine) (t : Wrapper) (o : ObjectRef) : Prop where
  refers : w.outer.bridge.registry.resolve (aliveIn w) t.handle = .ok (.object o)
  behaviour : ∃ keys, w.outer.bridge.exposed.find? o.type = some keys ∧
    t.behaviour = keys.ofInstance

/-- The function of a member calls the member. -/
theorem Furnished.memberFunction {e : Engine} {type : TypeId}
    (furnished : Furnished e.bridge.exposed e.bridge.wrappers e.script.behaviours)
    (typeName : String) :
    (e.memberFunction type typeName member).1.body = .bridge (.member type member) := by
  unfold Engine.memberFunction
  cases found : e.bridge.wrappers.find? (type, member) with
  | some f => exact furnished.members type member f found
  | none => rfl

namespace Run

variable {info : TypeInfo} {inner scripts : Runner}

theorem methodWrapper_apply (known : w.host.domain.get? o.type = some info) :
    methodWrapper o.type member w = (.ok (w.outer.memberFunction o.type info.name member).1,
      { w with outer := (w.outer.memberFunction o.type info.name member).2 }) := by
  unfold methodWrapper Engine.memberFunction
  rw [bridge_bind_apply]
  cases w.outer.bridge.wrappers.find? (o.type, member) with
  | some f => rfl
  | none =>
    dsimp only
    rw [bind_apply, typeInfo_apply, known]
    rfl

theorem resolveValue_apply (refers : w.outer.bridge.registry.resolve (aliveIn w) t.handle =
    .ok (.object o)) : resolveValue (.handle t) w = (.ok (.object o), w) := by
  change ofExcept (w.outer.bridge.registry.resolve (aliveIn w) t.handle) w = _
  rw [refers]
  rfl

/-- Reading a method off an object gives the function that its type has for it. -/
theorem getMember_method (known : w.host.domain.get? o.type = some info)
    (shows : w.host.domain.ShowsMethod o.type member) (run : Runner) :
    getMember run o (.text member) w =
      (.ok (.function (w.outer.memberFunction o.type info.name member).1),
        { w with outer := (w.outer.memberFunction o.type info.name member).2 }) := by
  have readable : ((Value.text member).text?.bind fun name =>
      ((w.host.domain.chain o.type).findSome? (readableAt · name)).map (name, ·)) =
        some (member, .method) := by
    rw [Script.Value.text?_text, Option.bind_some, shows.readable]
    rfl
  unfold getMember
  rw [bind_apply, typeInfo_apply, known]
  dsimp only
  have wrapped : methodWrapper o.type member w = _ := methodWrapper_apply known
  cases info.isArray
  all_goals
    refine (domain_bind_apply _ w).trans ?_
    rw [readable]
    exact (bind_apply _ _ w).trans (by rw [wrapped]; rfl)

/-! ## Functions of the bridge -/

/-- Functions that the bridge provides are run by the bridge. -/
def Serves (scripts inner : Runner) : Prop :=
  ∀ (f : FunctionRef) (b : BridgeFunction), f.body = .bridge b →
    scripts f = runBridgeFunction inner b

/-- A function starts with its arguments in its frame. -/
theorem frameValues_entered (f : FunctionRef) (arguments : List Value) (w : World Engine) :
    (entered f arguments w).outer.script.frameValues = arguments := by
  change ((w.outer.script.stack ++ (Value.function f :: arguments).toArray).extract
    (w.outer.script.stack.size + 1)).toList = arguments
  simp

theorem runBridgeFunction_apply (bridge : w.outer.bridgeDropped = false) (f : BridgeFunction) :
    runBridgeFunction inner f w = holding w.outer.script.frameValues (fun _ => []) (do
      let results ← (applyBridgeFunction inner f w.outer.script.frameValues).mapError (·.toScript)
      modifyScript (·.pushAll results)
      return results.length) w := by
  unfold runBridgeFunction
  rw [bind_apply]
  refine (congrArg (fun m : Run Script.Error Nat => m w)
    (if_neg (by rw [bridge]; exact Bool.false_ne_true))).trans ?_
  rw [script_bind_apply]

/-- What reading a member of an instance gives. -/
theorem instanceIndex_apply {key x : Value}
    (refers : w.outer.bridge.registry.resolve (aliveIn w) t.handle = .ok (.object o))
    (read : getMember inner o key w = (.ok x, v)) (type : TypeId) :
    applyBridgeFunction inner (.ofType .instanceIndex type) [.handle t, key] w = (.ok [x], v) := by
  have object : objectOf (.handle t) w = (.ok o, w) := by
    unfold objectOf
    rw [bind_apply, resolveValue_apply refers]
    rfl
  change (do return [← getMember inner (← objectOf (.handle t)) key] : Run Bridge.Error _) w = _
  rw [bind_apply, object]
  dsimp only
  rw [bind_apply, read]
  rfl

/-- Running the function that reads members of instances, while its arguments are held. -/
theorem run_instanceIndex (serves : Serves scripts inner) (joined : Joined w)
    (wrapper : WrapperOf w t o) (known : w.host.domain.get? o.type = some info)
    (shows : w.host.domain.ShowsMethod o.type member) {f : FunctionRef}
    (body : f.body = .bridge (.ofType .instanceIndex o.type)) {arguments : List Value}
    (are : arguments = [.handle t, .text member]) :
    ∃ v, scripts f (entered f arguments (keeping arguments w)) = (.ok 1, v) ∧
      LeavesOne f arguments (.function (w.outer.memberFunction o.type info.name member).1)
        (keeping arguments w) v ∧
      returned (keeping arguments w) v = keeping arguments
        { w with outer := (w.outer.memberFunction o.type info.name member).2 } := by
  generalize started : keeping arguments (entered f arguments (keeping arguments w)) = z
  have refers : z.outer.bridge.registry.resolve (aliveIn z) t.handle = .ok (.object o) := by
    rw [← started]
    exact wrapper.refers
  have read := getMember_method (w := z) (by rw [← started]; exact known)
    (by rw [← started]; exact shows) inner
  have gives := instanceIndex_apply refers read o.type
  obtain ⟨g, nextId, wrappers, made⟩ := w.outer.exists_memberFunction o.type info.name member
  rw [made z.outer (by rw [← started]; rfl) (by rw [← started]; rfl)] at gives
  rw [made w.outer rfl rfl]
  dsimp only at gives ⊢
  generalize left : ({ z with outer := { z.outer with
    script := ({ z.outer.script with nextId } : Script.State).pushAll [.function g]
    bridge := { z.outer.bridge with wrappers } } } : World Engine) = v
  refine ⟨released v, ?_, ?_, ?_⟩
  · rw [serves f _ body, runBridgeFunction_apply
      (w := entered f arguments (keeping arguments w)) joined.bridge, frameValues_entered]
    refine holding_held ?_ fun h given => ?_
    · rw [started, bind_apply, mapError_apply, are, gives, ← left]
      rfl
    · refine List.mem_append_right _ (Engine.mem_values_of_held ?_)
      rw [← left, ← started]
      exact List.mem_append_right _ (List.mem_append_left _ given)
  · rw [← left, ← started]
    exact ⟨rfl, rfl, rfl⟩
  · rw [← left, ← started]
    rfl

/-- Reading a method off a wrapper gives the function that the type of its object has for it.
Nothing else is different then. -/
theorem index_method (serves : Serves scripts inner) (joined : Joined w) (wrapper : WrapperOf w t o)
    (held : .handle t ∈ w.outer.values) (known : w.host.domain.get? o.type = some info)
    (shows : w.host.domain.ShowsMethod o.type member)
    (shallow : w.outer.script.frames.length < w.outer.script.maxDepth)
    (room : w.outer.script.stack.size + 3 < w.outer.script.maxStack) :
    index scripts (.handle t) (.text member) w =
      (.ok (.function (w.outer.memberFunction o.type info.name member).1),
        { w with outer := (w.outer.memberFunction o.type info.name member).2 }) := by
  obtain ⟨keys, exposed, same⟩ := wrapper.behaviour
  obtain ⟨b, f, there, part, body⟩ := joined.furnished.index o.type keys exposed
  have found : w.outer.script.part? (.handle t) .index = some f := by
    unfold Script.State.part?
    simp only [Script.Value.wrapper?, Option.bind_eq_bind, Option.bind_some]
    rw [same, there]
    exact part
  obtain ⟨v, ran, left, back⟩ :=
    run_instanceIndex serves joined wrapper known shows body rfl
  have called : callFunction scripts f [.handle t, .text member] 1 _ = _ :=
    callFunction_one (w := keeping _ w) joined.fits shallow room ran left
      fun h given => List.mem_append_left _ given
  rw [back] at called
  unfold index handler
  rw [bind_apply, script_bind_apply, found]
  refine (bind_apply _ _ w).trans ?_
  rw [holding_held called]
  · rfl
  · intro h given
    obtain ⟨g, nextId, wrappers, made⟩ := w.outer.exists_memberFunction o.type info.name member
    rw [made w.outer rfl rfl]
    rcases List.mem_cons.1 given with first | more
    · rw [first]
      exact List.mem_append_right _ held
    · cases List.mem_singleton.1 more

/-! ## Calling the function of a member -/

/-- The world in which a method runs that a script calls: the function of the member has a frame of
its own on top of its caller's, and its values are held. -/
def withinMember (type : TypeId) (member : String) (values : List Value) (w : World Engine) :
    World Engine :=
  let made := w.outer.memberFunction type (w.host.domain.nameOf type) member
  keeping values (entered made.1 values
    (keeping values (keeping [.function made.1] { w with outer := made.2 })))

/-- A script calls a method where handles refer to the same as where it started. -/
theorem beside_withinMember (type : TypeId) (member : String) (values : List Value)
    (w : World Engine) : World.Beside Engine.Agrees w (withinMember type member values w) := by
  obtain ⟨g, nextId, wrappers, made⟩ :=
    w.outer.exists_memberFunction type (w.host.domain.nameOf type) member
  unfold withinMember
  rw [made w.outer rfl rfl]
  exact ⟨rfl, rfl, rfl, rfl, rfl, rfl, rfl⟩

theorem patches_withinMember (type : TypeId) (member : String) (values : List Value)
    (w : World Engine) :
    (withinMember type member values w).outer.bridge.patches = w.outer.bridge.patches := by
  obtain ⟨g, nextId, wrappers, made⟩ :=
    w.outer.exists_memberFunction type (w.host.domain.nameOf type) member
  unfold withinMember
  rw [made w.outer rfl rfl]
  rfl

/-- Calling the function of a member on an instance calls the method that the arguments mean. -/
theorem callWrapped_method {m : Method} {arguments : List Value}
    (refers : w.outer.bridge.registry.resolve (aliveIn w) t.handle = .ok (.object o))
    (self : w.host.domain.isSubtype o.type o.type = true)
    (found : resolveMethod o.type member .ofInstance (arguments.map (·.tag)) w = (.ok m, v)) :
    callWrapped inner o.type member (.handle t :: arguments) w =
      invokeMethod inner m (some o) arguments v := by
  have receiver : callWrapped.receiver? o.type (.handle t) w = (.ok (some o), w) := by
    unfold callWrapped.receiver?
    rw [bind_apply, outcome_apply, resolveValue_apply refers]
    dsimp only
    rw [domain_bind_apply, if_pos self]
    rfl
  unfold callWrapped
  dsimp only [List.headD_cons, List.tail_cons]
  rw [bind_apply, receiver]
  dsimp only
  rw [bind_apply, outcome_apply, found]

theorem beside_holding (values : List Value) (inUse : α → List Value) (m : Run ε α)
    (w : World Engine) :
    World.Beside Engine.Agrees (m (keeping values w)).2 (holding values inUse m w).2 := by
  obtain ⟨held, graveyard, same⟩ := exists_holding values inUse m w
  rw [same]
  exact ⟨rfl, rfl, rfl, rfl, rfl, rfl, rfl⟩

theorem Bridge.Error.message_toScript (e : Bridge.Error) : e.toScript.message = e.message := by
  cases e <;> rfl

/-- What a question about a method leads to does not depend on anything but the methods found so
far. -/
theorem resolveMethod_alike {type : TypeId} {shape : Bridge.CallShape} {tags : List Script.Tag}
    {m : Method} (found : resolveMethod type member shape tags w = (.ok m, v)) :
    ∃ cache, v = withCache w cache ∧ ∀ u : World Engine, u.host = w.host →
      u.outer.bridge.cache = w.outer.bridge.cache →
      resolveMethod type member shape tags u = (.ok m, withCache u cache) := by
  rw [resolveMethod_apply] at found
  cases known : w.host.domain.get? type with
  | none =>
    rw [known] at found
    cases found
  | some info =>
    rw [known] at found
    dsimp only at found
    split at found
    · rename_i hit
      cases found
      refine ⟨_, rfl, fun u host cache => ?_⟩
      rw [resolveMethod_apply, host, known]
      dsimp only
      rw [cache, hit]
    · rename_i miss
      split at found
      · cases found
      · rename_i searched
        cases found
        refine ⟨_, rfl, fun u host cache => ?_⟩
        rw [resolveMethod_apply, host, known]
        dsimp only
        rw [cache, miss]
        dsimp only
        rw [searched]

theorem known_of_resolveMethod {type : TypeId} {shape : Bridge.CallShape} {tags : List Script.Tag}
    {m : Method} (found : resolveMethod type member shape tags w = (.ok m, v)) :
    ∃ info, w.host.domain.get? type = some info := by
  rw [resolveMethod_apply] at found
  cases known : w.host.domain.get? type with
  | none =>
    rw [known] at found
    cases found
  | some info => exact ⟨info, rfl⟩

/-- Running the function of a member on an instance comes to calling the method. -/
theorem run_member (serves : Serves scripts inner) (orderly : OrderlyRunner (fun _ => False) inner)
    {g : FunctionRef} {k u : World Engine} {arguments : List Value} {m : Method}
    (body : g.body = .bridge (.member o.type member)) (bridge : k.outer.bridgeDropped = false)
    (called : callWrapped inner o.type member (.handle t :: arguments)
        (keeping (.handle t :: arguments) (entered g (.handle t :: arguments) k)) =
      invokeMethod inner m (some o) arguments u)
    (script : u.outer.script = (entered g (.handle t :: arguments) k).outer.script) :
    ∃ v, scripts g (entered g (.handle t :: arguments) k) =
        (((invokeMethod inner m (some o) arguments u).1.mapError
          (·.map Bridge.Error.toScript)).map List.length, v) ∧
      World.Beside Engine.Agrees (invokeMethod inner m (some o) arguments u).2 v ∧
      ∀ results, (invokeMethod inner m (some o) arguments u).1 = .ok results →
        v.outer.script.stack = k.outer.script.stack ++
          (.function g :: .handle t :: arguments).toArray ++ results.toArray := by
  have size : (k.outer.script.stack ++ (Value.function g :: .handle t :: arguments).toArray).size =
      k.outer.script.stack.size + (arguments.length + 2) := Array.size_append
  have fits : u.outer.script.Fits := by
    rw [script]
    change k.outer.script.stack.size + 1 ≤ (k.outer.script.stack ++ _).size
    omega
  have invokes : Orderly (fun _ => False) .still (fun _ => True)
      (invokeMethod inner m (some o) arguments) :=
    orderly_invokeMethod orderly m arguments fun _ _ => id
  obtain ⟨leads, -⟩ := invokes u (proper_of_fits fits)
  have still := leads.script
  rw [script] at still
  let answering : Run Script.Error Nat := do
    let results ← (callWrapped inner o.type member (.handle t :: arguments)).mapError (·.toScript)
    modifyScript (·.pushAll results)
    return results.length
  have runs : scripts g (entered g (.handle t :: arguments) k) =
      holding (.handle t :: arguments) (fun _ => []) answering
        (entered g (.handle t :: arguments) k) := by
    rw [serves g _ body, runBridgeFunction_apply (by exact bridge), frameValues_entered]
    rfl
  obtain ⟨held, graveyard, same⟩ := exists_holding (.handle t :: arguments) (fun _ => [])
    answering (entered g (.handle t :: arguments) k)
  have answers : answering (keeping (.handle t :: arguments)
      (entered g (.handle t :: arguments) k)) = _ :=
    bind_apply ..
  rw [mapError_apply, called] at answers
  rw [answers] at same
  rw [runs, same]
  generalize invokeMethod inner m (some o) arguments u = r at still
  obtain ⟨ended, z⟩ := r
  cases ended with
  | ok results =>
    refine ⟨_, rfl, ⟨rfl, rfl, rfl, rfl, rfl, rfl, rfl⟩, fun _ given => ?_⟩
    cases given
    exact congrArg (· ++ results.toArray) still.1
  | error stop => exact ⟨_, rfl, ⟨rfl, rfl, rfl, rfl, rfl, rfl, rfl⟩, nofun⟩

theorem Relays.ofBridge {r : Except (Stop Bridge.Error) (List Value)}
    {r' : Except (Stop Script.Error) (List Value)}
    (relays : Relays Eq Script.Error.message (r.mapError (·.map Bridge.Error.toScript)) r') :
    Relays Eq Bridge.Error.message r r' := by
  match r, relays with
  | .ok _, .ok same => exact .ok same
  | .error (.failed e), .failed same => exact .failed (same.trans (Bridge.Error.message_toScript e))
  | .error (.panicked message), .panicked same => exact .panicked same
  | .error .exhausted, .exhausted => exact .exhausted

/-- Calling the function of a member on an instance hands on what calling the method gives. -/
theorem memberFunction_relays (serves : Serves scripts inner)
    (orderly : OrderlyRunner (fun _ => False) inner) {g : FunctionRef} {arguments : List Value}
    {m : Method} {u : World Engine} (body : g.body = .bridge (.member o.type member))
    (bridge : w.outer.bridgeDropped = false) (fits : w.outer.script.Fits)
    (shallow : w.outer.script.frames.length < w.outer.script.maxDepth)
    (room : w.outer.script.stack.size + arguments.length + 2 < w.outer.script.maxStack)
    (called : callWrapped inner o.type member (.handle t :: arguments)
        (keeping (.handle t :: arguments) (entered g (.handle t :: arguments)
          (keeping (.handle t :: arguments) (keeping [.function g] w)))) =
      invokeMethod inner m (some o) arguments u)
    (script : u.outer.script = (entered g (.handle t :: arguments) w).outer.script) :
    Relays Eq Bridge.Error.message (invokeMethod inner m (some o) arguments u).1
        (holding [.function g] id (holding (.handle t :: arguments) id
          (callValue scripts (.function g) (.handle t :: arguments))) w).1 ∧
      World.Beside Engine.Agrees (invokeMethod inner m (some o) arguments u).2
        (holding [.function g] id (holding (.handle t :: arguments) id
          (callValue scripts (.function g) (.handle t :: arguments))) w).2 := by
  obtain ⟨x, ran, beside, left⟩ := run_member serves orderly body (by exact bridge) called script
  have relays := callValue_relays (w := keeping _ (keeping _ w)) fits shallow (by exact room) ran
    fun results given => by
      refine left results ?_
      generalize (invokeMethod inner m (some o) arguments u).1 = r at given
      cases r with
      | ok _ =>
        cases given
        rfl
      | error _ => cases given
  rw [holding_fst, holding_fst]
  refine ⟨.ofBridge relays.1, beside.trans (relays.2.trans ?_)⟩
  exact (beside_holding _ id _ _).trans (beside_holding _ id _ w)

/-- Where a script calls a method of an object, the function of the member finds the method that a
call by the host finds, and calls it on the object with the same arguments. -/
theorem callWrapped_within (placed : w.host.domain.Placed)
    (refers : w.outer.bridge.registry.resolve (aliveIn w) t.handle = .ok (.object o))
    {arguments : List Value} {m : Method}
    (found : resolveMethod o.type member .ofInstance (arguments.map (·.tag)) w = (.ok m, v)) :
    callWrapped inner o.type member (.handle t :: arguments)
        (withinMember o.type member (.handle t :: arguments) w) =
      invokeMethod inner m (some o) arguments
        (withinMember o.type member (.handle t :: arguments) v) := by
  obtain ⟨info, known⟩ := known_of_resolveMethod found
  obtain ⟨cache, rfl, resolves⟩ := resolveMethod_alike found
  obtain ⟨g, nextId, wrappers, made⟩ :=
    w.outer.exists_memberFunction o.type (w.host.domain.nameOf o.type) member
  have self : w.host.domain.isSubtype o.type o.type = true :=
    Domain.Layered.isSubtype_self placed known
  unfold withinMember
  dsimp only
  rw [made w.outer rfl rfl, show (withCache w cache).host = w.host from rfl,
    made (withCache w cache).outer rfl rfl]
  refine callWrapped_method ?_ ?_ (resolves _ ?_ ?_)
  · exact refers
  · exact self
  · rfl
  · rfl

/-- A script that calls a method of an object gets what calling the method gives. -/
theorem callMethod_relays (serves : Serves scripts inner)
    (orderly : OrderlyRunner (fun _ => False) inner) (joined : Joined w) (wrapper : WrapperOf w t o)
    (held : .handle t ∈ w.outer.values) (shows : w.host.domain.ShowsMethod o.type member)
    {arguments : List Value} {m : Method}
    (found : resolveMethod o.type member .ofInstance (arguments.map (·.tag)) w = (.ok m, v))
    (shallow : w.outer.script.frames.length < w.outer.script.maxDepth)
    (room : w.outer.script.stack.size + 3 < w.outer.script.maxStack)
    (room' : w.outer.script.stack.size + arguments.length + 2 < w.outer.script.maxStack) :
    Relays Eq Bridge.Error.message
        (invokeMethod inner m (some o) arguments
          (withinMember o.type member (.handle t :: arguments) v)).1
        (callMethod scripts (.handle t) member arguments w).1 ∧
      World.Beside Engine.Agrees
        (invokeMethod inner m (some o) arguments
          (withinMember o.type member (.handle t :: arguments) v)).2
        (callMethod scripts (.handle t) member arguments w).2 := by
  obtain ⟨info, known⟩ := known_of_resolveMethod found
  have called : callWrapped inner _ _ _ _ = _ :=
    callWrapped_within joined.placed wrapper.refers found
  obtain ⟨cache, rfl, -⟩ := resolveMethod_alike found
  have named : w.host.domain.nameOf o.type = info.name := by
    unfold Domain.nameOf
    rw [known]
    rfl
  have indexed := index_method serves joined wrapper held known shows shallow room
  have calls : (w.outer.memberFunction o.type info.name member).1.body = _ :=
    joined.furnished.memberFunction info.name
  obtain ⟨g, nextId, wrappers, made⟩ := w.outer.exists_memberFunction o.type info.name member
  rw [made w.outer rfl rfl] at indexed calls
  have same : callMethod scripts (.handle t) member arguments w = _ := bind_apply ..
  rw [indexed] at same
  rw [same]
  unfold withinMember at called ⊢
  dsimp only at called ⊢
  rw [show (withCache w cache).host.domain.nameOf o.type = info.name from named,
    made (withCache w cache).outer rfl rfl] at called ⊢
  rw [named, made w.outer rfl rfl] at called
  exact memberFunction_relays (w := { w with outer := { w.outer with
      script := { w.outer.script with nextId }, bridge := { w.outer.bridge with wrappers } } })
    serves orderly calls joined.bridge joined.fits shallow room' called rfl

end Run

end ScriptHost
