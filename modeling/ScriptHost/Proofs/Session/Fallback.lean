import ScriptHost.Proofs.Session.Asking
import ScriptHost.Proofs.Session.Interpreter
/-!
Methods whose patches decline. Whatever the functions do that are patches, the method runs its own
code on its own arguments then, and scripts find their stack as they left it.
-/
namespace ScriptHost

open Host Image

variable {levels limit : Nat} {m : MethodDef} {hub : MethodToken} {own injected : Body}
  {method consult : Method} {this : Option ObjectRef} {args : Array Value} {w : World Engine}

/-- Patches that decline leave all that the method needs as it was. -/
theorem declined_question (whole : Whole w)
    (known : AllOpen w.host.Lacks args.toList)
    (target : ∀ ref, this = some ref → ref.Open w.host.Lacks)
    (declines : Run.Declines (Session.interpreter levels).function
      (patchRequest m method this w.host.carrierRef) (asked w m own injected method this args)) :
    ∃ u, Run.dispatchPatch (Session.interpreter levels).function
        (patchRequest m method this w.host.carrierRef) (asked w m own injected method this args) =
          (.ok false, u) ∧
      u.host.heap.slots w.host.carrierRef = args.push (resultDefault method) ∧
      u.outer.script.stack = w.outer.script.stack ∧
      u.outer.script.frames = w.outer.script.frames := by
  have answer := declines.answer
  have proper := whole.proper_posed method known
  have fewer : ∀ id, id = w.host.carrierRef.id → w.host.Lacks id := fun id same =>
    Nat.le_of_eq same.symm
  have leads := Run.refrains_dispatchPatch (Session.orderly_interpreter levels)
    (r := patchRequest m method this w.host.carrierRef)
    (fun ref same => (target ref same).anti fewer) (asked w m own injected method this args)
    ⟨proper.host, proper.engine, proper.fits⟩ (by rw [answer]; exact fun same => (nomatch same))
  generalize Run.dispatchPatch (Session.interpreter levels).function
    (patchRequest m method this w.host.carrierRef) (asked w m own injected method this args) = ended
    at answer leads
  obtain ⟨result, u⟩ := ended
  cases answer
  obtain ⟨stack, frames⟩ : Script.Discipline.still.Allows _ _ := leads.script
  have unseen := leads.host.leads.unseen w.host.carrierRef.id rfl
  refine ⟨u, rfl, ?_, stack, frames⟩
  unfold Heap.slots
  rw [Array.getD_eq_getD_getElem?, unseen, ← Array.getD_eq_getD_getElem?]
  exact w.host.slots_withCarrier (args.push (resultDefault method))

/-- A method whose patches decline runs its own code. -/
theorem runBody_falls_back (depth : Nat)
    (prepared : Prepared w.host.domain m hub own injected method consult)
    (hasThis : this.isSome = method.hasThis) (arity : args.size = method.params.length)
    {u : World Engine} {run : Run.Runner}
    (declined : Run.dispatchPatch run (patchRequest m method this w.host.carrierRef)
      (asked w m own injected method this args) = (.ok false, u))
    (enough : 13 + 4 * m.params.length ≤ limit) :
    runBody (invoke (Run.patchedContext run limit) (depth + 1)) limit method injected this limit
        (.start injected args) w =
      runBody (invoke (Run.patchedContext run limit) (depth + 1)) limit method own this
        (limit - (13 + 4 * m.params.length))
        ⟨0, [], own.locals.map Value.defaultFor ++ prologueLocals m w.host.carrierRef, args⟩
        { u with pins := u.pins.tail.tail } := by
  obtain ⟨remaining, budget⟩ := Nat.exists_eq_add_of_le' enough
  have split : limit = remaining + 3 + (hubCallAt m + 1) := by
    unfold hubCallAt
    omega
  have dispatched : (Run.patchedContext run limit).dispatch
      (patchRequest m method this w.host.carrierRef) (asked w m own injected method this args) =
        (.ok false, u) := by
    unfold Run.patchedContext
    dsimp only
    rw [declined]
  have left : limit - (13 + 4 * m.params.length) = remaining := by omega
  have unfolded : runBody (invoke (Run.patchedContext run limit) (depth + 1)) limit method injected
        this limit (.start injected args) w =
      runBody (invoke (Run.patchedContext run limit) (depth + 1)) limit method injected this
        (remaining + 3 + (hubCallAt m + 1)) (.start injected args) w := by
    rw [← split]
  rw [unfolded, runBody_asking _ depth prepared hasThis arity, consulted_eq, dispatched]
  dsimp only
  rw [runBody_declined prepared.shape, askingLocals_eq prepared.shape, left]

/-- A call of a prepared method whose patches decline: they answer no, the carrier holds the
arguments, stack and frames of the scripts are as they were, and the call comes to what the own code
comes to on the arguments, within the steps that the prologue left. -/
theorem invoke_falls_back (depth : Nat)
    (prepared : Prepared w.host.domain m hub own injected method consult)
    (whole : Whole w) (known : AllOpen w.host.Lacks args.toList)
    (target : ∀ r, this = some r → r.Open w.host.Lacks) (arity : args.size = method.params.length)
    {ref : Option ObjectRef} {v : World Engine}
    (received : World.onHost (receiver method this) w = (.ok ref, v))
    (declines : Run.Declines (Session.interpreter levels).function
      (patchRequest m method ref v.host.carrierRef) (asked v m own injected method ref args))
    (enough : 13 + 4 * m.params.length ≤ limit) :
    ∃ u, Run.dispatchPatch (Session.interpreter levels).function
        (patchRequest m method ref v.host.carrierRef) (asked v m own injected method ref args) =
          (.ok false, u) ∧
      u.host.heap.slots v.host.carrierRef = args.push (resultDefault method) ∧
      u.outer.script.stack = w.outer.script.stack ∧
      u.outer.script.frames = w.outer.script.frames ∧
      invoke (Run.patchedContext (Session.interpreter levels).function limit) (depth + 2) method this
          args w =
        let (completion, last) :=
          runBody (invoke (Run.patchedContext (Session.interpreter levels).function limit)
            (depth + 1)) limit method own ref (limit - (13 + 4 * m.params.length))
            ⟨0, [], own.locals.map Value.defaultFor ++ prologueLocals m v.host.carrierRef, args⟩
            { u with pins := u.pins.tail.tail }
        (completion.ofCall method ref, last) := by
  have made := received_of_receiver whole.host target received
  have whole' : Whole v := by
    refine ⟨made.closed, ?_, ?_⟩
    · rw [made.outer]
      exact whole.engine.anti made.fewer
    · rw [made.outer]
      exact whole.fits
  have prepared' : Prepared v.host.domain m hub own injected method consult := by
    rw [made.domain]
    exact prepared
  obtain ⟨u, declined, slots, stack, frames⟩ :=
    declined_question whole' (known.anti made.fewer) made.target declines
  rw [made.outer] at stack frames
  refine ⟨u, declined, slots, stack, frames, ?_⟩
  have ran := runBody_falls_back depth prepared' made.hasThis arity declined enough
  have called := invoke_code (Run.patchedContext (Session.interpreter levels).function limit)
    (depth + 1) prepared.code arity received
  have limits : (Run.patchedContext (Session.interpreter levels).function limit).stepLimit = limit :=
    rfl
  rw [limits, ran] at called
  exact called

/-- Whatever function is the patch of a method of an injected image: if it fails, breaks off, is
refused by the limits of the scripts, does not answer yes, or gives what cannot be converted, then
the method does what its own code does, in the world that the function left. -/
theorem falls_back_of_inject {image after : Image} {report : InjectReport} {s loaded : State}
    {ids : List TypeId} (injection : image.inject = .ok (after, report))
    (load : after.load s = (.ok ids, loaded)) {m : MethodDef} (member : m ∈ image.methods)
    (patchable : m.attrs.patchable = true) :
    ∃ source own moved hub injected method consult, m.body = some source ∧
      after.remapBody s.domain.nextToken source = .ok own ∧
      moved = mapMethod (tokenMap after s.domain.nextToken) m source ∧
      Prepared loaded.domain moved hub own injected method consult ∧
      ∀ (levels limit depth : Nat) (this ref : Option ObjectRef) (args : Array Value)
        (w v : World Engine),
        loaded.domain.Evolves w.host.domain → Whole w → AllOpen w.host.Lacks args.toList →
        (∀ r, this = some r → r.Open w.host.Lacks) → args.size = method.params.length →
        World.onHost (receiver method this) w = (.ok ref, v) →
        Run.Declines (Session.interpreter levels).function
          (patchRequest moved method ref v.host.carrierRef)
          (asked v moved own injected method ref args) →
        13 + 4 * m.params.length ≤ limit →
        ∃ u, Run.dispatchPatch (Session.interpreter levels).function
            (patchRequest moved method ref v.host.carrierRef)
            (asked v moved own injected method ref args) = (.ok false, u) ∧
          u.host.heap.slots v.host.carrierRef = args.push (resultDefault method) ∧
          u.outer.script.stack = w.outer.script.stack ∧
          u.outer.script.frames = w.outer.script.frames ∧
          invoke (Run.patchedContext (Session.interpreter levels).function limit) (depth + 2) method
              this args w =
            let (completion, last) :=
              runBody (invoke (Run.patchedContext (Session.interpreter levels).function limit)
                (depth + 1)) limit method own ref (limit - (13 + 4 * m.params.length))
                ⟨0, [], own.locals.map Value.defaultFor ++ prologueLocals m v.host.carrierRef,
                  args⟩ { u with pins := u.pins.tail.tail }
            (completion.ofCall method ref, last) := by
  obtain ⟨source, hub, injected, method, consult, body, remapped, prepared⟩ :=
    prepared_of_load injection load member patchable
  refine ⟨source, _, _, hub, injected, method, consult, body, remapped, rfl, prepared, ?_⟩
  intro levels limit depth this ref args w v grown whole known target arity received declines enough
  exact invoke_falls_back depth (prepared.mono grown.extends) whole known target arity received
    declines enough

/-- A function that fails. -/
def failure : Script.FunctionRef where
  id := 0
  name := "failure"
  proto := none
  body := .block [{ action := .stack (.raise "no") }]

theorem whole_patchedWishes (f : Script.FunctionRef) : Whole (patchedWishes f) := by
  have objects : (injectedWishes.load {}).2.heap.objects = #[] := by decide +kernel
  have statics : (injectedWishes.load {}).2.statics = #[#[], #[]] := by decide +kernel
  refine ⟨⟨fun slots member => ?_, fun slots member => ?_⟩, ⟨?_, ?_⟩, Nat.le_refl 0⟩
  · change slots ∈ (injectedWishes.load {}).2.heap.objects at member
    rw [objects] at member
    exact (Array.not_mem_empty _ member).elim
  · change slots ∈ (injectedWishes.load {}).2.statics at member
    rw [statics] at member
    have empty : slots = #[] := by simpa using member
    rw [empty]
    exact .nil
  · exact fun entry member => (List.not_mem_nil member).elim
  · exact fun slot member => (Array.not_mem_empty _ member).elim

section

variable {moved : MethodDef} {hub : MethodToken} {own injected : Body} {method consult : Method}
  {f : MethodToken → MethodToken}

theorem declines_failure {d : Domain} (prepared : Prepared d moved hub own injected method consult)
    (same : moved = mapMethod f grant grantBody) :
    Run.Declines (Session.interpreter 9).function
      (patchRequest moved method none (patchedWishes failure).host.carrierRef)
      (asked (patchedWishes failure) moved own injected method none #[.int 1, .int 2]) := by
  have params : method.params = grant.params := by
    rw [prepared.params, same]
    rfl
  have found : (Table.insert {} grant.signature failure).find? moved.signature = some failure := by
    rw [same]
    rfl
  have arity : (#[.int 1, .int 2] : Array Value).size = method.params.length := by
    rw [params]
    rfl
  have given := patchArguments_asked moved own injected none (patchedWishes failure) arity
  rw [params] at given
  exact .failed found given rfl

end

/-- A failing patch leaves the method what it gives by itself. -/
theorem falls_back_of_failure :
    ∃ method, (injectedWishes.load {}).2.domain.method? ⟨2⟩ = some method ∧
      (invoke (Run.patchedContext (Session.interpreter 9).function 100) 4 method none
        #[.int 1, .int 2] (patchedWishes failure)).1 = ⟨.returned (.int 1), #[.int 1, .int 2]⟩ := by
  obtain ⟨report, injection⟩ := inject_wishes
  obtain ⟨source, own, moved, hub, injected, method, consult, body, remapped, same, prepared, falls⟩ :=
    falls_back_of_inject injection load_injectedWishes (m := grant) (by decide) rfl
  obtain rfl : grantBody = source := Option.some.inj body
  have named := prepared.known
  rw [same] at named
  change (injectedWishes.load {}).2.domain.method? (tokenMap injectedWishes _ ⟨2⟩) = _ at named
  rw [tokenMap_injectedWishes] at named
  have kind : method.kind = .static := by
    rw [prepared.kind, same]
    rfl
  have returns : method.returnsValue = true := by
    rw [prepared.returnsValue, same]
    rfl
  have arity : (#[.int 1, .int 2] : Array Value).size = method.params.length := by
    rw [prepared.params, same]
    rfl
  have known : AllOpen (patchedWishes failure).host.Lacks
      (#[.int 1, .int 2] : Array Value).toList := .cons trivial (.cons trivial .nil)
  obtain ⟨u, _, _, _, _, ran⟩ := falls 9 100 2 none none #[.int 1, .int 2] (patchedWishes failure)
    (patchedWishes failure) .refl (whole_patchedWishes failure) known
    (fun r same => (nomatch same)) arity (receiver_static kind none _)
    (declines_failure prepared same) (by decide)
  have budget : 100 - (13 + 4 * grant.params.length) = 77 + 2 := rfl
  refine ⟨method, named, ?_⟩
  rw [ran, (remapBody_eq_ok_iff.1 remapped).2, budget]
  dsimp only
  rw [runBody_grant returns _ _ _ _ rfl]
  exact Completion.ofCall_of_ne (kind ▸ by decide) _ _

/-- A prologue uses up steps. Within a budget that a method keeps to by itself, it may fail once it
was injected, although its patch declines. -/
theorem fallback_out_of_steps :
    (∃ method, (wishes.load {}).2.domain.method? ⟨2⟩ = some method ∧
      (invoke (Run.patchedContext (Session.interpreter 9).function 21) 4 method none
        #[.int 1, .int 2] { patchedWishes failure with host := (wishes.load {}).2 }).1 =
          ⟨.returned (.int 1), #[.int 1, .int 2]⟩) ∧
    ∃ method, (injectedWishes.load {}).2.domain.method? ⟨2⟩ = some method ∧
      (invoke (Run.patchedContext (Session.interpreter 9).function 21) 4 method none
        #[.int 1, .int 2] (patchedWishes failure)).1 =
          ⟨.threw (.stepLimit 21 method.signature), #[.int 1, .int 2]⟩ := by
  constructor
  · obtain ⟨method, f, named, code, kind, params, returns⟩ := exists_grant
    have arity : (#[.int 1, .int 2] : Array Value).size = method.params.length := by
      rw [params]
      rfl
    have called := fun ctx : Context Engine => invoke_code ctx 3 code arity (receiver_static kind none
      { patchedWishes failure with host := (wishes.load {}).2 })
    have limits : (Run.patchedContext (Session.interpreter 9).function 21).stepLimit = 19 + 2 := rfl
    refine ⟨method, named, ?_⟩
    rw [called, limits]
    dsimp only [Activation.start]
    rw [runBody_grant returns _ _ _ _ rfl]
    exact Completion.ofCall_of_ne (kind ▸ by decide) _ _
  · obtain ⟨report, injection⟩ := inject_wishes
    obtain ⟨source, hub, injected, method, consult, body, _, prepared⟩ :=
      prepared_of_load injection load_injectedWishes (m := grant) (by decide) rfl
    obtain rfl : grantBody = source := Option.some.inj body
    have named := prepared.known
    change (injectedWishes.load {}).2.domain.method? (tokenMap injectedWishes _ ⟨2⟩) = _ at named
    rw [tokenMap_injectedWishes] at named
    have kind : method.kind = .static := prepared.kind
    have arity : (#[.int 1, .int 2] : Array Value).size = method.params.length := by
      rw [prepared.params]
      rfl
    have known : AllOpen (patchedWishes failure).host.Lacks
        (#[.int 1, .int 2] : Array Value).toList := .cons trivial (.cons trivial .nil)
    have prepared' : Prepared (patchedWishes failure).host.domain _ hub _ injected method consult :=
      prepared
    have noTarget : ∀ r, (none : Option ObjectRef) = some r →
        r.Open (patchedWishes failure).host.Lacks := fun _ same => (nomatch same)
    obtain ⟨u, _, _, _, _, ran⟩ := invoke_falls_back 2 prepared' (whole_patchedWishes failure) known
      noTarget arity (receiver_static kind none _)
      (declines_failure prepared rfl) (Nat.le_refl 21)
    refine ⟨method, named, ?_⟩
    rw [ran]
    have nothingLeft : 21 - (13 + 4 * (mapMethod (tokenMap injectedWishes
      ({} : State).domain.nextToken) grant grantBody).params.length) = 0 := rfl
    rw [nothingLeft]
    dsimp only
    rw [runBody_zero (first_grant _)]
    exact Completion.ofCall_of_ne (kind ▸ by decide) _ _

end ScriptHost
