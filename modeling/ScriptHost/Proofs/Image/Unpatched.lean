import ScriptHost.Proofs.Host.Simulation
import ScriptHost.Proofs.Image.Answer
import ScriptHost.Proofs.Image.SafeRuns
/-!
Calls of injected methods that no patch takes the place of. They come to the same as calls of the
methods that were not injected, whatever prologues run on the way.
-/
namespace ScriptHost.Image

open Host Host.Verify

variable {ε δ : Type} {image : Image} {first : UInt32} {versions : Versions} {p : Places}

/-! ## What an injected image adds -/

/-- The number of parameters of the patchable method that has most of them. -/
def widest (image : Image) : Nat :=
  ((image.methods.filter (·.attrs.patchable)).map (·.params.length)).max?.getD 0

/-- The slots of a carrier: the arguments of a patchable method, and the default of its result. -/
def IsCarrier (image : Image) (slots : Array Value) : Prop :=
  ∃ m ∈ image.methods, m.attrs.patchable = true ∧ ∃ args : Array Value,
    args.size = m.params.length ∧
      slots = args.push (if m.returnsValue then Value.defaultFor m.ret else .null)

theorem length_le_widest {m : MethodDef} (member : m ∈ image.methods)
    (patchable : m.attrs.patchable = true) : m.params.length ≤ image.widest :=
  List.le_max?_getD_of_mem (List.mem_map_of_mem (List.mem_filter.2 ⟨member, patchable⟩))

/-- What stands in the place of a method once the image is injected: the same body, or one with a
prologue in front. -/
inductive Replaced (image : Image) (d : Domain) (method method' : Method) : Prop
  | kept (body : method'.body = method.body)
  | injected {m : MethodDef} {hub : MethodToken} {own injected : Body} {consult : Method}
      (code : method.body = .code own) (prepared : Prepared d m hub own injected method' consult)
      (narrow : m.params.length ≤ image.widest)
      (carries : ∀ args : Array Value, args.size = m.params.length →
        image.IsCarrier (args.push (resultDefault method')))

/-- Every method of the first version is replaced in the second one. -/
structure Refitted (image : Image) (first : UInt32) (versions : Versions) : Prop where
  spare : versions.spare = image.IsCarrier
  strip : ∀ {token : MethodToken} {method method' : Method},
    versions.first.method? token = some method → versions.second.method? token = some method' →
    method'.strip = method.strip
  replaced : ∀ {token : MethodToken} {method method' : Method} {depths : Depths},
    versions.first.method? token = some method → versions.second.method? token = some method' →
    Recorded image first method depths → Replaced image versions.second method method'

/-! ## Asking in vain -/

/-- A host that knows the arrays of objects makes a carrier and nothing else. -/
theorem like_withCarrier {s t : State} (hosts : s.Like versions p t) {slots : Array Value}
    (isSpare : versions.spare slots) : s.Like versions p (t.withCarrier slots) := by
  obtain ⟨id, known⟩ := hosts.interned
  have same : (t.arrayType .object).2 = t := by
    unfold State.arrayType
    rw [known]
  unfold State.withCarrier
  rw [same]
  exact { hosts with heap := hosts.heap.pushSpare isSpare }

/-- The hub answers no, and there is one more carrier. -/
theorem consulted_of_declines {ctx : Context ε} (declines : ctx.Declines) (w : World ε)
    (m : MethodDef) (own injected : Body) (method : Method) (this : Option ObjectRef)
    (args : Array Value) :
    ∃ v : World ε, consulted ctx m own injected method this args w.host.carrierRef
        (posed w method args) = (.ok false, v) ∧
      v.host = w.host.withCarrier (args.push (resultDefault method)) := by
  obtain ⟨no, unchanged⟩ := declines (patchRequest m method this w.host.carrierRef)
    (asked w m own injected method this args)
  rw [consulted_eq]
  refine ⟨_, Prod.ext no rfl, unchanged⟩

/-- A body with a prologue, asked in vain, goes on with the own code. -/
theorem runBody_unpatched {ctx : Context ε} (declines : ctx.Declines) {w : World ε} {m : MethodDef}
    {hub : MethodToken} {own injected : Body} {method consult : Method} {this : Option ObjectRef}
    {args : Array Value} (prepared : Prepared w.host.domain m hub own injected method consult)
    (hasThis : this.isSome = method.hasThis) (arity : args.size = method.params.length)
    (depth limit remaining : Nat) :
    ∃ v : World ε, v.host = w.host.withCarrier (args.push (resultDefault method)) ∧
      runBody (invoke ctx (depth + 1)) limit method injected this
          (remaining + (13 + 4 * m.params.length)) (.start injected args) w =
        runBody (invoke ctx (depth + 1)) limit method own this remaining
          ⟨0, [], askingLocals own injected w.host.carrierRef, args⟩ v := by
  obtain ⟨v, answered, host⟩ := consulted_of_declines declines w m own injected method this args
  have split : remaining + (13 + 4 * m.params.length) = remaining + 3 + (hubCallAt m + 1) := by
    unfold hubCallAt
    omega
  refine ⟨v, host, ?_⟩
  rw [split, runBody_asking ctx depth prepared hasThis arity, answered]
  exact runBody_declined prepared.shape limit remaining w.host.carrierRef v

theorem like_default {types : Array ValueType} {i : Nat} {v : Value}
    (found : (types.map Value.defaultFor)[i]? = some v) : v.Like p v := by
  rw [Array.getElem?_map] at found
  obtain ⟨type, _, rfl⟩ := Option.map_eq_some_iff.1 found
  exact .defaultFor type

/-- The locals of the own body are among those of the injected one. -/
theorem like_askingLocals {m : MethodDef} {hub : MethodToken} {own injected : Body}
    (shape : Injected m hub own injected) (carrier : ObjectRef) (i : Nat) (v : Value)
    (found : (own.locals.map Value.defaultFor)[i]? = some v) :
    ∃ v', (askingLocals own injected carrier)[i]? = some v' ∧ v.Like p v' := by
  rw [Array.getElem?_map] at found
  obtain ⟨type, there, rfl⟩ := Option.map_eq_some_iff.1 found
  obtain ⟨inBounds, _⟩ := Array.getElem?_eq_some_iff.1 there
  have notCarrier : own.locals.size ≠ i := Nat.ne_of_gt inBounds
  refine ⟨_, ?_, .defaultFor type⟩
  unfold askingLocals
  rw [Array.getElem?_setIfInBounds, if_neg notCarrier, Array.getElem?_map, shape.locals]
  unfold injectedLocals
  rw [Array.getElem?_append_left, Array.getElem?_push_lt inBounds,
    ← Array.getElem?_eq_getElem inBounds, there]
  · rfl
  · rw [Array.size_push]
    omega

/-! ## Calls -/

/-- A method that has its receiver comes to the same as what stands in its place. -/
theorem sameRun_runMethod {ctx : Context ε} {ctx' : Context δ} {depth depth' : Nat}
    {token : MethodToken} {method method' : Method} {depths : Depths}
    {this this' : Option ObjectRef} {args args' : Array Value} {w : World ε} {v : World δ}
    (refitted : Refitted image first versions) (declines : ctx.Declines)
    (declines' : ctx'.Declines) (budget : ctx.stepLimit + (13 + 4 * image.widest) ≤ ctx'.stepLimit)
    (calls : SameCalls versions (Recorded image first) (invoke ctx depth) (invoke ctx' (depth' + 1)))
    (known : versions.first.method? token = some method)
    (known' : versions.second.method? token = some method')
    (record : Recorded image first method depths)
    (vetted : Vetted w.host.domain (Recorded image first))
    (hasThis : this.isSome = method.hasThis) (arity : args.size = method.params.length)
    (target : Option.Rel (ObjectRef.Like p) this this') (like : AllLike p args.toList args'.toList)
    (hosts : w.host.Like versions p v.host)
    (finished : (runMethod ctx depth method this args w).1.ending.Finished) :
    SameRun versions p (runMethod ctx depth method this args w)
      (runMethod ctx' (depth' + 1) method' this' args' v) := by
  have same := refitted.strip known known'
  obtain ⟨m, member, becomes, _⟩ := id record
  cases refitted.replaced known known' record with
  | kept body =>
    have unit := becomes.body
    cases code : method.body with
    | native actions =>
      rw [code] at unit
      cases unit
    | code own =>
      have started : runMethod ctx' (depth' + 1) method' this' args' v =
          runBody (invoke ctx' (depth' + 1)) ctx'.stepLimit method' own this' ctx'.stepLimit
            (.start own args') v := by
        unfold runMethod
        rw [body, code]
      rw [started]
      exact sameRun_of_start declines.keepsTypes vetted record code hasThis arity calls same target
        like (fun i x found => ⟨x, found, like_default found⟩) hosts (by omega) finished
    | patchHub =>
      obtain ⟨ending, hosts'⟩ := like_consultPatches declines declines' like hosts
      unfold runMethod
      rw [body, code]
      exact ⟨p, .refl p, hosts', ending, like⟩
    | absent =>
      have signature : method'.signature = method.signature := (congrArg Method.signature same :)
      unfold runMethod
      rw [body, code, signature]
      exact ⟨p, .refl p, hosts, .threw _, like⟩
  | @injected m hub own injected consult code prepared narrow carries =>
    have params : method'.params = method.params := (congrArg Method.params same :)
    have prepared' : Prepared v.host.domain m hub own injected method' consult :=
      { prepared with
        known := (hosts.methods' _).trans prepared.known
        hubKnown := (hosts.methods' _).trans prepared.hubKnown }
    have hasThis' : this'.isSome = method'.hasThis := by
      have sameKind : method'.hasThis = method.hasThis := (congrArg Method.hasThis same :)
      rw [sameKind, ← hasThis]
      cases target <;> rfl
    have arity' : args'.size = method'.params.length := by
      rw [like.size, params, arity]
    have narrow' : 13 + 4 * m.params.length ≤ ctx'.stepLimit := by omega
    obtain ⟨u, host, asked⟩ := runBody_unpatched declines' prepared' hasThis' arity' depth'
      ctx'.stepLimit (ctx'.stepLimit - (13 + 4 * m.params.length))
    rw [Nat.sub_add_cancel narrow'] at asked
    have started : runMethod ctx' (depth' + 1) method' this' args' v =
        runBody (invoke ctx' (depth' + 1)) ctx'.stepLimit method' injected this' ctx'.stepLimit
          (.start injected args') v := by
      unfold runMethod
      rw [prepared.code]
    have isSpare : versions.spare (args'.push (resultDefault method')) := by
      rw [refitted.spare]
      exact carries args' (by rw [arity', prepared.params])
    have hosts' : w.host.Like versions p u.host := by
      rw [host]
      exact like_withCarrier hosts isSpare
    rw [started, asked]
    exact sameRun_of_start declines.keepsTypes vetted record code hasThis arity calls same target like
      (like_askingLocals prepared.shape _) hosts' (by omega) finished

/-- Calls come to the same on both sides, if the second one has the steps for the questions and for
one more call, that of the hub. -/
theorem sameCalls_invoke {ctx : Context ε} {ctx' : Context δ} (refitted : Refitted image first versions)
    (declines : ctx.Declines) (declines' : ctx'.Declines)
    (budget : ctx.stepLimit + (13 + 4 * image.widest) ≤ ctx'.stepLimit) {depth depth' : Nat}
    (deeper : depth < depth') :
    SameCalls versions (Recorded image first) (invoke ctx depth) (invoke ctx' depth') := by
  induction depth generalizing depth' with
  | zero =>
    intro _ _ _ _ _ _ _ _ _ _ _ _ _ _ _ _ _ _ finished
    exact absurd rfl finished.inDepth
  | succ depth ih =>
    intro token method method' depths p this this' args args' w v known known' record vetted target
      like hosts finished
    obtain ⟨depth', rfl⟩ : ∃ n, depth' = n + 1 + 1 := ⟨depth' - 2, by omega⟩
    have same := refitted.strip known known'
    have params : method'.params = method.params := (congrArg Method.params same :)
    have signature : method'.signature = method.signature := (congrArg Method.signature same :)
    rw [invoke_succ] at finished ⊢
    rw [invoke_succ, like.size, params, signature]
    by_cases arity : args.size = method.params.length
    · rw [if_neg (not_not_intro arity), World.onHost_apply] at finished ⊢
      rw [if_neg (not_not_intro arity), World.onHost_apply]
      obtain ⟨q, grown, hosts', received⟩ := likewise_receiver same target hosts
      have evolves := (evolves_receiver method this w.host).extends
      cases made : receiver method this w.host with
      | mk outcome s =>
        cases made' : receiver method' this' v.host with
        | mk outcome' t =>
          rw [made] at finished evolves
          rw [made, made'] at hosts' received
          cases received with
          | error e => exact ⟨q, grown, hosts', .threw e, like.mono grown⟩
          | @ok ref ref' given =>
            have calls : SameCalls versions (Recorded image first) (invoke ctx depth)
                (invoke ctx' (depth' + 1)) := ih (by omega)
            have run := sameRun_runMethod (w := { w with host := s }) (v := { v with host := t })
              refitted declines declines' budget calls known known' record
              (vetted.mono evolves) (isSome_of_receiver (congrArg Prod.fst made)) arity given
              (like.mono grown) hosts' (Completion.finished_ofCall finished)
            exact (run.ofCall (congrArg Method.kind same) given).mono grown
    · rw [if_pos arity, if_pos arity]
      exact ⟨p, .refl p, hosts, .threw _, like⟩

end ScriptHost.Image
