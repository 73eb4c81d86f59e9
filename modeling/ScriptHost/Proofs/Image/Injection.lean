import ScriptHost.Proofs.Image.Question
import ScriptHost.Proofs.Image.Remap
/-!
Loading an injected image: its patchable methods have prologues that ask its hub.
-/
namespace ScriptHost.Image

open Host
open Results (bind_eq_ok mapError_eq_ok mem_of_mapM)

variable {image : Image}

/-! ## What injection achieves -/

/-- What injection makes of a method. -/
structure Gains (hub : MethodToken) (m m' : MethodDef) (own injected : Body) : Prop where
  shape : Injected m hub own injected
  notHub : m.attrs.patchHub = false
  result : m' = { m with body := some injected, attrs := { m.attrs with injected := true } }

theorem gains_of_injectMethod {hub : MethodToken} {m m' : MethodDef}
    (result : image.injectMethod hub m = .ok m') :
    ∃ own injected, Gains hub m m' own injected := by
  unfold injectMethod at result
  by_cases already : (m.attrs.injected || carriesPrologue m) = true
  · rw [if_pos already] at result
    cases result
  rw [if_neg already] at result
  dsimp only at result
  by_cases isHub : m.attrs.patchHub = true
  · rw [if_pos isHub] at result
    cases result
  rw [if_neg isHub] at result
  obtain ⟨injected, made, result⟩ := bind_eq_ok.1 result
  obtain ⟨_, _, result⟩ := bind_eq_ok.1 result
  cases result
  obtain ⟨own, shape⟩ := injected_of_injectBody (mapError_eq_ok.1 made)
  exact ⟨own, injected, shape, eq_false_of_ne_true isHub, rfl⟩

/-- What injection makes of an image. -/
theorem inject_eq_ok {after : Image} {report : InjectReport}
    (result : image.inject = .ok (after, report)) :
    image.verify = .ok () ∧ ∃ hub methods, image.hubs = [hub] ∧
      after = { image with methods } ∧
      image.methods.mapM (fun m =>
        if m.attrs.patchable then image.injectMethod hub.token m else pure m) = .ok methods := by
  unfold inject at result
  obtain ⟨_, verified, result⟩ := bind_eq_ok.1 result
  refine ⟨mapError_eq_ok.1 verified, ?_⟩
  split at result
  · rename_i hub only
    obtain ⟨methods, mapped, result⟩ := bind_eq_ok.1 result
    cases result
    exact ⟨hub, methods, only, rfl, mapped⟩
  · cases result

/-- The hub of an injected image is a method of it, and each patchable method gained a prologue that
asks that hub. -/
theorem exists_hub_of_inject {after : Image} {report : InjectReport}
    (result : image.inject = .ok (after, report)) :
    ∃ hub ∈ after.methods, hub.attrs.patchHub = true ∧
      ∀ m ∈ image.methods, m.attrs.patchable = true →
        ∃ m' ∈ after.methods, ∃ own injected, Gains hub.token m m' own injected := by
  obtain ⟨_, hub, methods, only, rfl, mapped⟩ := inject_eq_ok result
  obtain ⟨forth, _⟩ := mem_of_mapM mapped
  have isHub : hub ∈ image.hubs := by rw [only]; exact List.mem_singleton_self hub
  obtain ⟨inImage, marked⟩ := List.mem_filter.1 isHub
  have gains : ∀ m ∈ image.methods, m.attrs.patchable = true →
      ∃ m' ∈ methods, ∃ own injected, Gains hub.token m m' own injected := by
    intro m member patchable
    obtain ⟨m', inside, made⟩ := forth m member
    rw [if_pos patchable] at made
    exact ⟨m', inside, gains_of_injectMethod made⟩
  refine ⟨hub, ?_, marked, gains⟩
  obtain ⟨same, inside, made⟩ := forth hub inImage
  by_cases patchable : hub.attrs.patchable = true
  · obtain ⟨_, _, _, _, gained⟩ := gains hub inImage patchable
    rw [gained.notHub] at marked
    cases marked
  · rw [if_neg patchable] at made
    cases made
    exact inside

/-! ## Loading what was injected -/

/-- What a hub becomes. -/
theorem Becomes.hub {first : UInt32} {hub : MethodDef} {consult : Method}
    (becomes : Becomes image first hub consult) (marked : hub.attrs.patchHub = true)
    (verified : image.verify = .ok ()) (member : hub ∈ image.methods) :
    consult.body = .patchHub ∧ consult.kind = .static ∧ consult.params.length = 4 ∧
      consult.returnsValue = true := by
  obtain ⟨isStatic, ret, arity⟩ := of_isHubShape ((declared_of_verify verified member).hubShape marked)
  refine ⟨becomes.body.of_hub marked, becomes.kind.trans isStatic, ?_, ?_⟩
  · rw [becomes.params, arity]
  · rw [becomes.returnsValue]
    unfold MethodDef.returnsValue
    rw [isStatic, ret]
    rfl

/-- A domain that has grown still has a prepared method. -/
theorem Prepared.mono {d e : Domain} {m : MethodDef} {hub : MethodToken} {own injected : Body}
    {method consult : Method} (prepared : Prepared d m hub own injected method consult)
    (grown : d.Extends e) : Prepared e m hub own injected method consult :=
  { prepared with
    known := grown.method? prepared.known
    hubKnown := grown.method? prepared.hubKnown }

/-- A patchable method as the image of its domain describes it: with the tokens of the domain. -/
theorem prepared_of_load {after : Image} {report : InjectReport} {s loaded : State}
    {ids : List TypeId} (injection : image.inject = .ok (after, report))
    (load : after.load s = (.ok ids, loaded)) {m : MethodDef} (member : m ∈ image.methods)
    (patchable : m.attrs.patchable = true) :
    ∃ own hub injected method consult, m.body = some own ∧
      after.remapBody s.domain.nextToken own =
        .ok (mapBody (tokenMap after s.domain.nextToken) own) ∧
      Prepared loaded.domain (mapMethod (tokenMap after s.domain.nextToken) m own) hub
        (mapBody (tokenMap after s.domain.nextToken) own) injected method consult := by
  have installed := installed_of_load load
  have verified := verified_of_load load
  obtain ⟨hub, isMember, marked, gains⟩ := exists_hub_of_inject injection
  obtain ⟨m', inside, own, injected, gained⟩ := gains m member patchable
  obtain ⟨method, becomes, named⟩ := installed m' inside
  obtain ⟨consult, hubBecomes, hubNamed⟩ := installed hub isMember
  obtain ⟨hubBody, hubKind, hubParams, hubReturns⟩ := hubBecomes.hub marked verified isMember
  obtain rfl := gained.result
  obtain ⟨moved, code, remapped⟩ := becomes.body.of_code gained.notHub rfl
  obtain ⟨tokenKnown, hubKnown, ownKnown⟩ := gained.shape.known remapped
  obtain ⟨_, rfl⟩ := remapBody_eq_ok_iff.1 remapped
  rw [← Option.some.inj (tokenKnown.symm.trans becomes.token)] at named
  rw [← Option.some.inj (hubKnown.symm.trans hubBecomes.token)] at hubNamed
  exact ⟨own, _, _, method, consult, gained.shape.body, ownKnown, gained.shape.map, code, becomes.signature,
    becomes.kind, becomes.params, becomes.returnsValue, becomes.ret_of_returnsValue, named, hubNamed,
    hubBody, hubKind, hubParams, hubReturns⟩

/-! ## An image to inject -/

/-- Code that gives the first argument. -/
def grantBody : Body :=
  { code := #[.ldArg 0, .ret] }

theorem code_grant (f : MethodToken → MethodToken) :
    (mapBody f grantBody).code = #[.ldArg 0, .ret] := by
  simp [mapBody, grantBody, Instr.mapToken]

theorem first_grant (f : MethodToken → MethodToken) :
    (mapBody f grantBody).code[0]? = some (.ldArg 0) := by
  rw [code_grant]
  rfl

theorem runBody_grant {ε : Type}
    {call : Method → Option ObjectRef → Array Value → StateM (World ε) Completion}
    {method : Method} (returns : method.returnsValue = true) (f : MethodToken → MethodToken)
    (limit remaining : Nat) (this : Option ObjectRef) {locals args : Array Value} {v : Value}
    (first : args[0]? = some v) (w : World ε) :
    runBody call limit method (mapBody f grantBody) this (remaining + 2) ⟨0, [], locals, args⟩ w =
      (⟨.returned v, args⟩, w) := by
  have loaded : perform method this ⟨0, [], locals, args⟩ (.ldArg 0) w =
      (.ok (.next ⟨1, [v], locals, args⟩), w) := perform_ldArg first
  have atSecond : (mapBody f grantBody).code[1]? = some .ret := by
    rw [code_grant]
    rfl
  rw [runBody_next (first_grant f) loaded, runBody_succ atSecond, perform_ret_value returns]

/-- A method that gives its first argument, and may be patched. -/
def grant : MethodDef where
  token := ⟨2⟩
  declaring := "Wish"
  name := "Grant"
  kind := .static
  params := [⟨"a", .numeric .int64, .input⟩, ⟨"b", .numeric .int64, .byRef⟩]
  ret := .numeric .int64
  attrs := { patchable := true }
  body := some grantBody

/-- A type with a hub and that method. -/
def wishes : Image where
  name := "Wishes"
  types := [{ name := "Wish" }]
  methods := [
    { token := ⟨1⟩, declaring := "Wish", name := "Ask", kind := .static, params := hubParams
      ret := .bool, attrs := { patchHub := true } }, grant]

/-- The image after injection. -/
def injectedWishes : Image :=
  match wishes.inject with
  | .ok (after, _) => after
  | .error _ => wishes

theorem inject_wishes : ∃ report, wishes.inject = .ok (injectedWishes, report) := by
  have ok : wishes.inject.isOk = true := by with_unfolding_all decide
  unfold injectedWishes
  cases result : wishes.inject with
  | error e =>
    rw [result] at ok
    cases ok
  | ok r => exact ⟨r.2, rfl⟩

theorem load_wishes : wishes.load {} = (.ok [⟨1⟩], (wishes.load {}).2) := by
  have ok : (wishes.load {}).1 = .ok [⟨1⟩] := by with_unfolding_all decide
  exact Prod.ext ok rfl

theorem load_injectedWishes :
    injectedWishes.load {} = (.ok [⟨1⟩], (injectedWishes.load {}).2) := by
  have ok : (injectedWishes.load {}).1 = .ok [⟨1⟩] := by with_unfolding_all decide
  exact Prod.ext ok rfl

/-- The method as the image describes it that was not injected. -/
theorem exists_grant : ∃ method f, (wishes.load {}).2.domain.method? ⟨2⟩ = some method ∧
    method.body = .code (mapBody f grantBody) ∧ method.kind = .static ∧
    method.params = grant.params ∧ method.returnsValue = true := by
  obtain ⟨method, becomes, named⟩ := installed_of_load load_wishes grant (by decide)
  obtain ⟨moved, code, remapped⟩ := becomes.body.of_code rfl rfl
  have token : wishes.mappedToken? ({} : State).domain.nextToken grant.token = some ⟨2⟩ := by
    with_unfolding_all decide
  rw [← Option.some.inj (token.symm.trans becomes.token)] at named
  obtain ⟨_, rfl⟩ := remapBody_eq_ok_iff.1 remapped
  exact ⟨method, _, named, code, becomes.kind, becomes.params, becomes.returnsValue⟩

theorem tokenMap_injectedWishes :
    tokenMap injectedWishes ({} : State).domain.nextToken ⟨2⟩ = ⟨2⟩ := by with_unfolding_all decide

end ScriptHost.Image
