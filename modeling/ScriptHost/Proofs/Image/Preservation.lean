import ScriptHost.Proofs.Image.InjectedImage
import ScriptHost.Proofs.Image.Unpatched
/-!
Injection preserves what methods do as long as no patch takes the place of one. The image and the
injected image, loaded into copies of one host, run alike but for the identity of objects.
-/
namespace ScriptHost.Image

open Host Host.Verify
open List (Forall₂)
open Results (mem_of_mapM)

variable {image after : Image} {report : InjectReport} {first : UInt32} {s original loaded : State}
  {ids : List TypeId}

/-! ## The two versions of a loaded image -/

/-- A method is found under its own token only. -/
theorem token_of_method? {d : Domain} {token : MethodToken} {method : Method}
    (known : d.method? token = some method) : method.token = token := by
  unfold Domain.method? at known
  obtain ⟨info, _, found⟩ := Array.exists_of_findSome?_eq_some known
  exact eq_of_beq (List.find?_some (p := fun m : Method => m.token == token) found)

/-- The body of a loaded method is settled by the image. -/
theorem BodyBecomes.unique {m : MethodDef} {body body' : MethodBody}
    (becomes : BodyBecomes image first m body) (other : BodyBecomes image first m body') :
    body' = body := by
  cases becomes with
  | hub marked => exact other.of_hub marked
  | code unmarked own remapped =>
    obtain ⟨moved, same, remapped'⟩ := other.of_code unmarked own
    rw [same, Except.ok.inj (remapped'.symm.trans remapped)]
  | absent unmarked none =>
    cases other with
    | hub marked =>
      rw [unmarked] at marked
      cases marked
    | code _ own => cases none.symm.trans own
    | absent => rfl

/-- An injected image maps tokens as the image does. -/
theorem mappedToken?_of_inject (injection : image.inject = .ok (after, report)) (first : UInt32) :
    after.mappedToken? first = image.mappedToken? first := by
  rw [← mappedToken?_strip, strip_of_inject injection, mappedToken?_strip]

theorem remapBody_of_inject (injection : image.inject = .ok (after, report)) (first : UInt32) :
    after.remapBody first = image.remapBody first := by
  rw [← remapBody_strip, strip_of_inject injection, remapBody_strip]

theorem BodyBecomes.of_inject {m : MethodDef} {body : MethodBody}
    (injection : image.inject = .ok (after, report)) (becomes : BodyBecomes after first m body) :
    BodyBecomes image first m body := by
  cases becomes with
  | hub marked => exact .hub marked
  | absent unmarked none => exact .absent unmarked none
  | code unmarked own remapped =>
    rw [remapBody_of_inject injection] at remapped
    exact .code unmarked own remapped

/-- In the injected image every method of the image is replaced by one with a prologue, or by itself. -/
theorem refitted_of_load (injection : image.inject = .ok (after, report))
    (load : image.load s = (.ok ids, original)) (load' : after.load s = (.ok ids, loaded)) :
    Refitted image s.domain.nextToken ⟨original.domain, loaded.domain, image.IsCarrier⟩ := by
  have types : loaded.domain.strip = original.domain.strip := by
    have same := (load_of_inject injection s).2
    rw [load, load'] at same
    exact congrArg State.domain same
  obtain ⟨_, hub, _, _, _, _, mapped⟩ := turns_of_inject injection
  refine ⟨rfl, fun {token method method'} known known' => ?_,
    fun {token method method' depths} known known' record => ?_⟩
  · have same := Domain.method?_strip loaded.domain token
    rw [types, Domain.method?_strip, known, known'] at same
    exact (Option.some.inj same).symm
  obtain ⟨m, member, becomes, _⟩ := record
  have mapsTo : after.mappedToken? s.domain.nextToken m.token = some token := by
    rw [mappedToken?_of_inject injection, becomes.token, token_of_method? known]
  by_cases patchable : m.attrs.patchable = true
  · obtain ⟨own, hubToken, injected, found, consult, body, remapped, prepared⟩ :=
      prepared_of_load injection load' member patchable
    have sameToken : tokenMap after s.domain.nextToken m.token = token := by
      unfold tokenMap
      rw [mapsTo]
      rfl
    have named : loaded.domain.method? (tokenMap after s.domain.nextToken m.token) = some found :=
      prepared.known
    rw [sameToken, known'] at named
    cases named
    obtain ⟨m', _, turned⟩ := (mem_of_mapM mapped).1 m member
    rw [turn_of_patchable patchable] at turned
    obtain ⟨_, takes⟩ := takesPrologue_of_injectMethod turned
    obtain ⟨moved, code, remapped'⟩ := becomes.body.of_code takes.notHub body
    rw [← remapBody_of_inject injection, remapped] at remapped'
    cases remapped'
    have narrow := length_le_widest member patchable
    refine .injected code prepared narrow fun args size =>
      ⟨m, member, patchable, args, size, ?_⟩
    have returns : method'.returnsValue = m.returnsValue := prepared.returnsValue
    unfold resultDefault
    rw [returns]
    cases wanted : m.returnsValue with
    | false => rfl
    | true =>
      have ret : method'.ret = m.ret := prepared.ret wanted
      rw [ret]
  · obtain ⟨m', inside, turned⟩ := (mem_of_mapM mapped).1 m member
    rw [turn_of_unpatchable (eq_false_of_ne_true patchable)] at turned
    cases turned
    obtain ⟨found, becomes', named⟩ := installed_of_load load' m inside
    rw [Option.some.inj (becomes'.token.symm.trans mapsTo), known'] at named
    cases named
    exact .kept (becomes.body.unique (becomes'.body.of_inject injection))

/-! ## Runs that start alike -/

/-- The places of objects that are where they were. -/
def stay (size : Nat) : Places :=
  fun i => if i < size then some i else none

theorem stay_of_lt {size i : Nat} (inside : i < size) : stay size i = some i :=
  if_pos inside

theorem like_of_open {s : State} {v : Value} (known : v.Open s.Lacks) :
    v.Like (stay s.heap.objects.size) v := by
  cases v with
  | object ref => exact .object ⟨stay_of_lt (Nat.lt_of_not_le known), rfl⟩
  | _ => exact .plain rfl

theorem allLike_of_open {s : State} {values : List Value} (known : AllOpen s.Lacks values) :
    AllLike (stay s.heap.objects.size) values values :=
  List.forall₂_same.2 fun v member => like_of_open (known v member)

/-- A call in the image and one in the injected image that start alike: each in the domain that took
in its image, with the same objects and static slots, and with references to objects that are there. -/
structure StartAlike {ε δ : Type} (original loaded : State) (w : World ε) (v : World δ)
    (this : Option ObjectRef) (args : Array Value) : Prop where
  domain : w.host.domain = original.domain
  domain' : v.host.domain = loaded.domain
  heap : v.host.heap = w.host.heap
  statics : v.host.statics = w.host.statics
  closed : w.host.Closed
  target : ∀ ref, this = some ref → ref.Open w.host.Lacks
  args : AllOpen w.host.Lacks args.toList

section

variable {ε δ : Type} {w : World ε} {v : World δ} {this : Option ObjectRef} {args : Array Value}

/-- Calls that start alike find hosts that are alike, with every object where it is. -/
theorem StartAlike.like (start : StartAlike original loaded w v this args)
    (types : loaded.domain.strip = original.domain.strip)
    (interned : ∃ id, loaded.domain.findArray? .object = some id) (spare : Array Value → Prop) :
    w.host.Like ⟨original.domain, loaded.domain, spare⟩ (stay w.host.heap.objects.size) v.host := by
  refine ⟨⟨fun i j place first second => ?_, fun i => ?_, fun i j placed => ?_,
    fun j slots found free => ?_⟩, ?_, ?_, fun token => ?_, fun token => ?_, ?_⟩
  · unfold stay at first second
    split at first <;> cases first
    split at second <;> cases second
    rfl
  · unfold stay
    split
    · rename_i inside
      exact ⟨fun none => (nomatch none), fun beyond => absurd inside (Nat.not_lt.2 beyond)⟩
    · rename_i beyond
      exact ⟨fun _ => Nat.le_of_not_lt beyond, fun _ => rfl⟩
  · unfold stay at placed
    split at placed <;> cases placed
    rename_i inside
    have found := Array.getElem?_eq_getElem inside
    have found' : v.host.heap.objects[i]? = some w.host.heap.objects[i] := by
      rw [start.heap]
      exact found
    refine ⟨_, _, found, found', ?_⟩
    exact allLike_of_open (start.closed.slots _ (Array.mem_of_getElem? found))
  · rw [start.heap] at found
    obtain ⟨inside, _⟩ := Array.getElem?_eq_some_iff.1 found
    exact absurd (stay_of_lt inside) (free j)
  · rw [start.statics]
    refine List.forall₂_same.2 fun slots member => allLike_of_open ?_
    exact start.closed.statics slots (Array.mem_toList_iff.1 member)
  · rw [start.domain, start.domain', types]
  · rw [start.domain]
  · rw [start.domain']
  · rw [start.domain']
    exact interned

end

/-! ## Preservation -/

/-- Every method of an image runs after injection as it ran before, if the patches decline. The hosts
know the type of arrays of objects, and the image is loaded into one copy of a host and the injected
image into another. A call of the method in the first copy, with any receiver, arguments and objects,
that does not end for want of steps or for the depth of its calls, comes to the same in the second
copy with the steps for one more prologue: the endings and the arguments left are alike, and so are
the hosts. The objects that were there before stay in their places, and what is there besides the
objects of the first copy are carriers. -/
theorem preserves_unpatched_of_inject (injection : image.inject = .ok (after, report))
    (load : image.load s = (.ok ids, original)) {arrays : TypeId}
    (interned : s.domain.findArray? .object = some arrays) :
    ∃ loaded, after.load s = (.ok ids, loaded) ∧ ∀ m ∈ image.methods, ∃ method method',
      Becomes image s.domain.nextToken m method ∧
      original.domain.method? method.token = some method ∧
      loaded.domain.method? method.token = some method' ∧
      ∀ (ε δ : Type) (ctx : Context ε) (ctx' : Context δ) (depth depth' : Nat)
        (this : Option ObjectRef) (args : Array Value) (w : World ε) (v : World δ),
        ctx.Declines → ctx'.Declines →
        ctx.stepLimit + (13 + 4 * image.widest) ≤ ctx'.stepLimit → depth < depth' →
        StartAlike original loaded w v this args →
        (invoke ctx depth method this args w).1.ending.Finished →
        ∃ places : Places, (∀ i < w.host.heap.objects.size, places i = some i) ∧
          (invoke ctx depth method this args w).1.Like places
            (invoke ctx' depth' method' this args v).1 ∧
          (invoke ctx depth method this args w).2.host.Like
            ⟨original.domain, loaded.domain, image.IsCarrier⟩ places
            (invoke ctx' depth' method' this args v).2.host := by
  have loads := load_of_inject injection s
  rw [load] at loads
  have load' : after.load s = (.ok ids, (after.load s).2) := Prod.ext loads.1 rfl
  have types : (after.load s).2.domain.strip = original.domain.strip :=
    congrArg State.domain loads.2
  have refitted := refitted_of_load injection load load'
  have installed := installed_of_load load
  have verified := verified_of_load load
  have known := (evolves_of_load load').extends.findArray? interned
  refine ⟨_, load', fun m member => ?_⟩
  obtain ⟨method, becomes, named⟩ := installed m member
  obtain ⟨depths, positive⟩ := exists_record verified member
  have record : Recorded image s.domain.nextToken method depths :=
    ⟨m, member, becomes, fun own body => (positive own body).2⟩
  have same := Domain.method?_strip (after.load s).2.domain method.token
  rw [types, Domain.method?_strip, named] at same
  obtain ⟨method', named', _⟩ := Option.map_eq_some_iff.1 same.symm
  refine ⟨method, method', becomes, named, named', ?_⟩
  intro ε δ ctx ctx' depth depth' this args w v declines declines' budget deeper start finished
  have vetted : Vetted w.host.domain (Recorded image s.domain.nextToken) := by
    rw [start.domain]
    exact installed.vetted verified
  have target : Option.Rel (ObjectRef.Like (stay w.host.heap.objects.size)) this this := by
    cases this with
    | none => exact .none
    | some ref => exact .some ⟨stay_of_lt (Nat.lt_of_not_le (start.target ref rfl)), rfl⟩
  obtain ⟨places, grown, hosts, alike⟩ := sameCalls_invoke refitted declines declines' budget deeper
    named named' record vetted target (allLike_of_open start.args)
    (start.like types ⟨arrays, known⟩ image.IsCarrier) finished
  exact ⟨places, fun i inside => grown i i (stay_of_lt inside), alike, hosts⟩

/-- An empty host that knows the type of arrays of objects. -/
def arraysHost : State :=
  (({} : State).arrayType .object).2

/-- A world around a domain, without objects. -/
def bare (d : Domain) : World Unit :=
  .alone ⟨d, {}, #[]⟩

theorem startAlike_bare (original loaded : State) (i j : Int64) :
    StartAlike original loaded (bare original.domain) (bare loaded.domain) none #[.int i, .int j] where
  domain := rfl
  domain' := rfl
  heap := rfl
  statics := rfl
  closed := ⟨fun _ member => (Array.not_mem_empty _ member).elim,
    fun _ member => (Array.not_mem_empty _ member).elim⟩
  target := fun _ same => (nomatch same)
  args := .cons trivial (.cons trivial .nil)

/-- Calling the method that gives its first argument, with two steps before injection and as many as
a prologue takes besides after it. -/
theorem preserves_unpatched_wishes : ∃ original loaded,
    wishes.load arraysHost = (.ok [⟨2⟩], original) ∧
    injectedWishes.load arraysHost = (.ok [⟨2⟩], loaded) ∧
    ∃ method method', original.domain.method? method.token = some method ∧
      loaded.domain.method? method.token = some method' ∧
      (invoke (.direct 2) 1 method none #[.int 7, .int 8] (bare original.domain)).1.ending =
        .returned (.int 7) ∧
      (invoke (.direct 23) 2 method' none #[.int 7, .int 8] (bare loaded.domain)).1.ending =
        .returned (.int 7) := by
  obtain ⟨report, injection⟩ := inject_wishes
  have ok : (wishes.load arraysHost).1 = .ok [⟨2⟩] := by decide +kernel
  have load : wishes.load arraysHost = (.ok [⟨2⟩], (wishes.load arraysHost).2) := Prod.ext ok rfl
  have interned : arraysHost.domain.findArray? .object = some ⟨1⟩ := by decide +kernel
  obtain ⟨loaded, load', each⟩ := preserves_unpatched_of_inject injection load interned
  obtain ⟨method, method', becomes, named, named', preserves⟩ := each grant (by decide)
  obtain ⟨moved, code, remapped⟩ := becomes.body.of_code rfl rfl
  obtain ⟨_, rfl⟩ := remapBody_eq_ok_iff.1 remapped
  have kind : method.kind = .static := becomes.kind
  have arity : (#[.int 7, .int 8] : Array Value).size = method.params.length := by
    rw [becomes.params]
    rfl
  have returns : (invoke (.direct 2) 1 method none #[.int 7, .int 8]
      (bare (wishes.load arraysHost).2.domain)).1.ending = .returned (.int 7) := by
    have limit : (Context.direct 2 : Context Unit).stepLimit = 0 + 2 := rfl
    rw [invoke_code _ 0 code arity (receiver_static kind none _), limit]
    dsimp only [Activation.start]
    rw [runBody_grant becomes.returnsValue _ _ _ _ rfl, Completion.ofCall_of_ne (kind ▸ by decide)]
    rfl
  have finished : (invoke (.direct 2) 1 method none #[.int 7, .int 8]
      (bare (wishes.load arraysHost).2.domain)).1.ending.Finished := by
    rw [returns]
    exact Ending.finished_returned _
  obtain ⟨places, _, ⟨endings, _⟩, _⟩ := preserves Unit Unit (.direct 2) (.direct 23) 1 2 none
    #[.int 7, .int 8] (bare (wishes.load arraysHost).2.domain) (bare loaded.domain)
    (declines_direct 2) (declines_direct 23) (by decide) (by decide) (startAlike_bare _ _ 7 8)
    finished
  refine ⟨_, loaded, load, load', method, method', named, named', returns, ?_⟩
  rw [returns] at endings
  generalize (invoke (.direct 23) 2 method' none #[.int 7, .int 8] (bare loaded.domain)).1.ending =
    ending at endings ⊢
  cases endings with
  | returned same =>
    cases same
    rfl

end ScriptHost.Image
