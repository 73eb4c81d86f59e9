import ScriptHost.Engine.Resolve
import ScriptHost.Proofs.Engine.Conduct
import ScriptHost.Proofs.Engine.Narrowing
/-!
Which arguments a method takes and what becomes of them. The kinds of arguments are compared with the
parameters before a call, and the arguments are converted one after the other when it is made. A value
whose kind does not fit cannot be converted, and one whose kind fits is refused only for what it is.
-/
namespace ScriptHost

open Bridge (Handle Referent)
open Host (Domain Method NumericKind ObjectRef Param TypeInfo ValueType World)
open Script (Tag Value)

/-! ## One value -/

/-- Whether an object is an instance of a value type. -/
def Host.Domain.isStruct (d : Domain) (ref : ObjectRef) : Bool :=
  (d.get? ref.type).any (·.isValueType)

/-- The world in which an object has been copied. -/
def Host.World.copying (w : World Engine) (ref : ObjectRef) : World Engine :=
  { w with host := (w.host.duplicate ref).2 }

/-- What a handle refers to in a world. -/
def referent (w : World Engine) (wrapper : Script.Wrapper) : Except Bridge.Error Referent :=
  w.outer.bridge.registry.resolve (aliveIn w) (.ofWord wrapper.slot)

/-- What a value becomes where a host type is declared, and the world after that: an object stays
what it is unless it is an instance of a value type, which is copied. -/
inductive Becomes (w : World Engine) : Value → ValueType → Host.Value → World Engine → Prop
  | plain {x : Value} {type : ValueType} {h : Host.Value} (noHandle : x.wrapper? = none)
      (converted : plainToHost w.host.domain x type = .ok h) : Becomes w x type h w
  | object {wrapper : Script.Wrapper} {type : ValueType} {ref : ObjectRef}
      (resolved : referent w wrapper = .ok (.object ref))
      (accepted : w.host.domain.accepts type ref = true)
      (shared : w.host.domain.isStruct ref = false) :
      Becomes w (.handle wrapper) type (.object ref) w
  | copy {wrapper : Script.Wrapper} {type : ValueType} {ref : ObjectRef}
      (resolved : referent w wrapper = .ok (.object ref))
      (accepted : w.host.domain.accepts type ref = true)
      (copied : w.host.domain.isStruct ref = true) :
      Becomes w (.handle wrapper) type (.object (w.host.duplicate ref).1) (w.copying ref)

/-- Why a value is refused where a host type is declared though its kind fits, and with which
error. -/
inductive Unfit (w : World Engine) : Value → ValueType → Bridge.Error → Prop
  | number {x : Float} {kind : NumericKind} (beyond : ¬ kind.Admits x) :
      Unfit w (.number x) (.numeric kind)
        (.conversion kind.name ("number " ++ Number.plain.text x))
  | stale {wrapper : Script.Wrapper} {type : ValueType}
      (stale : referent w wrapper = .error (.stale (.ofWord wrapper.slot))) :
      Unfit w (.handle wrapper) type (.stale (.ofWord wrapper.slot))
  | ofClass {wrapper : Script.Wrapper} {type : ValueType} {id : Host.TypeId}
      (resolved : referent w wrapper = .ok (.type id)) :
      Unfit w (.handle wrapper) type (.conversion type.name "class")
  | unassignable {wrapper : Script.Wrapper} {type : ValueType} {ref : ObjectRef}
      (resolved : referent w wrapper = .ok (.object ref))
      (refused : w.host.domain.accepts type ref = false) :
      Unfit w (.handle wrapper) type
        (.conversion type.name ((w.host.domain.get? ref.type).elim "handle" (·.name)))
  | structNil {name : String} {info : TypeInfo} (found : w.host.domain.find? name = some info)
      (isStruct : info.isValueType = true) : Unfit w .nil (.named name) (.conversion name "nil")

theorem Bridge.Registry.resolve_error {r : Registry} {alive : ObjectRef → Bool} {h : Handle}
    {cause : Bridge.Error} (failed : r.resolve alive h = .error cause) : cause = .stale h := by
  unfold Registry.resolve at failed
  repeat' split at failed
  all_goals first
    | cases failed; rfl
    | cases failed

namespace Run

theorem copyIfStruct_apply {ε : Type} (ref : ObjectRef) (w : World Engine) :
    (copyIfStruct ref : Run ε ObjectRef) w =
      if w.host.domain.isStruct ref then (.ok (w.host.duplicate ref).1, w.copying ref)
      else (.ok ref, w) := by
  unfold copyIfStruct Domain.isStruct
  have read : (domain : Run ε Domain) w = (.ok w.host.domain, w) := rfl
  rw [bind_apply, read]
  dsimp only
  cases w.host.domain.get? ref.type with
  | none => rfl
  | some info =>
    dsimp only [Option.any]
    split <;> rfl

theorem toHost_handle_apply (wrapper : Script.Wrapper) (type : ValueType) (w : World Engine) :
    toHost (.handle wrapper) type w =
      match referent w wrapper with
      | .error cause => (.error (.failed cause), w)
      | .ok (.type _) => (.error (.failed (.conversion type.name "class")), w)
      | .ok (.object ref) =>
        if w.host.domain.accepts type ref then
          if w.host.domain.isStruct ref then
            (.ok (.object (w.host.duplicate ref).1), w.copying ref)
          else (.ok (.object ref), w)
        else
          (.error (.failed (.conversion type.name
            ((w.host.domain.get? ref.type).elim "handle" (·.name)))), w) := by
  show (resolveHandle (.ofWord wrapper.slot) >>= _) w = _
  have resolved : resolveHandle (.ofWord wrapper.slot) w =
      ((referent w wrapper).mapError .failed, w) := by
    show (ofExcept (referent w wrapper) : Run Bridge.Error Referent) w = _
    cases referent w wrapper <;> rfl
  rw [bind_apply, resolved]
  rcases referent w wrapper with cause | ref | type'
  · rfl
  · dsimp only [Except.mapError]
    show (if w.host.domain.accepts type ref = true then _ else _ : Run Bridge.Error Host.Value) w = _
    split
    · rw [bind_apply, copyIfStruct_apply]
      cases w.host.domain.isStruct ref <;> rfl
    · rfl
  · rfl

theorem toHost_plain_apply {x : Value} (noHandle : x.wrapper? = none) (type : ValueType)
    (w : World Engine) :
    toHost x type w = ((plainToHost w.host.domain x type).mapError .failed, w) := by
  have converted : toHost x type =
      (domain >>= fun d => ofExcept (plainToHost d x type) : Run Bridge.Error Host.Value) := by
    cases x with
    | handle wrapper => cases noHandle
    | _ => rfl
  rw [converted]
  show (ofExcept (plainToHost w.host.domain x type) : Run Bridge.Error Host.Value) w = _
  cases plainToHost w.host.domain x type <;> rfl

end Run

/-- A value that is no handle is converted only if its kind fits, and refused despite that only for
what it is. -/
theorem plainToHost_cases (w : World Engine) {x : Value} (noHandle : x.wrapper? = none)
    (type : ValueType) :
    (x.tag.fits type = true ∧ ∃ h, plainToHost w.host.domain x type = .ok h) ∨
      ∃ cause, plainToHost w.host.domain x type = .error cause ∧
        (x.tag.fits type = true → Unfit w x type cause) := by
  cases x with
  | handle wrapper => cases noHandle
  | nil =>
    cases type with
    | named name =>
      unfold plainToHost
      dsimp only
      cases found : w.host.domain.find? name with
      | none => exact .inl ⟨rfl, _, rfl⟩
      | some info =>
        dsimp only
        split
        · rename_i isStruct
          exact .inr ⟨_, rfl, fun _ => .structNil found isStruct⟩
        · exact .inl ⟨rfl, _, rfl⟩
    | string | object | array _ => exact .inl ⟨rfl, _, rfl⟩
    | _ => exact .inr ⟨_, rfl, nofun⟩
  | number x =>
    cases type with
    | numeric kind =>
      rcases narrow_cases x kind with ⟨-, h, became, -⟩ | ⟨beyond, refused⟩
      · exact .inl ⟨rfl, h, became⟩
      · exact .inr ⟨_, refused, fun _ => .number beyond⟩
    | object => exact .inl ⟨rfl, _, rfl⟩
    | _ => exact .inr ⟨_, rfl, nofun⟩
  | bool _ | string _ | pointer _ | function _ =>
    cases type <;> first
      | exact .inl ⟨rfl, _, rfl⟩
      | exact .inr ⟨_, rfl, nofun⟩

/-- A value is converted, and then its kind fits, or it is refused; if its kind fits, it is refused for
what it is. -/
theorem toHost_cases (x : Value) (type : ValueType) (w : World Engine) :
    (x.tag.fits type = true ∧ ∃ h v, Run.toHost x type w = (.ok h, v) ∧ Becomes w x type h v) ∨
      ∃ cause, Run.toHost x type w = (.error (.failed cause), w) ∧
        (x.tag.fits type = true → Unfit w x type cause) := by
  cases noHandle : x.wrapper? with
  | none =>
    rw [Run.toHost_plain_apply noHandle]
    obtain ⟨fits, h, converted⟩ | ⟨cause, refused, unfit⟩ := plainToHost_cases w noHandle type
    · exact .inl ⟨fits, h, w, by rw [converted]; rfl, .plain noHandle converted⟩
    · exact .inr ⟨cause, by rw [refused]; rfl, unfit⟩
  | some wrapper =>
    obtain rfl : x = .handle wrapper := by
      cases x <;> cases noHandle
      rfl
    rw [Run.toHost_handle_apply]
    rcases resolved : referent w wrapper with cause | ref | id
    · obtain rfl := Bridge.Registry.resolve_error resolved
      exact .inr ⟨_, rfl, fun _ => .stale resolved⟩
    · dsimp only
      cases accepted : w.host.domain.accepts type ref with
      | false => exact .inr ⟨_, rfl, fun _ => .unassignable resolved accepted⟩
      | true =>
        cases copied : w.host.domain.isStruct ref with
        | false => exact .inl ⟨rfl, _, _, rfl, .object resolved accepted copied⟩
        | true => exact .inl ⟨rfl, _, _, rfl, .copy resolved accepted copied⟩
    · exact .inr ⟨_, rfl, fun _ => .ofClass resolved⟩

/-! ## All arguments -/

/-- The worlds that come about by copying objects. -/
inductive Copies (w : World Engine) : World Engine → Prop
  | none : Copies w w
  | one {v : World Engine} (before : Copies w v) (ref : ObjectRef) : Copies w (v.copying ref)

theorem Copies.trans {w v u : World Engine} (first : Copies w v) (second : Copies v u) :
    Copies w u := by
  induction second with
  | none => exact first
  | one before ref ih => exact ih.one ref

theorem Becomes.copies {w v : World Engine} {x : Value} {type : ValueType} {h : Host.Value}
    (becomes : Becomes w x type h v) : Copies w v := by
  cases becomes with
  | plain _ _ => exact .none
  | object _ _ _ => exact .none
  | copy _ _ _ => exact Copies.none.one _

theorem toHostSlot_of_isInput {p : Param} (isInput : p.isInput = true) (x : Value) :
    Run.toHostSlot x p.type p.mode = Run.toHost x p.type := by
  unfold Run.toHostSlot
  unfold Param.isInput at isInput
  split
  · rename_i output
    rw [output] at isInput
    cases isInput
  · rfl

/-- The argument for the parameter in a place. Parameters that callers do not pass are not counted,
and an argument that is missing is nil. -/
def argumentFor (params : List Param) (arguments : List Value) (i : Nat) : Value :=
  arguments.getD ((params.take i).countP (·.isInput)) .nil

theorem argumentFor_zero (params : List Param) (arguments : List Value) :
    argumentFor params arguments 0 = arguments.headD .nil := by
  cases arguments <;> rfl

theorem argumentFor_succ (p : Param) (params : List Param) (arguments : List Value) (i : Nat) :
    argumentFor (p :: params) arguments (i + 1) =
      argumentFor params (if p.isInput then arguments.tail else arguments) i := by
  unfold argumentFor
  rw [List.take_succ_cons, List.countP_cons]
  split
  · cases arguments with
    | nil => rfl
    | cons x rest => rfl
  · rfl

/-- The kind of every argument fits. -/
def AllFit (params : List Param) (arguments : List Value) : Prop :=
  ∀ i p, params[i]? = some p → p.isInput = true →
    (argumentFor params arguments i).tag.fits p.type = true

theorem allFit_cons {p : Param} {params : List Param} {arguments : List Value} :
    AllFit (p :: params) arguments ↔
      (p.isInput = true → (arguments.headD .nil).tag.fits p.type = true) ∧
        AllFit params (if p.isInput then arguments.tail else arguments) := by
  constructor
  · intro fit
    refine ⟨fun isInput => ?_, fun i q found isInput => ?_⟩
    · rw [← argumentFor_zero (p :: params)]
      exact fit 0 p rfl isInput
    · rw [← argumentFor_succ]
      exact fit (i + 1) q found isInput
  · rintro ⟨first, others⟩ i q found isInput
    cases i with
    | zero =>
      obtain rfl := Option.some.inj found
      rw [argumentFor_zero]
      exact first isInput
    | succ i =>
      rw [argumentFor_succ]
      exact others i q found isInput

theorem zip_all_iff {params : List Param} {arguments : List Value}
    (enough : arguments.length = params.countP (·.isInput)) :
    (((params.filter (·.isInput)).zip (arguments.map (·.tag))).all fun (p, tag) =>
      tag.fits p.type) = true ↔ AllFit params arguments := by
  induction params generalizing arguments with
  | nil =>
    constructor
    · intro _ i p found
      cases found
    · exact fun _ => rfl
  | cons p params ih =>
    rw [allFit_cons]
    rw [List.countP_cons] at enough
    cases isInput : p.isInput with
    | false =>
      rw [isInput] at enough
      rw [List.filter_cons_of_neg (by simp [isInput]), ih enough]
      simp
    | true =>
      rw [isInput] at enough
      cases arguments with
      | nil => simp at enough
      | cons x rest =>
        rw [List.filter_cons_of_pos isInput, List.map_cons, List.zip_cons_cons, List.all_cons,
          Bool.and_eq_true, ih (Nat.succ.inj enough)]
        simp

/-- Kinds are accepted just if there are as many as parameters to pass and every one fits. -/
theorem takes_iff (m : Method) (arguments : List Value) :
    Bridge.takes m (arguments.map (·.tag)) = true ↔
      arguments.length = m.inputArity ∧ AllFit m.params arguments := by
  unfold Bridge.takes Method.inputArity
  dsimp only
  rw [Bool.and_eq_true, beq_iff_eq, List.length_map, ← List.countP_eq_length_filter]
  constructor
  · rintro ⟨enough, fits⟩
    exact ⟨enough.symm, (zip_all_iff enough.symm).1 fits⟩
  · rintro ⟨enough, fits⟩
    exact ⟨enough.symm, (zip_all_iff enough).2 fits⟩

/-- What is in the place of a parameter when all arguments are converted: what its argument has
become in its turn, or the default of its type. -/
def InPlace (w u : World Engine) (p : Param) (x : Value) (h : Host.Value) : Prop :=
  if p.isInput then ∃ v v', Copies w v ∧ Becomes v x p.type h v' ∧ Copies v' u
  else h = .defaultFor p.type

/-- Every argument is in the place of its parameter. -/
def Seated (w u : World Engine) (params : List Param) (arguments : List Value)
    (values : List Host.Value) : Prop :=
  values.length = params.length ∧ ∀ (i : Nat) (p : Param) (h : Host.Value), params[i]? = some p →
    values[i]? = some h → InPlace w u p (argumentFor params arguments i) h

section

variable {w v u : World Engine} {p : Param} {params : List Param} {x : Value}
  {arguments : List Value} {h : Host.Value} {values : List Host.Value}

theorem InPlace.later (inPlace : InPlace v u p x h) (before : Copies w v) :
    InPlace w u p x h := by
  unfold InPlace at inPlace ⊢
  split
  · rename_i isInput
    rw [if_pos isInput] at inPlace
    obtain ⟨first, second, until_, becomes, after⟩ := inPlace
    exact ⟨first, second, before.trans until_, becomes, after⟩
  · rename_i isOutput
    rwa [if_neg isOutput] at inPlace

theorem Seated.cons (first : InPlace w u p (arguments.headD .nil) h) (before : Copies w v)
    (rest : Seated v u params (if p.isInput then arguments.tail else arguments) values) :
    Seated w u (p :: params) arguments (h :: values) := by
  obtain ⟨length, places⟩ := rest
  refine ⟨congrArg Nat.succ length, fun i q k found held => ?_⟩
  cases i with
  | zero =>
    obtain rfl := Option.some.inj found
    obtain rfl := Option.some.inj held
    rw [argumentFor_zero]
    exact first
  | succ i =>
    rw [argumentFor_succ]
    exact (places i q k found held).later before

/-- How the conversion of arguments ends: with values in their places, and then every kind fits, or
with the refusal of one of them, which is for what it is if its kind fits. -/
inductive Marshaled (w u : World Engine) (params : List Param) (arguments : List Value) :
    Except (Stop Bridge.Error) (List Host.Value) → Prop
  | delivered {values : List Host.Value} (fit : AllFit params arguments)
      (places : Seated w u params arguments values) : Marshaled w u params arguments (.ok values)
  | refused {cause : Bridge.Error} {i : Nat} {p : Param} (found : params[i]? = some p)
      (isInput : p.isInput = true)
      (unfit : (argumentFor params arguments i).tag.fits p.type = true →
        Unfit u (argumentFor params arguments i) p.type cause) :
      Marshaled w u params arguments (.error (.failed cause))

theorem Marshaled.cons {result : Except (Stop Bridge.Error) (List Host.Value)}
    (first : InPlace w u p (arguments.headD .nil) h)
    (fits : p.isInput = true → (arguments.headD .nil).tag.fits p.type = true)
    (before : Copies w v)
    (rest : Marshaled v u params (if p.isInput then arguments.tail else arguments) result) :
    Marshaled w u (p :: params) arguments (result.map (h :: ·)) := by
  cases rest with
  | delivered fit places => exact .delivered (allFit_cons.2 ⟨fits, fit⟩) (places.cons first before)
  | @refused cause i q found isInput unfit =>
    rw [← argumentFor_succ] at unfit
    exact .refused (i := i + 1) found isInput unfit

end

theorem Run.map_apply {ε α β : Type} (f : α → β) (m : Run ε α) (w : World Engine) :
    (do return f (← m)) w = ((m w).1.map f, (m w).2) := by
  rw [bind_apply]
  rcases m w with ⟨_ | _, _⟩ <;> rfl

/-- Arguments are converted one after the other, until one is refused. -/
theorem marshaled (params : List Param) (arguments : List Value) (w : World Engine) :
    Copies w (Run.marshalArguments params arguments w).2 ∧
      Marshaled w (Run.marshalArguments params arguments w).2 params arguments
        (Run.marshalArguments params arguments w).1 := by
  induction params generalizing arguments w with
  | nil => exact ⟨.none, .delivered nofun ⟨rfl, nofun⟩⟩
  | cons p params ih =>
    unfold Run.marshalArguments
    cases isInput : p.isInput with
    | true =>
      rw [if_pos rfl, toHostSlot_of_isInput isInput, Run.bind_apply]
      obtain ⟨fits, h, v, converted, becomes⟩ | ⟨cause, refused, unfit⟩ :=
        toHost_cases (arguments.headD .nil) p.type w
      · rw [converted]
        dsimp only
        rw [Run.map_apply]
        obtain ⟨copies, rest⟩ := ih arguments.tail v
        refine ⟨becomes.copies.trans copies, .cons ?_ (fun _ => fits) becomes.copies ?_⟩
        · exact (if_pos isInput).mpr ⟨w, v, .none, becomes, copies⟩
        · rwa [isInput]
      · rw [refused]
        rw [← argumentFor_zero (p :: params)] at unfit
        exact ⟨.none, .refused (i := 0) rfl isInput unfit⟩
    | false =>
      rw [if_neg (by decide), Run.map_apply]
      obtain ⟨copies, rest⟩ := ih arguments w
      refine ⟨copies, .cons ?_ (fun passed => ?_) .none ?_⟩
      · exact (if_neg (by rw [isInput]; decide)).mpr rfl
      · rw [isInput] at passed
        cases passed
      · rwa [isInput]

/-- Comparing kinds and converting agree. Arguments that are as many as the parameters to pass are
converted only if their kinds are accepted; if the kinds are accepted, an argument is refused only for
what it is; and what is converted arrives in its place, with defaults in the places between. -/
theorem marshalArguments_agrees (m : Method) (arguments : List Value) (w : World Engine) :
    (arguments.length = m.inputArity →
      (∃ values u, Run.marshalArguments m.params arguments w = (.ok values, u)) →
      Bridge.takes m (arguments.map (·.tag)) = true) ∧
    (Bridge.takes m (arguments.map (·.tag)) = true →
      ∀ stop u, Run.marshalArguments m.params arguments w = (.error stop, u) →
        Copies w u ∧ ∃ cause i p, stop = .failed cause ∧ m.params[i]? = some p ∧
          p.isInput = true ∧ Unfit u (argumentFor m.params arguments i) p.type cause) ∧
    ∀ values u, Run.marshalArguments m.params arguments w = (.ok values, u) →
      Copies w u ∧ Seated w u m.params arguments values := by
  obtain ⟨copies, ends⟩ := marshaled m.params arguments w
  refine ⟨?_, ?_, ?_⟩
  · rintro enough ⟨values, u, run⟩
    rw [run] at ends
    cases ends with
    | delivered fit places => exact (takes_iff m arguments).2 ⟨enough, fit⟩
  · intro accepted stop u run
    rw [run] at copies ends
    cases ends with
    | refused found isInput unfit =>
      have fits := ((takes_iff m arguments).1 accepted).2 _ _ found isInput
      exact ⟨copies, _, _, _, rfl, found, isInput, unfit fits⟩
  · intro values u run
    rw [run] at copies ends
    cases ends with
    | delivered fit places => exact ⟨copies, places⟩

/-- A method with parameters of all modes. -/
def sampler : Method where
  token := ⟨1⟩
  declaring := ⟨0⟩
  declaringName := "Shop"
  name := "sample"
  kind := .static
  params := [⟨"count", .numeric .int32, .input⟩, ⟨"left", .numeric .int32, .output⟩,
    ⟨"label", .string, .byRef⟩]
  ret := .void
  body := .absent

/-- A number and nil are accepted and arrive around a default. A number that is too large is accepted
as well and refused for what it is. -/
theorem marshalArguments_agrees_sampler :
    let w : World Engine := ⟨{}, #[], [], .ofOptions {}⟩
    let small := [.number (Number.ofInt64 7), .nil]
    let large := [.number (Number.ofInt64 0x80000000), .nil]
    Bridge.takes sampler (small.map (·.tag)) = true ∧
      (∃ u, Seated w u sampler.params small [.int 7, .int 0, .null]) ∧
      ∃ cause u i p, (Run.marshalArguments sampler.params large w).1 = .error (.failed cause) ∧
        sampler.params[i]? = some p ∧ Unfit u (argumentFor sampler.params large i) p.type cause := by
  intro w small large
  obtain ⟨accepted, -, delivered⟩ := marshalArguments_agrees sampler small w
  obtain ⟨-, refused, -⟩ := marshalArguments_agrees sampler large w
  have converts : (Run.marshalArguments sampler.params small w).1.toOption =
      some [.int 7, .int 0, .null] := by decide +kernel
  have fails : (Run.marshalArguments sampler.params large w).1.toOption = none := by
    decide +kernel
  rcases run : Run.marshalArguments sampler.params small w with ⟨_ | values, u⟩
  · rw [run] at converts
    cases converts
  · rw [run] at converts
    obtain rfl := Option.some.inj converts
    refine ⟨accepted rfl ⟨_, u, run⟩, ⟨u, (delivered _ u run).2⟩, ?_⟩
    rcases run' : Run.marshalArguments sampler.params large w with ⟨stop | values, v⟩
    · obtain ⟨-, cause, i, p, rfl, found, -, unfit⟩ := refused (by decide) stop v run'
      exact ⟨cause, v, i, p, rfl, found, unfit⟩
    · rw [run'] at fails
      cases fails

end ScriptHost
