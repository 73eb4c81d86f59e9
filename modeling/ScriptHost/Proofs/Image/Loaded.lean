import ScriptHost.Proofs.Host.Growth
import ScriptHost.Proofs.Image.Placement
/-!
What loading an image achieves: every method of the image is in the domain, under the token that
takes the place of its own.
-/
namespace ScriptHost.Image

open Host
open List (Forall₂)
open Results (bind_eq_ok exists_of_forall₂ forall₂_of_mapM map_eq_ok mem_of_mapM)

variable {image : Image} {first : UInt32}

/-! ## What a method becomes -/

/-- What the body of a method becomes. -/
inductive BodyBecomes (image : Image) (first : UInt32) (m : MethodDef) : MethodBody → Prop
  | hub (marked : m.attrs.patchHub = true) : BodyBecomes image first m .patchHub
  | code {own moved : Body} (unmarked : m.attrs.patchHub = false) (body : m.body = some own)
      (remapped : image.remapBody first own = .ok moved) : BodyBecomes image first m (.code moved)
  | absent (unmarked : m.attrs.patchHub = false) (body : m.body = none) :
      BodyBecomes image first m .absent

theorem BodyBecomes.of_hub {m : MethodDef} {body : MethodBody}
    (becomes : BodyBecomes image first m body) (marked : m.attrs.patchHub = true) :
    body = .patchHub := by
  cases becomes with
  | hub => rfl
  | code unmarked | absent unmarked =>
    rw [marked] at unmarked
    cases unmarked

theorem BodyBecomes.of_code {m : MethodDef} {body : MethodBody} {own : Body}
    (becomes : BodyBecomes image first m body) (unmarked : m.attrs.patchHub = false)
    (hasBody : m.body = some own) :
    ∃ moved, body = .code moved ∧ image.remapBody first own = .ok moved := by
  cases becomes with
  | hub marked =>
    rw [unmarked] at marked
    cases marked
  | code _ body remapped =>
    cases hasBody.symm.trans body
    exact ⟨_, rfl, remapped⟩
  | absent _ body => cases hasBody.symm.trans body

theorem BodyBecomes.of_absent {m : MethodDef} {body : MethodBody}
    (becomes : BodyBecomes image first m body) (unmarked : m.attrs.patchHub = false)
    (noBody : m.body = none) : body = .absent := by
  cases becomes with
  | hub marked =>
    rw [unmarked] at marked
    cases marked
  | code _ body => cases noBody.symm.trans body
  | absent => rfl

/-- What a method becomes when its image is loaded. -/
structure Becomes (image : Image) (first : UInt32) (m : MethodDef) (method : Method) : Prop where
  token : image.mappedToken? first m.token = some method.token
  declaringName : method.declaringName = m.declaring
  name : method.name = m.name
  kind : method.kind = m.kind
  params : method.params = m.params
  ret : method.ret = if m.kind = .constructor then .void else m.ret
  body : BodyBecomes image first m method.body

namespace Becomes

variable {m : MethodDef} {method : Method}

theorem signature (h : Becomes image first m method) : method.signature = m.signature := by
  unfold Method.signature MethodDef.signature
  rw [h.declaringName, h.name, h.params]

theorem returnsValue (h : Becomes image first m method) : method.returnsValue = m.returnsValue := by
  unfold Method.returnsValue MethodDef.returnsValue
  rw [h.kind, h.ret]
  cases m.kind <;> simp

theorem ret_of_returnsValue (h : Becomes image first m method) (wanted : m.returnsValue = true) :
    method.ret = m.ret := by
  unfold MethodDef.returnsValue at wanted
  have ordinary : m.kind ≠ .constructor := by
    intro makes
    rw [makes] at wanted
    cases wanted
  rw [h.ret, if_neg ordinary]

theorem shape (h : Becomes image first m method) : method.shape = m.shape := by
  unfold Method.shape MethodDef.shape Method.hasThis
  rw [h.kind, h.params, h.returnsValue]

/-- Calling the method does to the stack what the image says. -/
theorem callEffect (h : Becomes image first m method) :
    (⟨method.params.length, method.kind == .ofInstance, method.returnsValue,
      method.kind == .constructor⟩ : CallEffect) = m.callEffect := by
  unfold MethodDef.callEffect
  rw [h.params, h.kind, h.returnsValue]

end Becomes

/-- What the declaration of a method makes of it. -/
theorem becomes_of_methodDecl {m : MethodDef} {decl : MethodDecl}
    (declared : image.methodDecl first m.declaring m = .ok decl) :
    decl.name.isEmpty = false ∧ ∃ token, decl.token = some token ∧
      ∀ id, Becomes image first m (decl.toMethod token id m.declaring) := by
  unfold methodDecl at declared
  by_cases unnamed : m.name.isEmpty
  · simp [unnamed, throw, throwThe, MonadExceptOf.throw, bind, Except.bind] at declared
  have named : m.name.isEmpty = false := by simpa using unnamed
  cases mapped : image.mappedToken? first m.token with
  | none =>
    simp [unnamed, mapped, throw, throwThe, MonadExceptOf.throw, bind, Except.bind, pure] at declared
  | some token =>
    simp only [unnamed, mapped, bind, Except.bind, pure, Except.pure, Option.elim] at declared
    have assemble : ∀ body, BodyBecomes image first m body → ∀ id,
        Becomes image first m
          (MethodDecl.toMethod ⟨m.name, m.kind, m.params, m.ret, body, some token⟩ token id
            m.declaring) := fun body becomes id =>
      ⟨mapped, rfl, rfl, rfl, rfl, rfl, becomes⟩
    cases marked : m.attrs.patchHub with
    | true =>
      simp only [marked] at declared
      cases declared
      exact ⟨named, token, rfl, assemble _ (.hub marked)⟩
    | false =>
      cases body : m.body with
      | none =>
        simp only [marked, body] at declared
        cases declared
        exact ⟨named, token, rfl, assemble _ (.absent marked body)⟩
      | some own =>
        cases remapped : image.remapBody first own with
        | error e =>
          simp only [marked, body, remapped] at declared
          cases declared
        | ok moved =>
          simp only [marked, body, remapped] at declared
          cases declared
          exact ⟨named, token, rfl, assemble _ (.code marked body remapped)⟩

/-- A domain that holds every method of an image under its new token. -/
def Installed (image : Image) (first : UInt32) (d : Domain) : Prop :=
  ∀ m ∈ image.methods, ∃ method,
    Becomes image first m method ∧ d.method? method.token = some method

/-- What a call of an image method does to the stack, the method in its place does. -/
theorem Installed.callEffect? {d : Domain} (installed : Installed image first d)
    {t mapped : MethodToken} {effect : CallEffect} (mapsTo : image.mappedToken? first t = some mapped)
    (known : image.callEffect? t = some effect) : d.callEffect? mapped = some effect := by
  obtain ⟨m, found, rfl⟩ := Option.map_eq_some_iff.1 known
  have ownToken : m.token = t :=
    eq_of_beq (List.find?_some (p := fun m : MethodDef => m.token == t) found)
  obtain ⟨method, becomes, named⟩ := installed m (List.mem_of_find?_eq_some found)
  have same : mapped = method.token := by
    have inPlace := becomes.token
    rw [ownToken, mapsTo] at inPlace
    exact Option.some.inj inPlace
  unfold Domain.callEffect?
  rw [same, named, Option.map_some, becomes.callEffect]

/-! ## Loading -/

/-- Defining a type of a host defines it in its domain. -/
theorem domain_define (s : State) (decl : TypeDecl) :
    ((s.define decl).1, (s.define decl).2.domain) = s.domain.define decl := by
  unfold State.define
  cases s.domain.define decl with
  | mk outcome d => cases outcome <;> rfl

/-- Defining types in turn is something that can happen to a domain. -/
theorem evolves_defineAll (s : State) (decls : List (Nat × TypeDecl)) :
    s.domain.Evolves (defineAll s decls).2.domain := by
  induction decls generalizing s with
  | nil => exact .refl
  | cons decl rest ih =>
    obtain ⟨i, decl⟩ := decl
    have defined := domain_define s decl
    have once : s.domain.Evolves (s.define decl).2.domain := by
      have same : (s.define decl).2.domain = (s.domain.define decl).2 := congrArg Prod.snd defined
      rw [same]
      exact Domain.Evolves.refl.define decl
    unfold defineAll
    cases result : s.define decl with
    | mk outcome after =>
      rw [result] at once
      cases outcome with
      | error cause => exact once
      | ok id => exact once.trans (ih after)

/-- Every method of types that are defined in turn is found under its own token in the end. -/
theorem method?_of_defineAll {s after : State} {decls : List (Nat × TypeDecl)}
    {ids : List (Nat × TypeId)}
    (defined : defineAll s decls = (.ok ids, after)) :
    ∀ decl ∈ decls, ∀ m ∈ decl.2.methods, ∀ token, m.token = some token →
      ∃ id, after.domain.method? token = some (m.toMethod token id decl.2.name) := by
  induction decls generalizing s ids with
  | nil => exact fun _ member => (List.not_mem_nil member).elim
  | cons decl rest ih =>
    obtain ⟨i, decl⟩ := decl
    have inDomain := domain_define s decl
    unfold defineAll at defined
    cases result : s.define decl with
    | mk outcome between =>
      rw [result] at defined inDomain
      cases outcome with
      | error cause => cases defined
      | ok id =>
        dsimp only at defined inDomain
        have grown := (evolves_defineAll between rest).extends
        cases others : defineAll between rest with
        | mk remaining last =>
          rw [others] at defined grown
          cases remaining with
          | error cause => cases defined
          | ok remaining =>
            cases defined
            intro other member m inType token named
            rcases List.mem_cons.1 member with rfl | later
            · have found := Domain.method?_of_define inDomain.symm m inType token named
              exact ⟨id, grown.method? found⟩
            · exact ih others other later m inType token named

/-- What the declaration of a type of an image says: what the type says, and every method that names
it, in the order of the image. -/
structure Declares (image : Image) (first : UInt32) (t : TypeDef) (decl : TypeDecl) : Prop where
  name : decl.name = t.name
  base : decl.base = t.base
  isStruct : decl.isStruct = (t.kind == .struct)
  fields : decl.fields = t.fields
  methods : Forall₂ (fun m methodDecl => image.methodDecl first t.name m = .ok methodDecl)
    (image.methods.filter (·.declaring == t.name)) decl.methods

theorem declares_of_typeDecl {t : TypeDef} {decl : TypeDecl}
    (declared : image.typeDecl first t = .ok decl) : Declares image first t decl := by
  unfold typeDecl at declared
  obtain ⟨methods, mapped, made⟩ := bind_eq_ok.1 declared
  cases made
  exact ⟨rfl, rfl, rfl, rfl, forall₂_of_mapM mapped⟩

/-- Every method that names a type is declared on it under a name, and with a token of its own. -/
theorem Declares.becomes {t : TypeDef} {decl : TypeDecl} (declares : Declares image first t decl) :
    Forall₂ (fun m methodDecl => m.declaring = t.name ∧ methodDecl.name.isEmpty = false ∧
        ∃ token, methodDecl.token = some token ∧
          ∀ id, Becomes image first m (methodDecl.toMethod token id t.name))
      (image.methods.filter (·.declaring == t.name)) decl.methods := by
  have named : ∀ m ∈ image.methods.filter (·.declaring == t.name), m.declaring = t.name :=
    fun m member => eq_of_beq (List.mem_filter.1 member).2
  refine ((List.forall₂_and_left _ _).2 ⟨named, declares.methods⟩).imp ?_
  rintro m methodDecl ⟨named, declared⟩
  rw [← named] at declared ⊢
  exact ⟨rfl, becomes_of_methodDecl declared⟩

/-- What the check of an image establishes. -/
theorem verify_eq_ok_iff :
    image.verify = .ok () ↔
      checkTypes [] image.types = .ok () ∧
        checkMethods (image.types.map (·.name)) [] image.methods = .ok () ∧
        image.methods.forM image.checkBody = .ok () := by
  unfold verify
  cases checkTypes [] image.types with
  | error e => simp [bind, Except.bind]
  | ok _ =>
    cases checkMethods (image.types.map (·.name)) [] image.methods with
    | error e => simp [bind, Except.bind]
    | ok _ => simp [bind, Except.bind]

/-- The check of types passes exactly if no name is used twice and none is an array. -/
theorem checkTypes_eq_ok_iff {before : List String} {types : List TypeDef} :
    checkTypes before types = .ok () ↔
      (types.map (·.name)).Nodup ∧ (∀ t ∈ types, t.name ∉ before) ∧ ∀ t ∈ types, t.kind ≠ .array := by
  induction types generalizing before with
  | nil => simp [checkTypes]
  | cons t rest ih =>
    have step : checkTypes before (t :: rest) = .ok () ↔
        t.name ∉ before ∧ t.kind ≠ .array ∧ checkTypes (t.name :: before) rest = .ok () := by
      rw [checkTypes]
      by_cases fresh : t.name ∈ before
      · simp [fresh]
      · by_cases array : t.kind = .array <;> simp [fresh, array]
    rw [step, ih, List.map_cons, List.nodup_cons, List.forall_mem_cons, List.forall_mem_cons]
    simp only [List.mem_cons, List.mem_map, not_or]
    constructor
    · rintro ⟨fresh, plain, distinct, apart, others⟩
      exact ⟨⟨fun ⟨other, inRest, same⟩ => (apart other inRest).1 same, distinct⟩,
        ⟨fresh, fun other inRest => (apart other inRest).2⟩, plain, others⟩
    · rintro ⟨⟨unique, distinct⟩, ⟨fresh, apart⟩, plain, others⟩
      exact ⟨fresh, plain, distinct, fun other inRest =>
        ⟨fun same => unique ⟨other, inRest, same⟩, apart other inRest⟩, others⟩

/-- The names of the types of a checked image are distinct. -/
theorem nodup_types_of_verify (verified : image.verify = .ok ()) :
    (image.types.map (·.name)).Nodup :=
  (checkTypes_eq_ok_iff.1 (verify_eq_ok_iff.1 verified).1).1

/-- A checked method is declared on a type of its image, a hub has the shape of one, and what is
marked as injected has a body. -/
structure ProperlyDeclared (typeNames : List String) (m : MethodDef) : Prop where
  known : m.declaring ∈ typeNames
  hubShape : m.attrs.patchHub = true → isHubShape m.kind m.params m.ret = true
  hasBody : m.attrs.injected = true → m.body.isSome = true

theorem checkMethods_cons {typeNames : List String} {before : List MethodToken} {m : MethodDef}
    {rest : List MethodDef} :
    checkMethods typeNames before (m :: rest) = .ok () ↔
      m.token ∉ before ∧ ProperlyDeclared typeNames m ∧
        checkMethods typeNames (m.token :: before) rest = .ok () := by
  rw [checkMethods]
  constructor
  · intro checked
    split at checked
    · cases checked
    rename_i fresh
    split at checked
    · cases checked
    rename_i known
    split at checked
    · cases checked
    rename_i hubShape
    split at checked
    · cases checked
    rename_i marked
    refine ⟨by simpa using fresh, ⟨by simpa using known, fun isHub => ?_, fun injected => ?_⟩, checked⟩
    · simpa [isHub] using hubShape
    · simpa [injected, Option.isSome_iff_ne_none] using marked
  · rintro ⟨fresh, declared, others⟩
    have shaped : ¬ (m.attrs.patchHub && !isHubShape m.kind m.params m.ret) = true := by
      simpa using declared.hubShape
    have embodied : ¬ (m.attrs.injected && m.body.isNone) = true := by
      simpa [Option.isSome_iff_ne_none] using declared.hasBody
    rw [if_neg (by simpa using fresh), if_neg (by simpa using declared.known), if_neg shaped,
      if_neg embodied]
    exact others

/-- The check of methods passes exactly if each is properly declared and no token is used twice. -/
theorem checkMethods_eq_ok_iff {typeNames : List String} {before : List MethodToken}
    {methods : List MethodDef} :
    checkMethods typeNames before methods = .ok () ↔
      (∀ m ∈ methods, ProperlyDeclared typeNames m) ∧ (methods.map (·.token)).Nodup ∧
        ∀ m ∈ methods, m.token ∉ before := by
  induction methods generalizing before with
  | nil => simp [checkMethods]
  | cons m rest ih =>
    rw [checkMethods_cons, ih, List.map_cons, List.nodup_cons, List.forall_mem_cons,
      List.forall_mem_cons]
    simp only [List.mem_cons, List.mem_map, not_or]
    constructor
    · rintro ⟨fresh, declared, others, distinct, apart⟩
      exact ⟨⟨declared, others⟩, ⟨fun ⟨other, inRest, same⟩ => (apart other inRest).1 same, distinct⟩,
        fresh, fun other inRest => (apart other inRest).2⟩
    · rintro ⟨⟨declared, others⟩, ⟨unique, distinct⟩, fresh, apart⟩
      exact ⟨fresh, declared, others, distinct, fun other inRest =>
        ⟨fun same => unique ⟨other, inRest, same⟩, apart other inRest⟩⟩

/-- What has the shape of a hub takes four arguments and answers with a truth value. -/
theorem of_isHubShape {kind : MethodKind} {params : List Param} {ret : ValueType}
    (shaped : isHubShape kind params ret = true) :
    kind = .static ∧ ret = .bool ∧ params.length = 4 := by
  unfold isHubShape at shaped
  simp only [Bool.and_eq_true, beq_iff_eq] at shaped
  obtain ⟨⟨isStatic, answer⟩, sameParams⟩ := shaped
  refine ⟨isStatic, answer, ?_⟩
  have length := congrArg List.length sameParams
  simpa [hubParams] using length

/-- The methods of a checked image are properly declared. -/
theorem declared_of_verify {m : MethodDef} (verified : image.verify = .ok ())
    (member : m ∈ image.methods) : ProperlyDeclared (image.types.map (·.name)) m :=
  (checkMethods_eq_ok_iff.1 (verify_eq_ok_iff.1 verified).2.1).1 m member

/-- The tokens of a checked image are distinct. -/
theorem nodup_of_verify (verified : image.verify = .ok ()) :
    (image.methods.map (·.token)).Nodup :=
  (checkMethods_eq_ok_iff.1 (verify_eq_ok_iff.1 verified).2.1).2.1

/-- The host while tokens for the methods of an image are set aside. -/
def reserved (image : Image) (s : State) : State :=
  { s with domain := (s.domain.reserveTokens image.methods.length).2 }

/-- The declarations of the types at some positions. -/
def declarations (image : Image) (first : UInt32) (order : List Nat) :
    Except Error (List (Nat × TypeDecl)) :=
  (order.filterMap fun i => image.types[i]?.map (i, ·)).mapM fun (i, t) =>
    (image.typeDecl first t).map (i, ·)

/-- Declarations are made one by one. -/
theorem declarations_cons {i : Nat} {rest : List Nat} {t : TypeDef} {decls : List (Nat × TypeDecl)}
    (found : image.types[i]? = some t) :
    image.declarations first (i :: rest) = .ok decls ↔
      ∃ decl others, image.typeDecl first t = .ok decl ∧
        image.declarations first rest = .ok others ∧ decls = (i, decl) :: others := by
  have head : (image.types[i]?.map fun t => (i, t)) = some (i, t) := by
    rw [found, Option.map_some]
  unfold declarations
  rw [List.filterMap_cons_some (f := fun i => image.types[i]?.map (i, ·)) head, List.mapM_cons,
    bind_eq_ok]
  constructor
  · rintro ⟨entry, mapped, tail⟩
    obtain ⟨decl, declared, rfl⟩ := map_eq_ok.1 mapped
    obtain ⟨others, mapped, same⟩ := bind_eq_ok.1 tail
    exact ⟨decl, others, declared, mapped, (Except.ok.inj same).symm⟩
  · rintro ⟨decl, others, declared, mapped, rfl⟩
    exact ⟨(i, decl), map_eq_ok.2 ⟨decl, declared, rfl⟩, bind_eq_ok.2 ⟨others, mapped, rfl⟩⟩

/-- The ids of types in the order of an image, read from a record of positions. -/
def inOrder (image : Image) (found : List (Nat × TypeId)) : List TypeId :=
  (List.range image.types.length).map fun i => (found.lookup i).getD rootId

/-- What an image goes through before the first of its types is defined: it is checked, its types
are put in order, and there are tokens for its methods. -/
structure Admitted (image : Image) (s : State) (order : List Nat) : Prop where
  verified : image.verify = .ok ()
  ordered : image.definitionOrder s.domain = .ok order
  room : s.domain.nextToken.toNat + image.methods.length < UInt32.size

/-- What becomes of a host that is to load an image. -/
theorem load_cases (image : Image) (s : State) :
    (∃ e, image.load s = (.error e, s)) ∨
      ∃ order, Admitted image s order ∧
        ((∃ e, image.declarations s.domain.nextToken order = .error e ∧
            image.load s = (.error e, image.reserved s)) ∨
          ∃ decls, image.declarations s.domain.nextToken order = .ok decls ∧
            image.load s = ((defineAll (image.reserved s) decls).1.map image.inOrder,
              (defineAll (image.reserved s) decls).2)) := by
  unfold load
  cases verified : image.verify with
  | error e => exact .inl ⟨e, rfl⟩
  | ok _ =>
    dsimp only
    cases ordered : image.definitionOrder s.domain with
    | error e => exact .inl ⟨e, rfl⟩
    | ok order =>
      dsimp only
      by_cases room : s.domain.nextToken.toNat + image.methods.length < UInt32.size
      · refine .inr ⟨order, ⟨verified, ordered, room⟩, ?_⟩
        unfold declarations reserved
        rw [Domain.reserveTokens_eq_ok room]
        dsimp only
        cases (order.filterMap fun i => image.types[i]?.map (i, ·)).mapM
          (fun (i, t) => (image.typeDecl s.domain.nextToken t).map (i, ·)) with
        | error e => exact .inl ⟨e, rfl, rfl⟩
        | ok decls => exact .inr ⟨decls, rfl, rfl⟩
      · rw [Domain.reserveTokens_eq_error room]
        exact .inl ⟨_, rfl⟩

/-- What loading an image goes through. -/
theorem load_eq_ok {s after : State} {ids : List TypeId} (loaded : image.load s = (.ok ids, after)) :
    ∃ order decls found, Admitted image s order ∧
      image.declarations s.domain.nextToken order = .ok decls ∧
      defineAll (image.reserved s) decls = (.ok found, after) ∧ ids = image.inOrder found := by
  rcases load_cases image s with ⟨e, refused⟩ | ⟨order, admitted, ⟨e, _, refused⟩ | ⟨decls, declared, result⟩⟩
  · cases refused.symm.trans loaded
  · cases refused.symm.trans loaded
  · rw [result] at loaded
    cases defined : defineAll (image.reserved s) decls with
    | mk outcome last =>
      rw [defined] at loaded
      cases outcome with
      | error e => cases loaded
      | ok found =>
        cases loaded
        exact ⟨order, decls, found, admitted, declared, defined, rfl⟩

/-- An image that is loaded is a checked one. -/
theorem verified_of_load {s after : State} {ids : List TypeId}
    (loaded : image.load s = (.ok ids, after)) : image.verify = .ok () := by
  obtain ⟨_, _, _, admitted, -⟩ := load_eq_ok loaded
  exact admitted.verified

/-- Nothing happens to a domain that takes in an image, or tries to, but definitions and the setting
aside of tokens. -/
theorem evolves_load (image : Image) (s : State) : s.domain.Evolves (image.load s).2.domain := by
  have setAside : s.domain.Evolves (image.reserved s).domain := Domain.Evolves.refl.reserveTokens _
  rcases load_cases image s with ⟨e, refused⟩ | ⟨order, _, ⟨e, _, refused⟩ | ⟨decls, _, result⟩⟩
  · rw [refused]
    exact .refl
  · rw [refused]
    exact setAside
  · rw [result]
    exact setAside.trans (evolves_defineAll _ decls)

theorem evolves_of_load {s after : State} {ids : List TypeId}
    (loaded : image.load s = (.ok ids, after)) : s.domain.Evolves after.domain := by
  have changed := evolves_load image s
  rwa [loaded] at changed

/-- A domain that took in an image holds all of its methods. -/
theorem installed_of_load {s after : State} {ids : List TypeId}
    (loaded : image.load s = (.ok ids, after)) :
    Installed image s.domain.nextToken after.domain := by
  obtain ⟨order, decls, _, admitted, declared, defined, -⟩ := load_eq_ok loaded
  obtain ⟨forth, _⟩ := mem_of_mapM declared
  intro m member
  obtain ⟨t, inTypes, names⟩ := List.mem_map.1 (declared_of_verify admitted.verified member).known
  obtain ⟨i, inBounds, atPlace⟩ := List.mem_iff_getElem.1 inTypes
  have placed : (i, t) ∈ order.filterMap fun i => image.types[i]?.map (i, ·) :=
    List.mem_filterMap.2 ⟨i, (definitionOrder_eq_ok admitted.ordered).2.1.mem_iff.2 (List.mem_range.2 inBounds), by
      rw [List.getElem?_eq_getElem inBounds, atPlace, Option.map_some]⟩
  obtain ⟨decl, inDecls, made⟩ := forth _ placed
  obtain ⟨plain, declaredType, rfl⟩ := map_eq_ok.1 made
  have declares := declares_of_typeDecl declaredType
  have inFilter : m ∈ image.methods.filter (·.declaring == t.name) :=
    List.mem_filter.2 ⟨member, by simp [names]⟩
  obtain ⟨methodDecl, inType, -, -, token, ownToken, becomes⟩ :=
    exists_of_forall₂ declares.becomes.flip inFilter
  obtain ⟨id, found⟩ := method?_of_defineAll defined _ inDecls methodDecl inType token ownToken
  refine ⟨methodDecl.toMethod token id t.name, becomes id, ?_⟩
  rw [declares.name] at found
  exact found

end ScriptHost.Image
