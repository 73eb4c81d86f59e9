import Mathlib.Data.List.Forall2
import ScriptHost.Proofs.Host.Bodies
import ScriptHost.Proofs.Image.Loaded
/-!
Images without bodies and without the marks that injection leaves. Images that agree in the rest
declare the same, pass the same checks of declarations, and are taken in by the same hosts.
-/
namespace ScriptHost.Image

open Host
open Results (eq_of_map_eq)
open List (Forall₂)

/-! ## Leaving bodies and marks out -/

/-- A method without its body and without the mark of injection. -/
def MethodDef.strip (m : MethodDef) : MethodDef :=
  { m with body := none, attrs := { m.attrs with injected := false } }

/-- An image without the bodies of its methods and without marks of injection. -/
def strip (image : Image) : Image :=
  { image with methods := image.methods.map (·.strip) }

variable {image after : Image} {first : UInt32}

/-- Methods that declare the same differ in their bodies and marks at most. -/
theorem MethodDef.exists_of_strip {m other : MethodDef} (same : other.strip = m.strip) :
    ∃ body injected, other = { m with body, attrs := { m.attrs with injected } } := by
  refine ⟨other.body, other.attrs.injected, ?_⟩
  obtain ⟨_, _, _, _, _, _, ⟨_, _, _⟩, _⟩ := other
  obtain ⟨_, _, _, _, _, _, ⟨_, _, _⟩, _⟩ := m
  cases same
  rfl

/-- Images declare the same if their methods do, one by one. -/
theorem strip_eq_of_forall₂ (name : after.name = image.name) (types : after.types = image.types)
    (methods : Forall₂ (fun m other => other.strip = m.strip) image.methods after.methods) :
    after.strip = image.strip := by
  obtain ⟨_, _, befores⟩ := image
  obtain ⟨_, _, afters⟩ := after
  cases name
  cases types
  dsimp only at methods
  have alike : afters.map (·.strip) = befores.map (·.strip) := by
    induction methods with
    | nil => rfl
    | cons head _ ih => rw [List.map_cons, List.map_cons, head, ih]
  unfold strip
  rw [alike]

theorem callEffect?_strip (image : Image) : image.strip.callEffect? = image.callEffect? := by
  funext t
  unfold callEffect? method? strip
  rw [List.find?_map, Option.map_map]
  rfl

theorem mappedToken?_strip (image : Image) (first : UInt32) :
    image.strip.mappedToken? first = image.mappedToken? first := by
  funext t
  unfold mappedToken? strip
  rw [List.findIdx?_map]
  rfl

theorem hubs_strip (image : Image) : image.strip.hubs = image.hubs.map (·.strip) := by
  unfold hubs strip
  rw [List.filter_map]
  rfl

theorem remapInstr_strip (image : Image) (first : UInt32) :
    image.strip.remapInstr first = image.remapInstr first := by
  funext instr
  unfold remapInstr
  rw [mappedToken?_strip]

theorem remapBody_strip (image : Image) (first : UInt32) :
    image.strip.remapBody first = image.remapBody first := by
  funext body
  unfold remapBody
  rw [remapInstr_strip]

theorem climb_strip (image : Image) (placed fresh : List Nat) (cursor : Option Nat)
    (chain : List Nat) :
    image.strip.climb placed fresh cursor chain = image.climb placed fresh cursor chain := by
  fun_induction climb image placed fresh cursor chain with
  | case1 fresh chain => rw [climb]
  | case2 fresh chain i known => rw [climb, if_pos known]
  | case3 fresh chain i unknown inFresh ih =>
    rw [climb, if_neg unknown, dif_pos inFresh]
    exact ih
  | case4 fresh chain i unknown stale =>
    rw [climb, if_neg unknown, dif_neg stale]
    rfl

theorem place_strip (image : Image) (starts placed fresh : List Nat) :
    image.strip.place starts placed fresh = image.place starts placed fresh := by
  induction starts generalizing placed fresh with
  | nil => rfl
  | cons start rest ih =>
    unfold place
    simp only [climb_strip, ih]

/-- Types are put in order by their names and bases alone. -/
theorem definitionOrder_strip (image : Image) (d : Domain) :
    image.strip.definitionOrder d = image.definitionOrder d := by
  unfold definitionOrder
  rw [place_strip]
  rfl

/-! ## Checks of declarations -/

/-- Declarations that pass the check pass it with other bodies, if what is marked as injected has
one. -/
theorem checkMethods_of_strip {typeNames : List String} {before : List MethodToken}
    {methods others : List MethodDef} (same : others.map (·.strip) = methods.map (·.strip))
    (withBody : ∀ m ∈ others, m.attrs.injected = true → m.body.isSome = true)
    (checked : checkMethods typeNames before methods = .ok ()) :
    checkMethods typeNames before others = .ok () := by
  obtain ⟨declared, distinct, apart⟩ := checkMethods_eq_ok_iff.1 checked
  have sameTokens : others.map (·.token) = methods.map (·.token) := by
    have tokens := congrArg (List.map MethodDef.token) same
    rwa [List.map_map, List.map_map] at tokens
  have likeness : ∀ other ∈ others, ∃ m ∈ methods, other.strip = m.strip := by
    intro other member
    have inBoth := List.mem_map_of_mem (f := MethodDef.strip) member
    rw [same] at inBoth
    obtain ⟨m, inMethods, like⟩ := List.mem_map.1 inBoth
    exact ⟨m, inMethods, like.symm⟩
  refine checkMethods_eq_ok_iff.2 ⟨fun other member => ?_, sameTokens ▸ distinct, fun other member => ?_⟩
  · obtain ⟨m, inMethods, like⟩ := likeness other member
    obtain ⟨body, injected, rfl⟩ := MethodDef.exists_of_strip like
    exact ⟨(declared m inMethods).known, (declared m inMethods).hubShape, withBody _ member⟩
  · obtain ⟨m, inMethods, like⟩ := likeness other member
    have sameToken : other.strip.token = m.strip.token := congrArg MethodDef.token like
    exact fun old => apart m inMethods (sameToken ▸ old)

/-- An image passes the check if one does that declares the same, its bodies are sound and what is
marked as injected has a body. -/
theorem verify_of_strip (same : after.strip = image.strip) (verified : image.verify = .ok ())
    (withBody : ∀ m ∈ after.methods, m.attrs.injected = true → m.body.isSome = true)
    (bodies : ∀ m ∈ after.methods, image.checkBody m = .ok ()) : after.verify = .ok () := by
  obtain ⟨types, methods, _⟩ := verify_eq_ok_iff.1 verified
  have sameTypes : after.strip.types = image.strip.types := congrArg Image.types same
  have sameMethods : after.strip.methods = image.strip.methods := congrArg Image.methods same
  have effects : after.callEffect? = image.callEffect? := by
    rw [← callEffect?_strip after, same, callEffect?_strip]
  have typesOk : checkTypes [] after.strip.types = .ok () := by
    rw [sameTypes]
    exact types
  have methodsOk : checkMethods (after.strip.types.map (·.name)) [] after.methods = .ok () := by
    rw [sameTypes]
    exact checkMethods_of_strip sameMethods withBody methods
  refine verify_eq_ok_iff.2 ⟨typesOk, methodsOk, Results.forM_eq_ok.2 fun m member => ?_⟩
  have sound := bodies m member
  unfold checkBody at sound ⊢
  rw [effects]
  exact sound

/-! ## Loading -/

/-- Lists are mapped alike if their elements are. -/
theorem mapM_congr {ε α β γ δ κ : Type} {f : α → Except ε γ} {g : β → Except ε δ} {u : γ → κ}
    {v : δ → κ} {as : List α} {bs : List β}
    (each : Forall₂ (fun a b => (f a).map u = (g b).map v) as bs) :
    (as.mapM f).map (List.map u) = (bs.mapM g).map (List.map v) := by
  induction each with
  | nil => rfl
  | @cons a b as bs head _ ih =>
    rw [List.mapM_cons, List.mapM_cons]
    obtain ⟨e, left, right⟩ | ⟨c, d, left, right, same⟩ := eq_of_map_eq head
    · rw [left, right]
      rfl
    obtain ⟨e, left', right'⟩ | ⟨cs, ds, left', right', others⟩ := eq_of_map_eq ih
    · rw [left, right, left', right']
      rfl
    · rw [left, right, left', right']
      exact congrArg Except.ok (List.cons_eq_cons.2 ⟨same, others⟩)

/-- Whether the tokens of a body can be mapped, and what stands in the way otherwise. -/
def tokensFound (image : Image) (first : UInt32) (body : Option Body) : Except Error Unit :=
  body.elim (.ok ()) fun body => (image.remapBody first body).map fun _ => ()

/-- Apart from its body a method is declared by its declaration, if its tokens can be mapped. -/
theorem map_methodDecl (image : Image) (first : UInt32) (typeName : String) (m : MethodDef) :
    (image.methodDecl first typeName m).map (·.strip) =
      if m.name.isEmpty then .error (.unnamedMethod typeName)
      else (image.mappedToken? first m.token).elim (.error (.unmappedToken m.token)) fun token =>
        (if m.attrs.patchHub then .ok () else image.tokensFound first m.body).map fun _ =>
          ⟨m.name, m.kind, m.params, m.ret, .absent, some token⟩ := by
  unfold methodDecl tokensFound
  by_cases unnamed : m.name.isEmpty = true
  · rw [if_pos unnamed, if_pos unnamed]
    rfl
  rw [if_neg unnamed, if_neg unnamed]
  cases image.mappedToken? first m.token with
  | none => rfl
  | some token =>
    cases m.attrs.patchHub with
    | true => rfl
    | false =>
      cases m.body with
      | none => rfl
      | some body =>
        cases remapped : image.remapBody first body <;> simp only [Option.elim_some, remapped] <;> rfl

/-- Methods that declare the same, with bodies whose tokens are found alike. -/
structure Matches (image : Image) (first : UInt32) (m other : MethodDef) : Prop where
  strip : other.strip = m.strip
  tokens : m.attrs.patchHub = false →
    image.tokensFound first other.body = image.tokensFound first m.body

theorem Matches.methodDecl {m other : MethodDef} (matched : Matches image first m other)
    (same : after.strip = image.strip) (typeName : String) :
    (after.methodDecl first typeName other).map (·.strip) =
      (image.methodDecl first typeName m).map (·.strip) := by
  have mapped : after.mappedToken? first = image.mappedToken? first := by
    rw [← mappedToken?_strip after, same, mappedToken?_strip]
  have found : after.tokensFound first = image.tokensFound first := by
    unfold tokensFound
    rw [← remapBody_strip after, same, remapBody_strip]
  obtain ⟨alike, tokens⟩ := matched
  obtain ⟨body, injected, rfl⟩ := MethodDef.exists_of_strip alike
  rw [map_methodDecl, map_methodDecl, mapped, found]
  cases isHub : m.attrs.patchHub with
  | true => rfl
  | false =>
    dsimp only
    rw [tokens isHub]

/-- Types are declared alike. -/
theorem typeDecl_congr (matched : Forall₂ (Matches image first) image.methods after.methods)
    (same : after.strip = image.strip) (t : TypeDef) :
    (after.typeDecl first t).map (·.strip) = (image.typeDecl first t).map (·.strip) := by
  have each : Forall₂ (fun other m => (after.methodDecl first t.name other).map (·.strip) =
      (image.methodDecl first t.name m).map (·.strip))
      (after.methods.filter (·.declaring == t.name))
      (image.methods.filter (·.declaring == t.name)) := by
    generalize image.methods = methods at matched
    generalize after.methods = others at matched
    induction matched with
    | nil => exact .nil
    | @cons m other rest others head _ ih =>
      have declaring : other.strip.declaring = m.strip.declaring :=
        congrArg MethodDef.declaring head.strip
      have alike : (other.declaring == t.name) = (m.declaring == t.name) :=
        congrArg (· == t.name) declaring
      rw [List.filter_cons, List.filter_cons, alike]
      split
      · exact .cons (head.methodDecl same t.name) ih
      · exact ih
  have mapped := mapM_congr each
  unfold typeDecl
  obtain ⟨e, left, right⟩ | ⟨decls, decls', left, right, equal⟩ := eq_of_map_eq mapped
  · rw [left, right]
  · rw [left, right]
    exact congrArg Except.ok (congrArg (TypeDecl.mk t.name t.base (t.kind == .struct) t.fields) equal)

/-- The declarations of an image, without bodies. -/
def stripDecls (decls : List (Nat × TypeDecl)) : List (Nat × TypeDecl) :=
  decls.map fun decl => (decl.1, decl.2.strip)

theorem declarations_congr (matched : Forall₂ (Matches image first) image.methods after.methods)
    (same : after.strip = image.strip) (order : List Nat) :
    (after.declarations first order).map stripDecls =
      (image.declarations first order).map stripDecls := by
  have sameTypes : after.strip.types = image.strip.types := congrArg Image.types same
  have types : after.types = image.types := sameTypes
  unfold declarations
  rw [types]
  refine mapM_congr (List.forall₂_same.2 fun pair _ => ?_)
  obtain ⟨i, t⟩ := pair
  have declared := typeDecl_congr matched same t
  dsimp only
  obtain ⟨e, left, right⟩ | ⟨decl, decl', left, right, equal⟩ := eq_of_map_eq declared
  · rw [left, right]
  · rw [left, right]
    exact congrArg (fun decl => Except.ok (i, decl)) equal

theorem defineAll_strip (s : State) (decls : List (Nat × TypeDecl)) :
    defineAll s.strip (stripDecls decls) = ((defineAll s decls).1, (defineAll s decls).2.strip) := by
  induction decls generalizing s with
  | nil => rfl
  | cons decl rest ih =>
    obtain ⟨i, decl⟩ := decl
    have unfolded : stripDecls ((i, decl) :: rest) = (i, decl.strip) :: stripDecls rest := rfl
    rw [unfolded]
    unfold defineAll
    rw [State.define_strip]
    cases s.define decl with
    | mk outcome after =>
      cases outcome with
      | error cause => rfl
      | ok id =>
        dsimp only
        rw [ih after]

/-- Images that declare the same and whose bodies name the same tokens are taken in alike. -/
theorem load_congr (matched : ∀ first, Forall₂ (Matches image first) image.methods after.methods)
    (same : after.strip = image.strip) (verified : image.verify = .ok ())
    (verified' : after.verify = .ok ()) (s : State) :
    (after.load s).1 = (image.load s).1 ∧ (after.load s).2.strip = (image.load s).2.strip := by
  have sameTypes : after.strip.types = image.strip.types := congrArg Image.types same
  have types : after.types = image.types := sameTypes
  have order : after.definitionOrder s.domain = image.definitionOrder s.domain := by
    rw [← definitionOrder_strip after, same, definitionOrder_strip]
  have count : after.methods.length = image.methods.length := by
    rw [(matched 0).length_eq]
  unfold load
  rw [verified, verified', order, count]
  dsimp only
  cases ordered : image.definitionOrder s.domain with
  | error e => exact ⟨rfl, rfl⟩
  | ok order =>
    have declared := declarations_congr (matched s.domain.nextToken) same order
    unfold declarations at declared
    dsimp only
    by_cases room : s.domain.nextToken.toNat + image.methods.length < UInt32.size
    case neg =>
      rw [Domain.reserveTokens_eq_error room]
      exact ⟨rfl, rfl⟩
    rw [Domain.reserveTokens_eq_ok room]
    dsimp only
    obtain ⟨e, left, right⟩ | ⟨decls, decls', left, right, equal⟩ := eq_of_map_eq declared
    · rw [left, right]
      exact ⟨rfl, rfl⟩
    · rw [left, right]
      dsimp only
      generalize ({ s with domain := _ } : State) = s
      have one := defineAll_strip s decls
      have other := defineAll_strip s decls'
      rw [equal, other, Prod.mk.injEq] at one
      rw [types, ← one.1, one.2]
      exact ⟨rfl, rfl⟩

end ScriptHost.Image
