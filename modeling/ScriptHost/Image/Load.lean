import ScriptHost.Host.State
import ScriptHost.Image.Check
/-!
Loading an image into a domain. Its types are defined bases first, its methods get fresh tokens, and
its bodies are made to use them.
-/
namespace ScriptHost.Image

open Host

/-- The position of the type of a name. -/
def typeIndex? (image : Image) (name : String) : Option Nat :=
  image.types.findIdx? (·.name == name)

/-- The position of the base of the type at a position, if the image holds that base. -/
def baseIndex? (image : Image) (i : Nat) : Option Nat := do
  let t ← image.types[i]?
  let base ← t.base
  image.typeIndex? base

/-- Goes from a type to its bases until one is placed already or the image ends, and puts what it
passes in front of `chain`. To come back to a type that is neither placed nor fresh is a cycle. -/
def climb (image : Image) (placed : List Nat) (fresh : List Nat) (cursor : Option Nat)
    (chain : List Nat) : Except Error (List Nat × List Nat) :=
  match cursor with
  | none => .ok (fresh, chain)
  | some i =>
    if i ∈ placed then .ok (fresh, chain)
    else if _inFresh : i ∈ fresh then
      climb image placed (fresh.erase i) (image.baseIndex? i) (i :: chain)
    else .error (.ownBase ((image.types[i]?.map (·.name)).getD ""))
termination_by fresh.length
decreasing_by
  rw [List.length_erase_of_mem _inFresh]
  have := List.length_pos_of_mem _inFresh
  omega

/-- Places the types that start a climb, each after its bases. -/
def place (image : Image) : (starts placed fresh : List Nat) → Except Error (List Nat)
  | [], placed, _ => .ok placed
  | start :: rest, placed, fresh => do
    let (fresh, chain) ← image.climb placed fresh (some start) []
    image.place rest (placed ++ chain) fresh

/-- Checks that a type is new to the domain and that its base is there. -/
def checkNew (image : Image) (d : Domain) (t : TypeDef) : Except Error Unit :=
  if t.name.isEmpty then .error (.domain .emptyTypeName)
  else if (d.find? t.name).isSome then .error (.domain (.duplicateType t.name))
  else
    match t.base with
    | none => .ok ()
    | some base =>
      if (image.typeIndex? base).isSome then .ok ()
      else
        match d.find? base with
        | some info => if info.isArray then .error (.domain (.arrayBase t.name)) else .ok ()
        | none => .error (.domain (.unknownType base))

/-- The positions of the types, bases first. -/
def definitionOrder (image : Image) (d : Domain) : Except Error (List Nat) := do
  image.types.forM (image.checkNew d)
  let all := List.range image.types.length
  image.place all [] all

/-- The token that a method gets when the first one gets `first`. -/
def mappedToken? (image : Image) (first : UInt32) (token : MethodToken) : Option MethodToken :=
  (image.methods.findIdx? (·.token == token)).map fun i => ⟨first + .ofNat i⟩

/-- An instruction with the mapped token in place of its own. -/
def remapInstr (image : Image) (first : UInt32) (instr : Instr) : Except Error Instr :=
  match instr.token? with
  | none => .ok instr
  | some token =>
    match image.mappedToken? first token with
    | some mapped => .ok (instr.mapToken fun _ => mapped)
    | none => .error (.unresolvedToken token)

/-- A body with mapped tokens. -/
def remapBody (image : Image) (first : UInt32) (body : Body) : Except Error Body := do
  let code ← body.code.toList.mapM (image.remapInstr first)
  pure { body with code := code.toArray }

/-- The declaration of a method. -/
def methodDecl (image : Image) (first : UInt32) (typeName : String) (m : MethodDef) :
    Except Error MethodDecl := do
  if m.name.isEmpty then
    throw (.unnamedMethod typeName)
  let token ← (image.mappedToken? first m.token).elim (throw (.unmappedToken m.token)) pure
  let body ←
    if m.attrs.patchHub then pure .patchHub
    else match m.body with
      | some body => do pure (.code (← image.remapBody first body))
      | none => pure .absent
  pure ⟨m.name, m.kind, m.params, m.ret, body, some token⟩

/-- The declaration of a type with the methods that name it. -/
def typeDecl (image : Image) (first : UInt32) (t : TypeDef) : Except Error TypeDecl := do
  let methods ← (image.methods.filter (·.declaring == t.name)).mapM (image.methodDecl first t.name)
  pure ⟨t.name, t.base, t.kind == .struct, t.fields, methods⟩

/-- Defines types in turn, and records the id of each by its position. -/
def defineAll : State → List (Nat × TypeDecl) → Except Error (List (Nat × TypeId)) × State
  | s, [] => (.ok [], s)
  | s, (i, decl) :: rest =>
    match s.define decl with
    | (.error e, s) => (.error (.domain e), s)
    | (.ok id, s) =>
      let (ids, s) := defineAll s rest
      (ids.map ((i, id) :: ·), s)

/-- Loads an image. Answers the ids of its types in their order. -/
def load (image : Image) (s : State) : Except Error (List TypeId) × State :=
  match image.verify with
  | .error e => (.error e, s)
  | .ok () =>
    match image.definitionOrder s.domain with
    | .error e => (.error e, s)
    | .ok order =>
      match s.domain.reserveTokens image.methods.length with
      | (.error e, domain) => (.error (.domain e), { s with domain })
      | (.ok first, domain) =>
        let s := { s with domain }
        let decls := order.filterMap fun i => image.types[i]?.map (i, ·)
        match decls.mapM fun (i, t) => (image.typeDecl first t).map (i, ·) with
        | .error e => (.error e, s)
        | .ok decls =>
          let (ids, s) := defineAll s decls
          (ids.map fun ids =>
            (List.range image.types.length).map fun i => (ids.lookup i).getD rootId, s)

end ScriptHost.Image
