import ScriptHost.Host.Method
/-!
The types of a host: looking them up, walking from a type to its bases, and defining new ones.
-/
namespace ScriptHost.Host

/-- Why a definition is refused. -/
inductive DomainError
  | duplicateType (name : String)
  | unknownType (name : String)
  | duplicateToken (token : MethodToken)
  | emptyTypeName
  | arrayBase (name : String)
  | unnamedMethod (type : String)
  /-- The counter of tokens would leave its range, and the run breaks off. -/
  | tokensExhausted
  deriving DecidableEq, Repr

/-- What a refusal says. -/
def DomainError.message : DomainError → String
  | .duplicateType name => s!"Type `{name}` is already defined"
  | .unknownType name => s!"Type `{name}` not found"
  | .duplicateToken token => "Method token " ++ token.text ++ " is already in use"
  | .emptyTypeName => "Invalid definition: type name is empty"
  | .arrayBase name => s!"Invalid definition: {name} cannot derive from an array"
  | .unnamedMethod type => s!"Invalid definition: unnamed method on {type}"
  | .tokensExhausted => "attempt to add with overflow"

/-- What is said when a definition breaks off instead of being refused. -/
def DomainError.panic? : DomainError → Option String
  | .tokensExhausted => some DomainError.tokensExhausted.message
  | _ => none

/-- A declared field. -/
structure FieldDecl where
  name : String
  type : ValueType
  isStatic : Bool := false
  deriving DecidableEq, Repr

/-- A declared method. Without a token of its own it gets the next free one. -/
structure MethodDecl where
  name : String
  kind : MethodKind
  params : List Param
  ret : ValueType
  body : MethodBody
  token : Option MethodToken := none
  deriving DecidableEq

/-- The method that a declaration makes on a type. A constructor gives no value of its own. -/
def MethodDecl.toMethod (decl : MethodDecl) (token : MethodToken) (declaring : TypeId)
    (declaringName : String) : Method where
  token := token
  declaring := declaring
  declaringName := declaringName
  name := decl.name
  kind := decl.kind
  params := decl.params
  ret := if decl.kind = .constructor then .void else decl.ret
  body := decl.body

/-- A declared type. -/
structure TypeDecl where
  name : String
  base : Option String
  isStruct : Bool
  fields : List FieldDecl
  methods : List MethodDecl
  deriving DecidableEq

/-- The name of the type that every other one derives from. -/
def rootName : String := "System.Object"

/-- The id of that type. -/
def rootId : TypeId := ⟨0⟩

/-- All types, each at the position of its id, and the next token to try. -/
structure Domain where
  types : Array TypeInfo := #[⟨rootId, rootName, none, .reference, none, [], [], [], []⟩]
  nextToken : UInt32 := 1
  deriving DecidableEq

instance : Inhabited Domain := ⟨{}⟩

namespace Domain

/-- The type of an id. -/
def get? (d : Domain) (id : TypeId) : Option TypeInfo :=
  d.types[id.index]?

/-- The type of a name: the latest, should an array have taken a name in use. -/
def find? (d : Domain) (name : String) : Option TypeInfo :=
  d.types.findRev? (·.name == name)

/-- The id of the type of a name. -/
def lookup (d : Domain) (name : String) : Option TypeId :=
  (d.find? name).map (·.id)

/-- The type of the arrays of an element type, if there is one yet. -/
def findArray? (d : Domain) (element : ValueType) : Option TypeId :=
  (d.types.find? (·.element == some element)).map (·.id)

/-- The method of a token. -/
def method? (d : Domain) (token : MethodToken) : Option Method :=
  d.types.findSome? fun t => t.members.find? (·.token == token)

/-- Every method, type by type. -/
def methods (d : Domain) : List Method :=
  d.types.toList.flatMap (·.members)

/-- The name of the type of an id. -/
def nameOf (d : Domain) (id : TypeId) : String :=
  ((d.get? id).map (·.name)).getD ""

/-- The type and its bases, nearest first. A base is always older than what derives from it. -/
def chain (d : Domain) (id : TypeId) : List TypeInfo :=
  match d.get? id with
  | none => []
  | some info =>
    match info.base with
    | none => [info]
    | some base => if base.index < id.index then info :: d.chain base else [info]
termination_by id.index

/-- Whether one type is another or derives from it. -/
def isSubtype (d : Domain) (sub sup : TypeId) : Bool :=
  (d.chain sub).any (·.id == sup)

/-- Whether an object may stand where a type is declared. -/
def accepts (d : Domain) (type : ValueType) (ref : ObjectRef) : Bool :=
  match type with
  | .object => true
  | .named name =>
    match d.lookup name with
    | some expected => d.isSubtype ref.type expected
    | none => false
  | .array element => d.findArray? element == some ref.type
  | _ => false

/-- Sets `count` tokens aside and answers the first of them, if the counter can go past them all. -/
def reserveTokens (d : Domain) (count : Nat) : Except DomainError UInt32 × Domain :=
  if d.nextToken.toNat + count < UInt32.size then
    (.ok d.nextToken, { d with nextToken := d.nextToken + .ofNat count })
  else (.error .tokensExhausted, d)

/-- The type of the arrays of an element type, made on first use. -/
def arrayType (d : Domain) (element : ValueType) : TypeId × Domain :=
  match d.findArray? element with
  | some id => (id, d)
  | none =>
    let id : TypeId := ⟨d.types.size⟩
    let info : TypeInfo :=
      ⟨id, (ValueType.array element).name, some rootId, .array, some element, [], [], [], []⟩
    (id, { d with types := d.types.push info })

/-- Whether a token is taken, by a method of the domain or by one that is about to join it. -/
def isTaken (d : Domain) (pending : List MethodToken) (token : MethodToken) : Bool :=
  (d.method? token).isSome || pending.contains token

/-- The greatest number that a token can have. The counter of tokens cannot go past it. -/
def lastToken : UInt32 := 0xFFFFFFFF

/-- The first of `count` tokens from `start` on that is not taken, if the counter can go past it. -/
def freeToken? (d : Domain) (pending : List MethodToken) :
    (count : Nat) → (start : UInt32) → Option UInt32
  | 0, _ => none
  | count + 1, start =>
    if start = lastToken then none
    else if d.isTaken pending ⟨start⟩ then d.freeToken? pending count (start + 1)
    else some start

/-- The token for a new method: its own, which must be free, or the next free one. One of the first
tokens is free that are one more than those in use. -/
def assignToken (d : Domain) (own : Option MethodToken) (pending : List MethodToken) :
    Except DomainError MethodToken × Domain :=
  match own with
  | some token =>
    if d.isTaken pending token then (.error (.duplicateToken token), d) else (.ok token, d)
  | none =>
    match d.freeToken? pending (d.methods.length + pending.length + 1) d.nextToken with
    | some free => (.ok ⟨free⟩, { d with nextToken := free + 1 })
    | none => (.error .tokensExhausted, { d with nextToken := lastToken })

/-- The methods of a new type, each with its token. -/
def makeMethods (id : TypeId) (typeName : String) :
    (d : Domain) → (pending : List MethodToken) → List MethodDecl →
      Except DomainError (List Method) × Domain
  | d, _, [] => (.ok [], d)
  | d, pending, decl :: rest =>
    match d.assignToken decl.token pending with
    | (.error e, d) => (.error e, d)
    | (.ok token, d) =>
      if decl.name.isEmpty then (.error (.unnamedMethod typeName), d)
      else
        let (made, d) := makeMethods id typeName d (pending ++ [token]) rest
        (made.map (decl.toMethod token id typeName :: ·), d)

end Domain

/-- The fields of a new type. Instance slots count on from those of the base, static ones from
zero. -/
def placeFields : (instanceNext staticNext : Nat) → List FieldDecl → List Field
  | _, _, [] => []
  | i, s, decl :: rest =>
    if decl.isStatic then ⟨decl.name, decl.type, s, true⟩ :: placeFields i (s + 1) rest
    else ⟨decl.name, decl.type, i, false⟩ :: placeFields (i + 1) s rest

/-- The type that a declaration makes on a base, with methods that have their tokens. -/
def TypeDecl.toType (decl : TypeDecl) (id : TypeId) (base : TypeInfo) (made : List Method) :
    TypeInfo where
  id := id
  name := decl.name
  base := some base.id
  kind := if decl.isStruct then .struct else .reference
  element := none
  fields := placeFields base.layout.length 0 decl.fields
  constructors := made.filter (·.kind == .constructor)
  methods := made.filter (·.kind != .constructor)
  layout := base.layout ++ (decl.fields.filter (!·.isStatic)).map (·.type)

namespace Domain

/-- The type that a new type derives from. -/
def baseFor (d : Domain) (decl : TypeDecl) : Except DomainError TypeInfo := do
  if decl.name.isEmpty then
    throw .emptyTypeName
  if (d.find? decl.name).isSome then
    throw (.duplicateType decl.name)
  let base ← match decl.base with
    | none => ((d.get? rootId).elim (throw (.unknownType rootName)) pure)
    | some name => (d.find? name).elim (throw (.unknownType name)) pure
  if base.isArray then
    throw (.arrayBase decl.name)
  pure base

/-- Adds a type and keeps the next token above all of its methods. -/
def addType (d : Domain) (info : TypeInfo) : Domain where
  types := d.types.push info
  nextToken := info.members.foldl (fun next m => max next (m.token.id + 1)) d.nextToken

/-- Defines a type. A refused definition may use up tokens and changes nothing else. -/
def define (d : Domain) (decl : TypeDecl) : Except DomainError TypeId × Domain :=
  match d.baseFor decl with
  | .error e => (.error e, d)
  | .ok base =>
    let id : TypeId := ⟨d.types.size⟩
    match makeMethods id decl.name d [] decl.methods with
    | (.error e, d) => (.error e, d)
    | (.ok made, d) =>
      if made.any (·.token.id == lastToken) then (.error .tokensExhausted, d)
      else (.ok id, d.addType (decl.toType id base made))

/-- The domain in diagnostics. -/
def diagnostic (d : Domain) : String :=
  s!"TypeDomain \x7b types: {d.types.size}, methods: {d.methods.length} \x7d"

end Domain

end ScriptHost.Host
