import ScriptHost.Image.Check
/-!
Giving the patchable methods of an image a prologue. The prologue puts the arguments into a carrier,
asks the hub whether a patch takes the place of the method, and goes on to the method's own code if
none does; otherwise it takes the by-reference arguments and the result from the carrier.
-/
namespace ScriptHost.Image

open Host

/-- Why a method takes no prologue. -/
inductive Obstacle
  | isHub
  | noBody
  | tooManySlots
  /-- A moved branch would leave the range of positions, and the run breaks off. -/
  | overflow
  deriving DecidableEq, Repr

/-- What an obstacle says. -/
def Obstacle.message : Obstacle → String
  | .isHub => "the patch hub cannot patch itself"
  | .noBody => "no IL body"
  | .tooManySlots => "too many parameters or locals"
  | .overflow => "attempt to add with overflow"

/-- Why an image takes no prologues. -/
inductive InjectError
  | hubNotFound (image : String) (found : Nat)
  | alreadyInjected (signature : String)
  | unpatchable (signature : String) (obstacle : Obstacle)
  | verify (signature : String) (cause : VerifyError)
  | refused (cause : Error)
  deriving DecidableEq, Repr

/-- What a refusal says. -/
def InjectError.message : InjectError → String
  | .hubNotFound image found =>
    s!"Patch hub not found in image `{image}` (expected exactly one, found {found})"
  | .alreadyInjected signature => s!"Method `{signature}` was already injected"
  | .unpatchable signature obstacle =>
    s!"Method `{signature}` cannot be patched: " ++ obstacle.message
  | .verify signature cause =>
    s!"Injected body of `{signature}` failed verification: " ++ cause.message
  | .refused cause => cause.message

/-- What is said when an injection breaks off instead of refusing the image. -/
def InjectError.panic? : InjectError → Option String
  | .unpatchable _ .overflow => some Obstacle.overflow.message
  | _ => none

/-- The hub and the methods that got a prologue. -/
structure InjectReport where
  hub : String
  injected : List String
  deriving DecidableEq, Repr

/-- A number of a slot, if it fits. -/
def slot? (i : Nat) : Except Obstacle UInt16 :=
  if i < 0x10000 then .ok (.ofNat i) else .error .tooManySlots

/-- A whole number as an operand. -/
def ldNat (n : Nat) : Instr :=
  .ldInt (.ofNat n)

/-- Stores an argument in the carrier. -/
def storeArg (carrier : UInt16) (i : Nat) : Except Obstacle (List Instr) := do
  let slot ← slot? i
  pure [.ldLoc carrier, ldNat i, .ldArg slot, .stElem]

/-- Takes a by-reference argument from the carrier. -/
def loadArg (carrier : UInt16) (i : Nat) : Except Obstacle (List Instr) := do
  let slot ← slot? i
  pure [.ldLoc carrier, ldNat i, .ldElem, .stArg slot]

/-- The positions of the parameters that callers receive a value from. -/
def byRefIndices (params : List Param) : List Nat :=
  (params.zipIdx.filter (·.1.isByRef)).map (·.2)

/-- The part of a prologue up to the branch over the patched return. -/
def question (m : MethodDef) (hub : MethodToken) (carrier : UInt16) (stores : List Instr) :
    List Instr :=
  [.anchor .argMarshal, ldNat (m.params.length + 1), .newArr .object, .stLoc carrier] ++ stores ++
    [.anchor .hubCall, .ldStr m.signature, .ldToken m.token,
      if m.kind = .static then .ldNull else .ldThis, .ldLoc carrier, .call hub, .anchor .vetoBranch]

/-- The part of a prologue that returns what a patch left in the carrier. -/
def patchedReturn (m : MethodDef) (carrier : UInt16) (result : Option UInt16) (loads : List Instr) :
    List Instr :=
  let value := match result with
    | some slot =>
      [.ldLoc carrier, ldNat m.params.length, .ldElem, .stLoc slot, .ldLoc slot]
    | none => []
  [.anchor .refOutWriteback] ++ loads ++ [.anchor .ret] ++ value ++ [.ret]

/-- Whether the branch target of an instruction can move by some positions. -/
def movable (shift : UInt32) (instr : Instr) : Bool :=
  instr.branchTarget?.all fun target => target.toNat + shift.toNat < UInt32.size

/-- Code that stands some positions further on. Its branches move along. -/
def relocate (shift : UInt32) (code : Array Instr) : Except Obstacle (Array Instr) :=
  if code.all (movable shift) then .ok (code.map (Instr.mapTarget (· + shift)))
  else .error .overflow

/-- The local for the result of a method, if it has one. -/
def placeResult (m : MethodDef) (locals : Array ValueType) :
    Except Obstacle (Option UInt16 × Array ValueType) :=
  if m.returnsValue then (slot? locals.size).map fun slot => (some slot, locals.push m.ret)
  else .ok (none, locals)

/-- The body of a method with a prologue in front. -/
def injectBody (m : MethodDef) (hub : MethodToken) : Except Obstacle Body := do
  let own ← m.body.elim (throw .noBody) pure
  let carrier ← slot? own.locals.size
  let locals := own.locals.push (.array .object)
  let (result, locals) ← placeResult m locals
  let stores ← (List.range m.params.length).mapM (storeArg carrier)
  let loads ← (byRefIndices m.params).mapM (loadArg carrier)
  let front := question m hub carrier stores.flatten
  let back := patchedReturn m carrier result loads.flatten
  let start := front.length + 1 + back.length
  let moved ← relocate (.ofNat (start + 1)) own.code
  let prologue := front ++ [.brFalse (.ofNat start)] ++ back ++ [.anchor .ownCode]
  pure { locals, code := prologue.toArray ++ moved }

/-- Whether the body of a method holds a mark of a prologue. -/
def carriesPrologue (m : MethodDef) : Bool :=
  match m.body with
  | none => false
  | some body => (body.anchor? .hubCall).isSome || (body.anchor? .ownCode).isSome

/-- Gives a patchable method a prologue. -/
def injectMethod (image : Image) (hub : MethodToken) (m : MethodDef) :
    Except InjectError MethodDef := do
  if m.attrs.injected || carriesPrologue m then
    throw (.alreadyInjected m.signature)
  if m.attrs.patchHub then
    throw (.unpatchable m.signature .isHub)
  let body ← (injectBody m hub).mapError (.unpatchable m.signature)
  (Host.verify body m.shape image.callEffect?).mapError (.verify m.signature)
  pure { m with body := some body, attrs := { m.attrs with injected := true } }

/-- Gives every patchable method of an image a prologue. -/
def inject (image : Image) : Except InjectError (Image × InjectReport) := do
  image.verify.mapError .refused
  match image.hubs with
  | [hub] =>
    let methods ← image.methods.mapM fun m =>
      if m.attrs.patchable then image.injectMethod hub.token m else pure m
    let injected := (image.methods.filter (·.attrs.patchable)).map (·.signature)
    pure ({ image with methods }, ⟨hub.signature, injected⟩)
  | hubs => throw (.hubNotFound image.name hubs.length)

end ScriptHost.Image
