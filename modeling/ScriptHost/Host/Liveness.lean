import ScriptHost.Host.State
/-!
Which objects are still referred to. An object without references is gone, and with it the
references from its slots; objects that refer to each other in a circle keep each other.
-/
namespace ScriptHost.Host

/-- The objects among values. -/
def objectsOf (values : List Value) : List ObjectRef :=
  values.filterMap (·.asObject?)

/-- The objects that the slots of an object refer to. -/
def Heap.references (h : Heap) (id : Nat) : List Nat :=
  (objectsOf (h.objects.getD id #[]).toList).map (·.id)

/-- Which objects are referred to from the roots or from a slot of one of `present`. -/
def Heap.referred (h : Heap) (roots : List Nat) (present : List Nat) : Array Bool :=
  let none := Array.replicate h.objects.size false
  let marked := roots.foldl (fun marks id => marks.setIfInBounds id true) none
  present.foldl (fun marks id =>
    (h.references id).foldl (fun marks id => marks.setIfInBounds id true) marks) marked

/-- Removes from `present` what nothing refers to, as long as there is such an object. -/
def Heap.settle (h : Heap) (roots : List Nat) : (rounds : Nat) → (present : List Nat) → List Nat
  | 0, present => present
  | rounds + 1, present =>
    let marks := h.referred roots present
    let kept := present.filter fun id => marks.getD id false
    if kept.length = present.length then present else h.settle roots rounds kept

/-- The objects that are still there when only the roots hold objects from outside. -/
def Heap.survivors (h : Heap) (roots : List Nat) : List Nat :=
  h.settle roots h.objects.size (List.range h.objects.size)

/-- Whether an object is still there, given the values that hold objects from outside. -/
def State.isAlive (s : State) (holders : List Value) (ref : ObjectRef) : Bool :=
  let statics := s.statics.toList.flatMap (·.toList)
  (s.heap.survivors ((objectsOf (holders ++ statics)).map (·.id))).contains ref.id

end ScriptHost.Host
