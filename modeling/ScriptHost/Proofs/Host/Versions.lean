import ScriptHost.Host.Invoke
import ScriptHost.Proofs.Host.Likeness
/-!
Two versions of a domain that differ in the bodies of methods only. On hosts with them that are alike,
one instruction does the same on both sides.
-/
namespace ScriptHost.Host

open List (Forall₂)

/-! ## Hosts -/

/-- Two versions of a domain, and what a host with the second one may have besides. -/
structure Versions where
  first : Domain
  second : Domain
  spare : Array Value → Prop

/-- A host with the first version that is like one with the second. Both may know more types of
arrays than their versions. -/
structure State.Like (versions : Versions) (p : Places) (s t : State) : Prop where
  heap : s.heap.Like p versions.spare t.heap
  statics : Forall₂ (fun a b : Array Value => AllLike p a.toList b.toList)
    s.statics.toList t.statics.toList
  types : t.domain.strip = s.domain.strip
  methods : ∀ token, s.domain.method? token = versions.first.method? token
  methods' : ∀ token, t.domain.method? token = versions.second.method? token
  interned : ∃ id, t.domain.findArray? .object = some id

/-- What is done on both sides comes to the same: the hosts are still alike, perhaps with more places
than before, and what there is to show for it is related. -/
def Likewise {α β : Type} (versions : Versions) (p : Places) (R : Places → α → β → Prop)
    (r : α × State) (r' : β × State) : Prop :=
  ∃ q, p.Grows q ∧ r.2.Like versions q r'.2 ∧ R q r.1 r'.1

/-- Two results that are related, or one and the same exception. -/
inductive SameOutcome {α β : Type} (R : α → β → Prop) :
    Except HostException α → Except HostException β → Prop
  | ok {a : α} {b : β} (given : R a b) : SameOutcome R (.ok a) (.ok b)
  | error (e : HostException) : SameOutcome R (.error e) (.error e)

variable {versions : Versions} {p q : Places}

namespace State.Like

variable {s t : State} {a b : ObjectRef} {v v' : Value}

/-- A static slot keeps what it holds. -/
theorem grow_statics (like : s.Like versions p t) (grown : p.Grows q) :
    Forall₂ (fun a b : Array Value => AllLike q a.toList b.toList)
      s.statics.toList t.statics.toList :=
  like.statics.imp fun _ _ same => same.mono grown

theorem get? (like : s.Like versions p t) (id : TypeId) :
    (t.domain.get? id).map (·.strip) = (s.domain.get? id).map (·.strip) := by
  rw [← Domain.get?_strip, ← Domain.get?_strip, like.types]

theorem findArray? (like : s.Like versions p t) (element : ValueType) :
    t.domain.findArray? element = s.domain.findArray? element := by
  rw [← Domain.findArray?_strip t.domain, ← Domain.findArray?_strip s.domain, like.types]

/-- Storing into an object. -/
theorem setSlot (like : s.Like versions p t) (target : a.Like p b) (stored : v.Like p v')
    (slot : Nat) :
    (t.setSlot b slot v').1 = (s.setSlot a slot v).1 ∧
      (s.setSlot a slot v).2.Like versions p (t.setSlot b slot v').2 := by
  rw [State.setSlot_eq, State.setSlot_eq, like.heap.size target]
  by_cases inBounds : slot < s.heap.size a
  · rw [if_pos inBounds, if_pos inBounds]
    exact ⟨rfl, { like with heap := like.heap.set target stored slot }⟩
  · rw [if_neg inBounds, if_neg inBounds]
    exact ⟨rfl, like⟩

/-- Making an object. -/
theorem allocate (like : s.Like versions p t) (type : TypeId) {slots slots' : Array Value}
    (alike : AllLike p slots.toList slots'.toList) :
    Likewise versions p ObjectRef.Like (s.allocate type slots) (t.allocate type slots') := by
  obtain ⟨grown, heap⟩ := like.heap.push alike
  exact ⟨_, grown, { like with heap := heap, statics := like.grow_statics grown },
    Places.put_same p _ _, rfl⟩

/-- Having a type for the arrays of an element type. -/
theorem arrayType (like : s.Like versions p t) (element : ValueType) :
    (t.arrayType element).1 = (s.arrayType element).1 ∧
      (s.arrayType element).2.Like versions p (t.arrayType element).2 := by
  have stripped := Domain.arrayType_strip t.domain element
  rw [like.types, Domain.arrayType_strip] at stripped
  obtain ⟨sameId, sameTypes⟩ := Prod.mk.inj stripped
  unfold State.arrayType
  rw [like.findArray? element]
  cases s.domain.findArray? element with
  | some id => exact ⟨rfl, like⟩
  | none =>
    refine ⟨sameId.symm, like.heap, ?_, sameTypes.symm, fun token => ?_, fun token => ?_, ?_⟩
    · dsimp only
      rw [Array.toList_push, Array.toList_push]
      exact List.rel_append like.statics (.cons .nil .nil)
    · exact (Domain.method?_arrayType _ _ _).trans (like.methods token)
    · exact (Domain.method?_arrayType _ _ _).trans (like.methods' token)
    · obtain ⟨id, known⟩ := like.interned
      exact ⟨id, (Domain.extends_arrayType _ _).findArray? known⟩

/-- Making an array. -/
theorem newArray (like : s.Like versions p t) (element : ValueType) {values values' : Array Value}
    (alike : AllLike p values.toList values'.toList) :
    Likewise versions p ObjectRef.Like (s.newArray element values) (t.newArray element values') := by
  obtain ⟨sameType, typed⟩ := like.arrayType element
  unfold State.newArray
  dsimp only
  rw [sameType]
  exact typed.allocate _ alike

/-- Making an instance. -/
theorem instantiate (like : s.Like versions p t) (type : TypeId) :
    Likewise versions p (fun q => SameOutcome (ObjectRef.Like q)) (s.instantiate type)
      (t.instantiate type) := by
  have same := like.get? type
  unfold State.instantiate
  cases found : s.domain.get? type with
  | none =>
    rw [found, Option.map_none, Option.map_eq_none_iff] at same
    rw [same]
    exact ⟨p, .refl p, like, .error _⟩
  | some info =>
    rw [found] at same
    obtain ⟨info', found', stripped⟩ := Option.map_eq_some_iff.1 same
    have kind : info'.isArray = info.isArray := (congrArg TypeInfo.isArray stripped :)
    have name : info'.name = info.name := (congrArg TypeInfo.name stripped :)
    have layout : info'.layout = info.layout := (congrArg TypeInfo.layout stripped :)
    rw [found']
    dsimp only
    rw [kind, name, layout]
    split
    · exact ⟨p, .refl p, like, .error _⟩
    · obtain ⟨q, grown, after, made⟩ := like.allocate type (AllLike.defaults info.layout)
      exact ⟨q, grown, after, .ok made⟩

/-- A token names a method on both sides or on none. The two methods differ in their bodies only. -/
theorem method? (like : s.Like versions p t) (token : MethodToken) :
    (s.domain.method? token = none ∧ t.domain.method? token = none) ∨
      ∃ m m', s.domain.method? token = some m ∧ t.domain.method? token = some m' ∧
        m'.strip = m.strip := by
  have same : (t.domain.method? token).map (·.strip) = (s.domain.method? token).map (·.strip) := by
    rw [← Domain.method?_strip, ← Domain.method?_strip, like.types]
  cases known : s.domain.method? token with
  | none =>
    rw [known, Option.map_none, Option.map_eq_none_iff] at same
    exact .inl ⟨rfl, same⟩
  | some m =>
    rw [known] at same
    obtain ⟨m', known', stripped⟩ := Option.map_eq_some_iff.1 same
    exact .inr ⟨m, m', rfl, known', stripped⟩

end State.Like

/-! ## Computations -/

/-- Computations that do the same on hosts that are alike and give what is related. -/
def HostM.Agree {α β : Type} (versions : Versions) (p : Places) (R : α → β → Prop) (m : HostM α)
    (m' : HostM β) : Prop :=
  ∀ s t : State, s.Like versions p t →
    (m s).2.Like versions p (m' t).2 ∧ SameOutcome R (m s).1 (m' t).1

namespace HostM.Agree

variable {α α' β β' : Type} {P : α → α' → Prop} {Q : β → β' → Prop}

theorem pure {a : α} {b : α'} (given : P a b) :
    HostM.Agree versions p P (pure a : HostM α) (pure b : HostM α') :=
  fun _ _ like => ⟨like, .ok given⟩

theorem throw (e : HostException) :
    HostM.Agree versions p P (throw e : HostM α) (throw e : HostM α') :=
  fun _ _ like => ⟨like, .error e⟩

theorem lift {r : Except HostException α} {r' : Except HostException α'} (given : SameOutcome P r r') :
    HostM.Agree versions p P (liftM r : HostM α) (liftM r' : HostM α') :=
  fun _ _ like => ⟨like, given⟩

theorem get :
    HostM.Agree versions p (State.Like versions p) (get : HostM State) (get : HostM State) :=
  fun _ _ like => ⟨like, .ok like⟩

theorem setSlot {a b : ObjectRef} {v v' : Value} (target : a.Like p b) (stored : v.Like p v')
    (slot : Nat) :
    HostM.Agree versions p (fun x y => y = x) (modifyGet (·.setSlot a slot v) : HostM Bool)
      (modifyGet (·.setSlot b slot v') : HostM Bool) := by
  intro s t like
  obtain ⟨same, after⟩ := like.setSlot target stored slot
  exact ⟨after, .ok same⟩

theorem bind {m : HostM α} {m' : HostM α'} {f : α → HostM β} {f' : α' → HostM β'}
    (first : HostM.Agree versions p P m m')
    (second : ∀ a b, P a b → HostM.Agree versions p Q (f a) (f' b)) :
    HostM.Agree versions p Q (m >>= f) (m' >>= f') := by
  intro s t like
  obtain ⟨after, same⟩ := first s t like
  rw [HostM.bind_apply, HostM.bind_apply]
  cases result : m s with
  | mk outcome u =>
    cases result' : m' t with
    | mk outcome' u' =>
      rw [result, result'] at after same
      cases same with
      | ok given => exact second _ _ given u u' after
      | error e => exact ⟨after, .error e⟩

/-- Computations that leave all places as they are. -/
theorem likewise {m : HostM α} {m' : HostM α'} {R : Places → α → α' → Prop}
    (agree : HostM.Agree versions p (R p) m m') {s t : State} (like : s.Like versions p t) :
    Likewise versions p (fun q => SameOutcome (R q)) (m s) (m' t) := by
  obtain ⟨after, same⟩ := agree s t like
  exact ⟨p, .refl p, after, same⟩

end HostM.Agree

end ScriptHost.Host
