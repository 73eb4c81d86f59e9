import ScriptHost.Proofs.Engine.MethodCalls
import ScriptHost.Proofs.Host.Members
/-!
Static properties as scripts use them through a type. A name that means one is looked up from the
type to its bases, and what is read or written goes to the accessor of the nearest type that has
one, past the fields and properties of instances. In one case it does not: a type that also declares
an accessor for instances under the name, and declares that first, is passed over.
-/
namespace ScriptHost

open Host (Domain Field Method Property TypeId TypeInfo World)
open Script (Value)

namespace Host.Domain

/-- The nearest type, on the way from one to its bases, that declares a static property of a name
with some accessor. `before` are the types on the way to it. -/
structure NearestStatic (d : Domain) (type : TypeId) (name : String)
    (accessor : Property → Option Method) (before : List TypeInfo) (t : TypeInfo) (m : Method) :
    Prop where
  walk : before ++ [t] <+: d.chain type
  declares : ∃ p ∈ t.properties, p.name = name ∧ p.isStatic = true ∧ accessor p = some m
  nearest : ∀ s ∈ before, ∀ p ∈ s.properties, p.name = name → p.isStatic = true →
    accessor p = none

end Host.Domain

namespace Host.TypeInfo

variable {t : TypeInfo} {name : String} {accessor : Property → Option Method}

/-- A type declares no static field of a name. -/
def NoStaticField (t : TypeInfo) (name : String) : Prop :=
  ∀ f ∈ t.fields, f.name = name → f.isStatic = false

instance (t : TypeInfo) (name : String) : Decidable (t.NoStaticField name) :=
  inferInstanceAs (Decidable (∀ f ∈ t.fields, f.name = name → f.isStatic = false))

/-- The accessors of a name that a type declares begin with a static one. -/
def StaticFirst (t : TypeInfo) (name : String) : Prop :=
  ∀ m ∈ t.methods.find? (·.accesses name), m.kind = .static

instance (t : TypeInfo) (name : String) : Decidable (t.StaticFirst name) :=
  inferInstanceAs (Decidable (∀ m ∈ t.methods.find? (·.accesses name), m.kind = .static))

theorem NoStaticField.filter_field? (clear : t.NoStaticField name) :
    (t.field? name).filter (·.isStatic) = none := by
  rw [Option.filter_eq_none_iff]
  intro f found isStatic
  have named : f.name = name := by simpa using List.find?_some found
  rw [clear f (List.mem_of_find?_eq_some found) named] at isStatic
  cases isStatic

/-- A type without a static property of a name that has an accessor is passed. -/
theorem static_accessor_eq_none
    (without : ∀ p ∈ t.properties, p.name = name → p.isStatic = true → accessor p = none) :
    ((t.property? name).filter (·.isStatic)).bind accessor = none := by
  rw [Option.bind_eq_none_iff]
  intro p found
  obtain ⟨first, isStatic⟩ := Option.filter_eq_some_iff.1 found
  have named : p.name = name := by simpa using List.find?_some first
  exact without p (List.mem_of_find?_eq_some first) named isStatic

/-- A type whose accessors of a name begin with a static one shows its static property. -/
theorem static_accessor_eq_some {p : Property} {m : Method} (leads : t.StaticFirst name)
    (member : p ∈ t.properties) (named : p.name = name) (isStatic : p.isStatic = true)
    (has : accessor p = some m) :
    ((t.property? name).filter (·.isStatic)).bind accessor = some m := by
  have found : t.property? name = some p := by
    apply property?_of_first member named
    intro first leading
    rw [isStatic, beq_iff_eq]
    exact leads first leading
  rw [found, Option.filter_some_pos isStatic]
  exact has

end Host.TypeInfo

namespace Run

variable {run : Runner} {w : World Engine} {type : TypeId} {name : String} {key v : Value}
  {before : List TypeInfo} {t : TypeInfo} {m : Method}

/-- Reading a name through a type calls the getter of the nearest static property, unless a static
field or a method is nearer. -/
theorem getStatic_property (text : key.text? = some name)
    (nearest : w.host.domain.NearestStatic type name (·.getter) before t m)
    (noField : ∀ s ∈ before ++ [t], s.NoStaticField name)
    (noMethod : ∀ s ∈ before, s.hasMethod name = false) (leads : t.StaticFirst name) :
    getStatic run type key w = readProperty run m none [] w := by
  obtain ⟨walk, ⟨p, member, named, isStatic, has⟩, others⟩ := nearest
  have found : (w.host.domain.chain type).findSome? (staticReadableAt · name) =
      some (.property m) := by
    apply Domain.findSome?_chain walk
    · intro s passed
      unfold staticReadableAt
      rw [(noField s (List.mem_append_left _ passed)).filter_field?,
        TypeInfo.static_accessor_eq_none (others s passed), noMethod s passed]
      rfl
    · unfold staticReadableAt
      rw [(noField t (List.mem_append_right _ (List.mem_singleton_self t))).filter_field?,
        TypeInfo.static_accessor_eq_some leads member named isStatic has]
  unfold getStatic
  refine (domain_bind_apply _ w).trans ?_
  rw [text, Option.bind_some, found]
  rfl

/-- Writing a name through a type calls the setter of the nearest static property, unless a static
field is nearer. -/
theorem setStatic_property (text : key.text? = some name)
    (nearest : w.host.domain.NearestStatic type name (·.setter) before t m)
    (noField : ∀ s ∈ before ++ [t], s.NoStaticField name) (leads : t.StaticFirst name) :
    setStatic run type key v w = writeProperty run m none [v] w := by
  obtain ⟨walk, ⟨p, member, named, isStatic, has⟩, others⟩ := nearest
  have found : (w.host.domain.chain type).findSome? (staticWritableAt · name) =
      some (.property (some m) t.name) := by
    apply Domain.findSome?_chain walk
    · intro s passed
      unfold staticWritableAt
      rw [(noField s (List.mem_append_left _ passed)).filter_field?,
        TypeInfo.static_accessor_eq_none (others s passed)]
      rfl
    · unfold staticWritableAt
      rw [(noField t (List.mem_append_right _ (List.mem_singleton_self t))).filter_field?,
        TypeInfo.static_accessor_eq_some leads member named isStatic has]
      rfl
  unfold setStatic
  refine (domain_bind_apply _ w).trans ?_
  rw [text, Option.bind_some, found]

/-- Static properties can be used through a type. What a script reads or writes under a name goes to
the accessor of the nearest type that declares a static property of that name with one, whatever
fields and properties of the name there are for instances: if no static field is as near (and, for
reading, no method is nearer), and the accessors of that name that the type declares begin with a
static one. -/
theorem classMember_property (run : Runner) (type : TypeId) (handle key v : Value)
    (w : World Engine) {name : String} (text : key.text? = some name) :
    (∀ before t getter, w.host.domain.NearestStatic type name (·.getter) before t getter →
      (∀ s ∈ before ++ [t], s.NoStaticField name) → (∀ s ∈ before, s.hasMethod name = false) →
      t.StaticFirst name →
      applyTypeFunction run type .classIndex [handle, key] w =
        (do return [← readProperty run getter none []]) w) ∧
    ∀ before t setter, w.host.domain.NearestStatic type name (·.setter) before t setter →
      (∀ s ∈ before ++ [t], s.NoStaticField name) → t.StaticFirst name →
      applyTypeFunction run type .classNewindex [handle, key, v] w =
        (do writeProperty run setter none [v]; return []) w := by
  constructor
  · intro before t getter nearest noField noMethod leads
    refine (bind_apply _ _ w).trans ?_
    have read : getStatic run type ([handle, key].getD 1 .nil) w = _ :=
      getStatic_property text nearest noField noMethod leads
    rw [read]
    exact (bind_apply _ _ w).symm
  · intro before t setter nearest noField leads
    refine (bind_apply _ _ w).trans ?_
    have wrote : setStatic run type ([handle, key, v].getD 1 .nil)
        ([handle, key, v].getD 2 .nil) w = _ := setStatic_property text nearest noField leads
    rw [wrote]
    exact (bind_apply _ _ w).symm

/-! ## Types with properties of one name for themselves and for their instances -/

/-- A method that gives a truth value. -/
def levelDecl (kind : Host.MethodKind) (level : Bool) : Host.MethodDecl where
  name := "get_Level"
  kind := kind
  params := []
  ret := .bool
  body := .native [.ret (.bool level)]

/-- A static method that takes a truth value and reports that it runs. -/
def adjustDecl : Host.MethodDecl where
  name := "set_Level"
  kind := .static
  params := [⟨"level", .bool, .input⟩]
  ret := .void
  body := .native [.trace "adjusted"]

/-- A type with a field for its instances, a property for itself and then one for its instances, all
of one name. -/
def gauge : Host.TypeDecl :=
  ⟨"Gauge", none, false, [⟨"Level", .bool, false⟩],
    [levelDecl .static true, adjustDecl, levelDecl .ofInstance false]⟩

/-- A type that derives from it, with a property of that name for its instances only. -/
def dial : Host.TypeDecl :=
  ⟨"Dial", some "Gauge", false, [], [levelDecl .ofInstance false]⟩

/-- A type with the two properties in the other order. -/
def valve : Host.TypeDecl :=
  ⟨"Valve", none, false, [], [levelDecl .ofInstance false, levelDecl .static true]⟩

/-- A world with the three types. -/
def gauges : World Engine :=
  ⟨(((({} : Host.State).define gauge).2.define dial).2.define valve).2, #[], [], .ofOptions {}⟩

/-- The root, as every host has it. -/
def rootType : TypeInfo := ⟨Host.rootId, Host.rootName, none, .reference, none, [], [], [], []⟩

/-- The first type with its methods, as the host has it. -/
def gaugeType : TypeInfo := gauge.toType ⟨1⟩ rootType
  [(levelDecl .static true).toMethod ⟨1⟩ ⟨1⟩ "Gauge", adjustDecl.toMethod ⟨2⟩ ⟨1⟩ "Gauge",
    (levelDecl .ofInstance false).toMethod ⟨3⟩ ⟨1⟩ "Gauge"]

/-- The derived type. -/
def dialType : TypeInfo := dial.toType ⟨2⟩ gaugeType
  [(levelDecl .ofInstance false).toMethod ⟨4⟩ ⟨2⟩ "Dial"]

/-- The type with the other order. -/
def valveType : TypeInfo := valve.toType ⟨3⟩ rootType
  [(levelDecl .ofInstance false).toMethod ⟨5⟩ ⟨3⟩ "Valve",
    (levelDecl .static true).toMethod ⟨6⟩ ⟨3⟩ "Valve"]

/-- Through the derived type, the static property of its base is read and written, past the
properties for instances of both and the field for instances. -/
theorem classMember_property_dial :
    let run : Runner := fun _ => throw .exhausted
    let getter := (levelDecl .static true).toMethod ⟨1⟩ ⟨1⟩ "Gauge"
    let setter := adjustDecl.toMethod ⟨2⟩ ⟨1⟩ "Gauge"
    let read := applyTypeFunction run ⟨2⟩ .classIndex [.nil, .text "Level"] gauges
    let wrote := applyTypeFunction run ⟨2⟩ .classNewindex [.nil, .text "Level", .bool false] gauges
    read = (do return [← readProperty run getter none []]) gauges ∧
      read.1.toOption.map (·.map (·.equals (.bool true))) = some [true] ∧
      wrote = (do writeProperty run setter none [.bool false]; return []) gauges ∧
      wrote.1.isOk = true ∧ wrote.2.journal.size = 1 := by
  intro run getter setter read wrote
  have walk : [dialType] ++ [gaugeType] <+: gauges.host.domain.chain ⟨2⟩ := by decide +kernel
  obtain ⟨reads, writes⟩ := classMember_property run ⟨2⟩ .nil (.text "Level") (.bool false) gauges
    (Script.Value.text?_text "Level")
  refine ⟨?_, by decide +kernel, ?_, by decide +kernel, by decide +kernel⟩
  · exact reads [dialType] gaugeType getter ⟨walk, by decide +kernel, by decide +kernel⟩
      (by decide +kernel) (by decide +kernel) (by decide +kernel)
  · exact writes [dialType] gaugeType setter ⟨walk, by decide +kernel, by decide +kernel⟩
      (by decide +kernel) (by decide +kernel)

/-- A static property behind one for instances is not found, though its getter can be called. -/
theorem valve_hides_level :
    let run : Runner := fun _ => throw .exhausted
    let getter := (levelDecl .static true).toMethod ⟨6⟩ ⟨3⟩ "Valve"
    gauges.host.domain.NearestStatic ⟨3⟩ "Level" (·.getter) [] valveType getter ∧
      (∀ s ∈ gauges.host.domain.chain ⟨3⟩,
        s.NoStaticField "Level" ∧ s.hasMethod "Level" = false) ∧
      (readProperty run getter none [] gauges).1.toOption.map (·.equals (.bool true)) = some true ∧
      (applyTypeFunction run ⟨3⟩ .classIndex [.nil, .text "Level"] gauges).1.isOk = false := by
  intro run getter
  exact ⟨⟨by decide +kernel, by decide +kernel, nofun⟩, by decide +kernel, by decide +kernel,
    by decide +kernel⟩

end Run

end ScriptHost
