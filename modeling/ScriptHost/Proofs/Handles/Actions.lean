import ScriptHost.Proofs.Handles.Collection
import ScriptHost.Proofs.Handles.Members
import ScriptHost.Session.StackActions
/-!
Actions on values, variables and the stack keep a world balanced. The values that a step gives are at
hand until its variables take them.
-/
namespace ScriptHost

open Host (AllWithin ObjectNames ObjectRef TypeId World)
open Run
open Script (BehaviourPart FunctionRef Term Value)

variable {ε α β : Type} {w v : World Engine} {run run' : Runner}

namespace Balanced

variable {loose : List Value}

theorem within_name (balanced : Balanced [] w) {name : String} {ref : ObjectRef}
    (found : w.outer.names.find? name = some ref) :
    (Host.Value.object ref).Within w.host.types := by
  obtain ⟨before, after, same, _⟩ := List.lookup_eq_some_iff.1 found
  refine balanced.names (name, ref) ?_
  rw [same]
  exact List.mem_append_right _ List.mem_cons_self

/-- Objects that have names are typed. -/
theorem rename (balanced : Balanced loose w) {names : ObjectNames}
    (known : ∀ entry ∈ names, (Host.Value.object entry.2).Within w.host.types) :
    Balanced loose { w with outer := { w.outer with names } } :=
  ⟨balanced.typed, known, balanced.entries, balanced.globals, balanced.bindings, balanced.classes,
    balanced.furnished, fun later => balanced.custody (later.congr rfl rfl rfl)⟩

theorem renumber (balanced : Balanced loose w) (nextId : Nat) :
    Balanced loose (withScript w { w.outer.script with nextId }) :=
  balanced.restack rfl rfl rfl (fun _ => .inl) fun _ => id

/-- A variable takes a value, and what it held before is at hand. -/
theorem insertBinding {x : Value} (balanced : Balanced (x :: loose) w)
    (name : String) :
    Balanced (loose ++ (w.outer.bindings.find? name).toList)
      { w with outer := { w.outer with bindings := w.outer.bindings.insert name x } } := by
  obtain ⟨only, self, others⟩ := Table.mem_values_insert balanced.bindings name x
  refine Sound.move balanced rfl rfl rfl (fun later => later.congr rfl rfl rfl) balanced.globals
    (Table.nodup_insert balanced.bindings ..) (fun _ y => ?_) fun h => ?_
  · simp only [Engine.has_iff, List.mem_append, Option.mem_toList, List.mem_cons]
    have new := only y
    have old : w.outer.bindings.find? name = some y → y ∈ w.outer.bindings.values :=
      Table.mem_values_of_find?
    tauto
  · simp only [Engine.has_iff, List.mem_append, Option.mem_toList, List.mem_cons]
    have kept := others (.handle h)
    have self : Value.handle h = x → Value.handle h ∈ (w.outer.bindings.insert name x).values :=
      fun same => same ▸ self
    tauto

theorem eraseBinding (balanced : Balanced [] w) (name : String) :
    Balanced (w.outer.bindings.find? name).toList
      { w with outer := { w.outer with bindings := w.outer.bindings.erase name } } := by
  obtain ⟨only, others⟩ := Table.mem_values_erase balanced.bindings name
  refine Sound.move balanced rfl rfl rfl (fun later => later.congr rfl rfl rfl) balanced.globals
    (Table.nodup_erase balanced.bindings _) (fun _ y => ?_) fun h => ?_
  · simp only [Engine.has_iff, Option.mem_toList]
    have stays := only y
    have old : w.outer.bindings.find? name = some y → y ∈ w.outer.bindings.values :=
      Table.mem_values_of_find?
    tauto
  · simp only [Engine.has_iff, Option.mem_toList]
    have kept := others (.handle h)
    tauto

/-- A global name takes a value, and what it had before is at hand. -/
theorem insertGlobal {x : Value} (balanced : Balanced [x] w) (name : String) :
    Balanced (w.outer.script.globals.find? name).toList (withScript w
      { w.outer.script with globals := w.outer.script.globals.insert name x }) := by
  obtain ⟨only, self, others⟩ := Table.mem_values_insert balanced.globals name x
  refine Sound.move balanced rfl rfl rfl (fun later => later.congr rfl rfl rfl)
    (Table.nodup_insert balanced.globals ..) balanced.bindings (fun _ y => ?_) fun h => ?_
  · simp only [Engine.has_iff, Option.mem_toList, List.mem_singleton, withScript]
    have new := only y
    have old : w.outer.script.globals.find? name = some y → y ∈ w.outer.script.globals.values :=
      Table.mem_values_of_find?
    tauto
  · simp only [Engine.has_iff, Option.mem_toList, List.mem_singleton, withScript]
    have kept := others (.handle h)
    have self : Value.handle h = x →
        Value.handle h ∈ (w.outer.script.globals.insert name x).values := fun same => same ▸ self
    tauto

end Balanced

namespace Session

/-! ## Terms -/

/-- A value that an engine holds, or that anyone can have. -/
def Had (w : World Engine) (x : Value) : Prop :=
  x ∈ w.outer.values ∨ x.Plain

theorem Had.adopt {x : Value} (had : Had w x) (balanced : Balanced [] w) : Balanced [x] w :=
  Sound.adopt balanced fun _ => had

theorem Had.keep {values : List Value} (had : ∀ x ∈ values, Had w x) (balanced : Balanced [] w) :
    Balanced [] (keeping values w) :=
  (balanced.regain fun _ => had).keeping

theorem had_getD {found : Option Value} (there : ∀ x, found = some x → x ∈ w.outer.values) :
    Had w (found.getD .nil) := by
  cases found with
  | none => exact .inr trivial
  | some x => exact .inl (there x rfl)

theorem mem_of_valueAt? {s : Script.State} {i : Int} {x : Value} (found : s.valueAt? i = some x) :
    x ∈ s.stack := by
  obtain ⟨pos, _, there⟩ := Option.bind_eq_some_iff.1 found
  exact Array.mem_of_getElem? there

theorem had_valueAt (w : World Engine) (i : Int) : Had w (w.outer.script.valueAt i) :=
  had_getD fun _ found => Engine.mem_values_of_stack (mem_of_valueAt? found)

theorem had_global (w : World Engine) (name : String) :
    Had w ((w.outer.script.globals.find? name).getD .nil) :=
  had_getD fun _ => Engine.mem_values_of_global

theorem balances_need {R : α → Prop} (balanced : Balanced [] w) (what : String) {found : Option α}
    (known : ∀ a, found = some a → R a) :
    Balances w (need what found) (need what found) fun a v => v = w ∧ R a := by
  cases found with
  | none => exact .fail balanced _
  | some a => exact .pure ⟨rfl, known a rfl⟩

theorem balances_value (balanced : Balanced [] w) (t : Term) :
    Balances w (value t) (value t) fun x v => v = w ∧ Had w x := by
  cases t with
  | var name =>
    exact .engine (balances_need balanced _ fun _ found => .inl (Engine.mem_values_of_binding found))
  | argument i => exact .script (.pure ⟨rfl, had_valueAt w i⟩)
  | global name => exact .script (.pure ⟨rfl, had_global w name⟩)
  | _ => exact .pure ⟨rfl, .inr trivial⟩

theorem balances_values (balanced : Balanced [] w) (terms : List Term) :
    Balances w (terms.mapM value) (terms.mapM value) fun xs v => v = w ∧ ∀ x ∈ xs, Had w x :=
  .reads fun t _ => balances_value balanced t

theorem balances_function (balanced : Balanced [] w) (t : Term) :
    Balances w (function t) (function t) fun f v => v = w ∧ (w.outer.Regular → f.Fair) := by
  refine (balances_value balanced t).look fun x had => balances_need balanced _ fun f same => ?_
  intro regular
  cases x <;> cases same
  exact had.elim (fun there => balanced.fair (.inl there) regular) id

theorem balances_handle (balanced : Balanced [] w) (t : Script.HandleTerm) :
    Balances w (handle t) (handle t) fun _ v => v = w ∧ True := by
  cases t with
  | word raw => exact .pure ⟨rfl, trivial⟩
  | value t =>
    refine (balances_value balanced t).look fun x _ => ?_
    exact Balances.look (R := fun _ => True) (balances_need balanced _ fun _ _ => trivial)
      fun _ _ => .pure ⟨rfl, trivial⟩

theorem balances_typeId (balanced : Balanced [] w) (t : Script.TypeTerm) :
    Balances w (typeId t) (typeId t) fun _ v => v = w ∧ True := by
  cases t with
  | named name => exact .domain (balances_need balanced _ fun _ _ => trivial)
  | id index => exact .pure ⟨rfl, trivial⟩

theorem balances_object (balanced : Balanced [] w) (name : String) :
    Balances w (object name) (object name)
      fun ref v => v = w ∧ (Host.Value.object ref).Within w.host.types :=
  .engine (balances_need balanced _ fun _ => balanced.within_name)

theorem balances_object? (balanced : Balanced [] w) (name : Option String) :
    Balances w (object? name) (object? name)
      fun this v => v = w ∧ ∀ ref, this = some ref → (Host.Value.object ref).Within w.host.types := by
  cases name with
  | none => exact .pure ⟨rfl, nofun⟩
  | some name =>
    refine (balances_object balanced name).look fun ref known => .pure ⟨rfl, ?_⟩
    exact fun other same => Option.some.inj same ▸ known

theorem balances_hostValue (balanced : Balanced [] w) (t : Host.ValueTerm) :
    Balances w (hostValue t) (hostValue t) fun u v => v = w ∧ u.Within w.host.types := by
  refine .engine (balances_need balanced _ fun u found => ?_)
  cases t with
  | literal v =>
    cases found
    exact v.within_toValue
  | object name =>
    obtain ⟨ref, there, rfl⟩ := Option.map_eq_some_iff.1 found
    exact balanced.within_name there

theorem balances_hostValues (balanced : Balanced [] w) (terms : List Host.ValueTerm) :
    Balances w (terms.mapM hostValue) (terms.mapM hostValue)
      fun us v => v = w ∧ AllWithin w.host.types us :=
  .reads fun t _ => balances_hostValue balanced t

theorem balances_overload (balanced : Balanced [] w) (type : TypeId) (name : String)
    (position : Nat) :
    Balances w (overload type name position) (overload type name position)
      fun _ v => v = w ∧ True := by
  refine .domain ?_
  exact Balances.look (R := fun _ => True) (balances_need balanced _ fun _ _ => trivial)
    fun _ _ => balances_need balanced _ fun _ _ => trivial

/-! ## Outcomes -/

/-- What a step gives is at hand. -/
def Gives (o : Outcome) (v : World Engine) : Prop :=
  Balanced o.values v

theorem balances_answer (balanced : Balanced [] w) (r : Report) :
    Balances w (answer r) (answer r) Gives :=
  .pure balanced

theorem balances_single {x : Value} (balanced : Balanced [x] w) :
    Balances w (single x) (single x) Gives :=
  .script (.pure balanced)

theorem balances_several {values : List Value} (balanced : Balanced values w) :
    Balances w (several values) (several values) Gives :=
  .script (.pure balanced)

theorem balances_topOutcome (balanced : Balanced [] w) :
    Balances w topOutcome topOutcome Gives :=
  .script (.pure balanced)

theorem balances_nameObject (balanced : Balanced [] w) (name : String) {ref : ObjectRef}
    (known : (Host.Value.object ref).Within w.host.types) :
    Balances w (nameObject name ref) (nameObject name ref) fun _ => Balanced [] := by
  refine .last rfl ⟨rfl, .refl, fun later => later.congr rfl rfl rfl⟩ ?_
  refine balanced.rename fun entry member => ?_
  rcases List.mem_cons.1 member with rfl | member
  · exact known
  · exact balanced.names entry (List.mem_filter.1 member).1

theorem balances_nameValue (balanced : Balanced [] w) (name : Option String) {u : Host.Value}
    (known : u.Within w.host.types) :
    Balances w (nameValue name u) (nameValue name u) fun _ => Balanced [] := by
  unfold nameValue
  split
  · rename_i ref same
    refine balances_nameObject balanced _ ?_
    cases u <;> cases same
    exact known
  · exact .pure balanced

theorem balances_hostReport (w : World Engine) (u : Host.Value) :
    Balances w (hostReport u) (hostReport u) fun _ v => v = w ∧ True :=
  .get (.pure ⟨rfl, trivial⟩)

theorem balances_hostReports (w : World Engine) (us : List Host.Value) :
    Balances w (us.mapM hostReport) (us.mapM hostReport) fun _ v => v = w ∧ True :=
  Balances.weaken (.reads (P := fun _ => True) fun u _ => balances_hostReport w u)
    fun _ _ _ ⟨same, _⟩ => ⟨same, trivial⟩

/-! ## Variables -/

/-- Variables take what a step gives, and what they held before goes. -/
theorem yields_bindAll (names : List String) {values : List Value} (balanced : Balanced values w) :
    Yields w (bindAll names values) fun _ => Balanced [] := by
  induction names generalizing values w with
  | nil => exact .discarded balanced
  | cons name rest ih =>
    have ready : Balanced (values.headD .nil :: values.tail) w := by
      cases values with
      | nil => exact Sound.adopt balanced fun _ => .inr trivial
      | cons x others => exact balanced
    refine .after (a := w.outer) rfl (.refl w) ?_
    refine .after (a := ()) rfl ⟨rfl, .refl, fun later => later.congr rfl rfl rfl⟩ ?_
    exact (Yields.discarded (ready.insertBinding name)).bind fun _ v _ given => ih given

theorem balances_bindAll (names : List String) {values : List Value}
    (balanced : Balanced values w) :
    Balances w (bindAll names values) (bindAll names values) fun _ => Balanced [] :=
  (yields_bindAll names balanced).balances

theorem balances_setGlobal (name : String) {x : Value} (balanced : Balanced [x] w) :
    Balances w (setGlobal name x : Run ε Unit) (setGlobal name x) fun _ => Balanced [] :=
  .script (.afterScript (.discarded [] (balanced.insertGlobal name)))

theorem balances_forgetVariable (balanced : Balanced [] w) (name : String) :
    Balances w (forgetVariable name) (forgetVariable name) fun _ => Balanced [] := by
  refine .engine (.after rfl ⟨rfl, .refl, fun later => later.congr rfl rfl rfl⟩ ?_)
  refine (Balances.discarded [] (balanced.eraseBinding name)).bind ?_
  exact fun _ _ _ given => .pure given

/-! ## The stack -/

theorem balances_popValue (balanced : Balanced [] w) :
    Balances w popValue popValue fun x => Balanced [x] := by
  refine .script ?_
  split
  · exact .pure (Sound.adopt balanced fun _ => .inr trivial)
  · refine Balances.bind (P := fun popped v => Balanced popped v ∧ popped.length ≤ 1)
      (.onScript ⟨balanced.takeFrom _, ?_⟩) ?_
    · simp only [Script.State.takeFrom, Array.length_toList, Array.size_extract]
      omega
    · rintro popped v - ⟨given, few⟩
      refine .pure ?_
      cases popped with
      | nil => exact Sound.adopt given fun _ => .inr trivial
      | cons x rest =>
        obtain rfl : rest = [] := List.length_eq_zero_iff.1 (Nat.le_zero.1 (Nat.le_of_succ_le_succ few))
        exact given

theorem balances_setTop (balanced : Balanced [] w) (count : Nat) :
    Balances w (setTop count) (setTop count) fun _ => Balanced [] := by
  refine .script ((balances_cutStack balanced _).bind fun _ v _ given => .modifyScript ?_)
  refine Balanced.pushAll (given.regain fun _ x member => .inr ?_)
  rw [List.append_nil] at member
  rw [List.eq_of_mem_replicate member]
  trivial

theorem balances_checkString (balanced : Balanced [] w) (index : Int) :
    Balances w (checkString index) (checkString index) fun _ => Balanced [] := by
  refine .script ?_
  split
  · exact .pure balanced
  · exact .failHere balanced _

/-! ## Behaviours and functions -/

/-- A behaviour that hands out no finalizer. -/
def OfFair (b : Script.Behaviour) : Prop :=
  ∀ part f, b.part part = some f → f.Fair

theorem balances_setParts (balanced : Balanced [] w) (parts : List (BehaviourPart × Term))
    {b : Script.Behaviour} (fair : w.outer.Regular → OfFair b) :
    Balances w
      (parts.foldlM (fun b (part, t) => do return b.setPart (← function t) part) b : StepRun _)
      (parts.foldlM (fun b (part, t) => do return b.setPart (← function t) part) b)
      fun b v => v = w ∧ (w.outer.Regular → OfFair b) := by
  induction parts generalizing b with
  | nil => exact .pure ⟨rfl, fair⟩
  | cons entry rest ih =>
    obtain ⟨part, t⟩ := entry
    rw [List.foldlM_cons]
    refine Balances.look (R := fun b => w.outer.Regular → OfFair b) ?_ fun b fair => ih fair
    refine (balances_function balanced t).look fun f isFair => .pure ⟨rfl, fun regular => ?_⟩
    intro other g found
    rw [Script.Behaviour.part_setPart] at found
    split at found
    · cases found
      exact isFair regular
    · exact fair regular other g found

theorem balances_makeBehaviour (balanced : Balanced [] w) (name : String)
    (parts : List (BehaviourPart × Term)) :
    Balances w (makeBehaviour name parts) (makeBehaviour name parts) fun _ => Balanced [] := by
  have empty : OfFair { name } := fun part f found => by
    cases part <;> cases found
  refine (balances_setParts balanced parts fun _ => empty).look fun b fair => .onScript ?_
  dsimp only [Script.State.addBehaviour]
  rw [Array.push_eq_append]
  refine Sound.refit balanced (fun _ _ => id) (balanced.furnished.append _) fun regular known => ?_
  refine known.push fun c member part _ f found => ?_
  rw [List.mem_singleton.1 (Array.mem_toList_iff.2 member)] at found
  exact fair regular part f found

/-- Something makes functions of scripts, and does nothing else. -/
def Makes (make : Script.State → Except Script.Error FunctionRef × Script.State) : Prop :=
  ∀ s, ∃ nextId, (make s).2 = { s with nextId } ∧
    ∀ f, (make s).1 = .ok f → ∃ steps, f.body = .block steps

theorem makes_loadPrototype (name : String) : Makes (·.loadPrototype name) := by
  intro s
  dsimp only
  unfold Script.State.loadPrototype
  split
  · refine ⟨s.nextId + 1, rfl, fun f made => ?_⟩
    cases made
    exact ⟨_, rfl⟩
  · exact ⟨s.nextId, rfl, nofun⟩

theorem makes_load (chunk : List UInt8) (name : String) : Makes (·.load chunk name) := by
  intro s
  dsimp only
  unfold Script.State.load
  split
  · exact makes_loadPrototype _ s
  · exact ⟨s.nextId, rfl, nofun⟩

theorem balances_madeFunction (balanced : Balanced [] w)
    {make : Script.State → Except Script.Error FunctionRef × Script.State} (makes : Makes make) :
    Balances w (madeFunction make) (madeFunction make) Gives := by
  obtain ⟨nextId, same, blocks⟩ := makes w.outer.script
  refine Balances.bind (P := fun f v => Balanced [] v ∧ f.Fair) (.mapError (.bind
    (P := fun made v => Balanced [] v ∧ ∀ f, made = .ok f → f.Fair) (.onScript ⟨?_, ?_⟩) ?_) _) ?_
  · rw [same]
    exact balanced.renumber nextId
  · intro f made
    obtain ⟨steps, block⟩ := blocks f made
    exact .of_block block
  · exact fun made v _ ⟨given, fair⟩ => .ofExcept given fun f made => ⟨given, fair f made⟩
  · exact fun f v _ ⟨given, fair⟩ => balances_single (given.withFunction fun _ => fair)

/-- A note that something went past the bridge. -/
theorem balances_bypassed (balanced : Balanced [] w) :
    Balances w (note .bypassed : Run ε Unit) (note .bypassed)
      fun _ v => Balanced [] v ∧ ¬ v.outer.Regular := by
  have irregular : ¬ Engine.Regular { w.outer with ledger := .bypassed :: w.outer.ledger } :=
    fun later => later.owned List.mem_cons_self
  refine .last rfl (.note w .bypassed) ⟨?_, irregular⟩
  exact ⟨balanced.typed, balanced.names, balanced.entries, balanced.globals, balanced.bindings,
    balanced.classes, balanced.furnished, fun later => (irregular later).elim⟩

theorem balances_noteHandedOut (balanced : Balanced [] w) (part : BehaviourPart) :
    Balances w (noteHandedOut part) (noteHandedOut part)
      fun _ v => Balanced [] v ∧ (v.outer.Regular → part ≠ .gc) := by
  unfold noteHandedOut
  split
  · exact (balances_bypassed balanced).weaken fun _ _ _ ⟨given, irregular⟩ =>
      ⟨given, fun regular => (irregular regular).elim⟩
  · rename_i other
    exact .pure ⟨balanced, fun _ => other⟩

/-! ## Actions -/

variable (agrees : Agrees run run')
include agrees

theorem balances_performStack (balanced : Balanced [] w) (a : Script.StackAction) :
    Balances w (performStack run a) (performStack run' a) Gives := by
  cases a with
  | bind t =>
    exact (balances_value balanced t).look fun x had => balances_single (had.adopt balanced)
  | forget name =>
    exact (balances_forgetVariable balanced name).bind fun _ _ _ given => balances_answer given _
  | same a b =>
    refine (balances_value balanced a).look fun _ _ => ?_
    refine (balances_value balanced b).look fun _ _ => ?_
    exact balances_answer balanced _
  | debug t | inspect t =>
    exact (balances_value balanced t).look fun _ _ => balances_answer balanced _
  | push t =>
    refine (balances_value balanced t).look fun x had => ?_
    exact .afterScript (balances_topOutcome (had.adopt balanced).push)
  | pop count =>
    exact .script ((balances_truncate balanced _).bind fun _ _ _ given => balances_topOutcome given)
  | popValue => exact (balances_popValue balanced).bind fun _ _ _ given => balances_single given
  | setTop count =>
    exact (balances_setTop balanced count).bind fun _ _ _ given => balances_topOutcome given
  | truncate depth =>
    exact (balances_truncate balanced depth).bind fun _ _ _ given =>
      .script (balances_answer given _)
  | top | kindAt | traceback | pendingFinalizers | debugStack =>
    exact .script (balances_answer balanced _)
  | valueAt i => exact .script (balances_single ((had_valueAt w i).adopt balanced))
  | frame =>
    refine .script (balances_several (balanced.regain fun _ x member => .inl ?_))
    exact Engine.mem_values_of_stack (Script.State.mem_stack_of_mem_frameValues member)
  | checkString i =>
    exact ((balances_checkString balanced i).mapError _).bind fun _ _ _ given =>
      balances_answer given _
  | setGlobal name t =>
    refine (balances_value balanced t).look fun x had => ?_
    exact (balances_setGlobal name (had.adopt balanced)).bind fun _ _ _ given =>
      balances_answer given _
  | getGlobal name => exact .script (balances_single ((had_global w name).adopt balanced))
  | call arguments wanted =>
    exact ((balances_call agrees balanced arguments wanted).mapError _).bind
      fun _ _ _ ⟨given, _⟩ => balances_topOutcome given
  | protectedCall arguments wanted =>
    exact ((balances_protectedCall agrees balanced arguments wanted).mapError _).bind
      fun _ _ _ ⟨given, _⟩ => balances_topOutcome given
  | callFunction t arguments wanted =>
    refine (balances_function balanced t).look fun f fair => ?_
    refine (balances_values balanced arguments).look fun arguments had => ?_
    have ready : Balanced (.function f :: arguments) (keeping arguments w) :=
      ((Had.keep had balanced).held fun _ => id).withFunction fun regular =>
        fair (regular.congr rfl rfl rfl)
    refine Balances.bind (P := Balanced) (.holds id ?_) fun _ _ _ given =>
      balances_several given
    exact ((balances_callFunction agrees ready wanted).mapError _).weaken fun _ _ _ => And.left
  | callValue t arguments =>
    refine (balances_value balanced t).look fun callee hadCallee => ?_
    refine (balances_values balanced arguments).look fun arguments had => ?_
    refine Balances.bind (P := Balanced) (.holds id ?_) fun _ _ _ given =>
      balances_several given
    refine (balances_callValue agrees ((Had.keep ?_ balanced).held fun x member => ?_)).mapError _
    · exact List.forall_mem_append.2 ⟨had, List.forall_mem_singleton.2 hadCallee⟩
    · simpa [or_comm] using member
  | method t name arguments =>
    refine (balances_value balanced t).look fun target hadTarget => ?_
    refine (balances_values balanced arguments).look fun arguments had => ?_
    refine Balances.bind (P := Balanced) (.holds id ?_) fun _ _ _ given =>
      balances_several given
    refine (balances_callMethod agrees (Had.keep ?_ balanced) (fun x member => ?_) name).mapError _
    · exact List.forall_mem_append.2 ⟨had, List.forall_mem_singleton.2 hadTarget⟩
    · refine List.mem_append_left _ ?_
      simpa [or_comm] using member
  | index t key =>
    refine (balances_value balanced t).look fun target hadTarget => ?_
    refine (balances_value balanced key).look fun key hadKey => ?_
    have kept : Balanced [] (keeping [key, target] w) :=
      Had.keep (by simp [hadTarget, hadKey]) balanced
    refine Balances.bind (P := fun x => Balanced [x]) (.holds (fun x => [x]) ?_)
      fun _ _ _ given => balances_single given
    exact (balances_index agrees kept (kept.held (by simp))).mapError _
  | setIndex t key x =>
    refine (balances_value balanced t).look fun target hadTarget => ?_
    refine (balances_value balanced key).look fun key hadKey => ?_
    refine (balances_value balanced x).look fun x had => ?_
    have kept : Balanced [] (keeping [x, key, target] w) :=
      Had.keep (by simp [hadTarget, hadKey, had]) balanced
    refine Balances.bind (P := fun _ => Balanced []) (.holds (fun _ => []) ?_)
      fun _ _ _ given => balances_answer given _
    exact (balances_setIndex agrees kept (kept.held (by simp))).mapError _
  | display t =>
    refine (balances_value balanced t).look fun x had => ?_
    have kept : Balanced [] (keeping [x] w) := Had.keep (by simpa using had) balanced
    refine Balances.bind (P := fun _ => Balanced []) (.holds (fun _ => []) ?_)
      fun _ _ _ given => balances_answer given _
    exact (balances_display agrees kept (kept.held (by simp))).mapError _
  | error message => exact (Balances.failHere balanced message).mapError _
  | raise message => exact .fail balanced _
  | panic message => exact .breakOff balanced message
  | collect =>
    exact ((balances_collect agrees balanced _ _).mapError _).bind fun _ _ _ given =>
      balances_answer given _
  | behaviour name parts =>
    exact (balances_makeBehaviour balanced name parts).bind fun _ _ _ given =>
      balances_answer given _
  | behaviourPart key part =>
    refine (balances_noteHandedOut balanced part).bind fun _ v _ ⟨given, other⟩ => ?_
    refine .script (balances_single (Sound.adopt given fun regular => .inr ?_))
    cases found : (v.outer.script.behaviours[key]?).bind (·.part part) with
    | none => trivial
    | some f =>
      obtain ⟨b, there, found⟩ := Option.bind_eq_some_iff.1 found
      exact (given.custody regular).fair.parts b (Array.mem_of_getElem? there) part (other regular)
        f found
  | wrapper slot key =>
    refine (balances_bypassed balanced).bind fun _ v _ ⟨given, irregular⟩ => ?_
    refine Balances.bind (P := fun x => Balanced [x]) (.onScript ?_) fun _ _ _ made =>
      balances_single made
    exact Sound.irregular (given.renumber _) fun later => irregular (later.congr rfl rfl rfl)
  | loadPrototype name => exact balances_madeFunction balanced (makes_loadPrototype name)
  | load chunk name => exact balances_madeFunction balanced (makes_load _ name)
  | dump t =>
    refine (balances_function balanced t).look fun f _ => ?_
    refine Balances.bind (P := fun _ => Balanced []) (.mapError (.ofExcept balanced ?_) _)
      fun _ _ _ given => balances_answer given _
    exact fun _ _ => balanced

end Session

end ScriptHost
