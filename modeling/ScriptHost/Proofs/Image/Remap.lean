import ScriptHost.Proofs.Image.Prologue
import ScriptHost.Proofs.Image.SafeRuns
/-!
Mapping the tokens of an injected body. It is the same to inject a method and to map the tokens, and
to inject the method with mapped tokens.
-/
namespace ScriptHost.Image

open Host
open Results (bind_eq_ok)

variable {image : Image} {first : UInt32}

/-- Where tokens go; a token that is not of the image stays. -/
def tokenMap (image : Image) (first : UInt32) (t : MethodToken) : MethodToken :=
  (image.mappedToken? first t).getD t

/-- A body with other tokens. -/
def mapBody (f : MethodToken → MethodToken) (body : Body) : Body :=
  { body with code := body.code.map (Instr.mapToken f) }

theorem mapToken_of_none {instr : Instr} (f : MethodToken → MethodToken)
    (none : instr.token? = none) : instr.mapToken f = instr := by
  cases instr <;> first | rfl | cases none

theorem mapToken_congr {instr : Instr} {t : MethodToken} {f g : MethodToken → MethodToken}
    (names : instr.token? = some t) (same : f t = g t) : instr.mapToken f = instr.mapToken g := by
  cases instr <;> cases names <;> exact congrArg _ same

theorem remapInstr_eq_ok_iff {instr moved : Instr} :
    image.remapInstr first instr = .ok moved ↔
      (∀ t, instr.token? = some t → (image.mappedToken? first t).isSome) ∧
        moved = instr.mapToken (tokenMap image first) := by
  unfold remapInstr
  cases names : instr.token? with
  | none =>
    rw [mapToken_of_none _ names]
    constructor
    · intro ok
      cases ok
      exact ⟨fun _ isSome => (nomatch isSome), rfl⟩
    · rintro ⟨-, rfl⟩
      rfl
  | some t =>
    cases mapsTo : image.mappedToken? first t with
    | none =>
      simp only [mapsTo]
      refine ⟨fun ok => (nomatch ok), fun known => ?_⟩
      have isSome := known.1 t rfl
      rw [mapsTo] at isSome
      cases isSome
    | some mapped =>
      have same : instr.mapToken (fun _ => mapped) = instr.mapToken (tokenMap image first) :=
        mapToken_congr names (by simp [tokenMap, mapsTo])
      simp only [mapsTo, same]
      constructor
      · intro ok
        cases ok
        refine ⟨fun t' named => ?_, rfl⟩
        cases named
        rw [mapsTo]
        rfl
      · rintro ⟨-, rfl⟩
        rfl

/-- A list is mapped if each of its elements is. -/
theorem mapM_remapInstr {code moved : List Instr} :
    code.mapM (image.remapInstr first) = .ok moved ↔
      (∀ instr ∈ code, ∀ t, instr.token? = some t → (image.mappedToken? first t).isSome) ∧
        moved = code.map (Instr.mapToken (tokenMap image first)) := by
  induction code generalizing moved with
  | nil =>
    exact ⟨fun ok => ⟨fun _ member => (List.not_mem_nil member).elim, (Except.ok.inj ok).symm⟩,
      fun ⟨_, same⟩ => congrArg Except.ok same.symm⟩
  | cons instr rest ih =>
    rw [List.mapM_cons]
    constructor
    · intro mapped
      obtain ⟨head, headOk, mapped⟩ := bind_eq_ok.1 mapped
      obtain ⟨tail, tailOk, mapped⟩ := bind_eq_ok.1 mapped
      cases mapped
      obtain ⟨known, rfl⟩ := remapInstr_eq_ok_iff.1 headOk
      obtain ⟨others, rfl⟩ := ih.1 tailOk
      exact ⟨List.forall_mem_cons.2 ⟨known, others⟩, rfl⟩
    · rintro ⟨known, rfl⟩
      obtain ⟨headKnown, others⟩ := List.forall_mem_cons.1 known
      rw [remapInstr_eq_ok_iff.2 ⟨headKnown, rfl⟩, ih.2 ⟨others, rfl⟩]
      rfl

/-- Mapping tokens succeeds if they are all of the image. -/
theorem remapBody_eq_ok_iff {body moved : Body} :
    image.remapBody first body = .ok moved ↔
      (∀ instr ∈ body.code, ∀ t, instr.token? = some t → (image.mappedToken? first t).isSome) ∧
        moved = mapBody (tokenMap image first) body := by
  unfold remapBody mapBody
  constructor
  · intro mapped
    obtain ⟨code, codeOk, mapped⟩ := bind_eq_ok.1 mapped
    cases mapped
    obtain ⟨known, rfl⟩ := mapM_remapInstr.1 codeOk
    refine ⟨fun instr member => known instr (Array.mem_toList_iff.2 member), ?_⟩
    congr 1
    exact Array.toList_inj.1 (by simp)
  · rintro ⟨known, rfl⟩
    rw [mapM_remapInstr.2 ⟨fun instr member => known instr (Array.mem_toList_iff.1 member), rfl⟩]
    simp only [bind, Except.bind, pure, Except.pure]
    congr 2
    exact Array.toList_inj.1 (by simp)

/-! ## Tokens in a prologue -/

/-- A method with mapped tokens. -/
def mapMethod (f : MethodToken → MethodToken) (m : MethodDef) (own : Body) : MethodDef :=
  { m with token := f m.token, body := some (mapBody f own) }

variable {f : MethodToken → MethodToken} {m : MethodDef} {hub : MethodToken} {own : Body}

theorem map_storeArgs (carrier : UInt16) (indices : List Nat) :
    (storeArgs carrier indices).map (Instr.mapToken f) = storeArgs carrier indices := by
  unfold storeArgs
  rw [List.map_flatMap]
  rfl

theorem map_loadArgs (carrier : UInt16) (indices : List Nat) :
    (loadArgs carrier indices).map (Instr.mapToken f) = loadArgs carrier indices := by
  unfold loadArgs
  rw [List.map_flatMap]
  rfl

theorem map_front :
    (front m hub own).map (Instr.mapToken f) = front (mapMethod f m own) (f hub) (mapBody f own) := by
  have receiver : Instr.mapToken f (if m.kind = .static then .ldNull else .ldThis) =
      if m.kind = .static then .ldNull else .ldThis := by
    split <;> rfl
  simp only [front, question, List.map_append, List.map_cons, List.map_nil, map_storeArgs, receiver]
  rfl

theorem map_back :
    (back m own).map (Instr.mapToken f) = back (mapMethod f m own) (mapBody f own) := by
  simp only [back, patchedReturn, List.map_append, List.map_cons, List.map_nil, map_loadArgs]
  unfold resultSlot
  cases wanted : m.returnsValue with
  | false =>
    have wanted' : (mapMethod f m own).returnsValue = false := wanted
    rw [wanted']
    rfl
  | true =>
    have wanted' : (mapMethod f m own).returnsValue = true := wanted
    rw [wanted']
    rfl

theorem ownMark_map :
    ownMark (mapMethod f m own) (f hub) (mapBody f own) = ownMark m hub own := by
  unfold ownMark
  rw [← map_front, ← map_back, List.length_map, List.length_map]

theorem map_prologue :
    (prologue m hub own).map (Instr.mapToken f) =
      prologue (mapMethod f m own) (f hub) (mapBody f own) := by
  simp only [prologue, List.map_append, List.map_cons, List.map_nil, map_front, map_back,
    ownMark_map]
  rfl

theorem mapTarget_mapToken (g : UInt32 → UInt32) (instr : Instr) :
    (instr.mapTarget g).mapToken f = (instr.mapToken f).mapTarget g := by
  cases instr <;> rfl

theorem movable_mapToken (n : UInt32) (instr : Instr) :
    movable n (instr.mapToken f) = movable n instr := by
  cases instr <;> rfl

theorem token?_mapTarget (g : UInt32 → UInt32) (instr : Instr) :
    (instr.mapTarget g).token? = instr.token? := by
  cases instr <;> rfl

/-- An injected body with mapped tokens is the injected body of the method with mapped tokens. -/
theorem Injected.map {injected : Body} (shape : Injected m hub own injected) :
    Injected (mapMethod f m own) (f hub) (mapBody f own) (mapBody f injected) := by
  refine ⟨rfl, shape.locals, shape.room, shape.params, ?_, ?_⟩
  · have same : shift (mapMethod f m own) (f hub) (mapBody f own) = shift m hub own := by
      unfold shift
      rw [ownMark_map]
    rw [same]
    simpa [mapBody, Array.all_map, Function.comp_def, movable_mapToken] using shape.movable
  · have same : shift (mapMethod f m own) (f hub) (mapBody f own) = shift m hub own := by
      unfold shift
      rw [ownMark_map]
    rw [same, ← map_prologue]
    simp only [mapBody, shape.code, Array.map_append, Array.map_map, List.map_toArray]
    congr 2
    funext instr
    exact mapTarget_mapToken _ instr

theorem tokenMap_eq {t : MethodToken} (known : (image.mappedToken? first t).isSome) :
    image.mappedToken? first t = some (tokenMap image first t) := by
  obtain ⟨mapped, mapsTo⟩ := Option.isSome_iff_exists.1 known
  unfold tokenMap
  rw [mapsTo]
  rfl

theorem mem_of_front {instr : Instr} {injected : Body} (shape : Injected m hub own injected)
    (member : instr ∈ front m hub own) : instr ∈ injected.code := by
  rw [shape.code]
  simp [prologue, member]

/-- The tokens of an injected body are those of the method, of the hub, and of the own code. -/
theorem Injected.known {injected moved : Body} (shape : Injected m hub own injected)
    (remapped : image.remapBody first injected = .ok moved) :
    image.mappedToken? first m.token = some (tokenMap image first m.token) ∧
      image.mappedToken? first hub = some (tokenMap image first hub) ∧
      image.remapBody first own = .ok (mapBody (tokenMap image first) own) := by
  obtain ⟨known, _⟩ := remapBody_eq_ok_iff.1 remapped
  refine ⟨tokenMap_eq (known (.ldToken m.token) (mem_of_front shape ?_) _ rfl),
    tokenMap_eq (known (.call hub) (mem_of_front shape ?_) _ rfl),
    remapBody_eq_ok_iff.2 ⟨fun instr member t names => ?_, rfl⟩⟩
  · simp [front, question]
  · simp [front, question]
  · refine known (instr.mapTarget (· + Image.shift m hub own)) ?_ t ?_
    · rw [shape.code]
      exact Array.mem_append_right _ (Array.mem_map_of_mem member)
    · rw [token?_mapTarget]
      exact names

end ScriptHost.Image
