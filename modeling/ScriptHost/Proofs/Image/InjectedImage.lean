import ScriptHost.Proofs.Image.Injectable
/-!
Injected images. Injection changes the bodies and marks of patchable methods and nothing else, what
it makes passes the check and is taken in wherever the image is, and it is not done twice.
-/
namespace ScriptHost.Image

open Host
open Results (eq_of_map_eq exists_mapM exists_of_mapM_error forall₂_of_mapM forM_eq_ok map_eq_ok
  mapError_eq_ok mem_of_mapM)
open List (Forall₂)

variable {image after : Image} {m m' : MethodDef} {hub : MethodToken} {own injected : Body}
  {first : UInt32} {report : InjectReport}

/-! ## Method by method -/

/-- Injecting a method of an image. One that is not patchable stays as it is. -/
def turn (image : Image) (hub : MethodToken) (m : MethodDef) : Except InjectError MethodDef :=
  if m.attrs.patchable then image.injectMethod hub m else pure m

/-- What the report of an injection says. -/
def reportFor (image : Image) (hub : MethodDef) : InjectReport :=
  ⟨hub.signature, (image.methods.filter (·.attrs.patchable)).map (·.signature)⟩

theorem turn_of_unpatchable (unpatchable : m.attrs.patchable = false) :
    image.turn hub m = .ok m := by
  unfold turn
  rw [unpatchable]
  rfl

theorem turn_of_patchable (patchable : m.attrs.patchable = true) :
    image.turn hub m = image.injectMethod hub m :=
  if_pos patchable

/-- A checked image with one hub is injected method by method. -/
theorem inject_of_hub {hub : MethodDef} (verified : image.verify = .ok ())
    (only : image.hubs = [hub]) :
    image.inject = (image.methods.mapM (image.turn hub.token)).map fun methods =>
      ({ image with methods }, image.reportFor hub) := by
  unfold inject
  rw [verified, only]
  change Except.bind (image.methods.mapM (image.turn hub.token)) _ = _
  cases image.methods.mapM (image.turn hub.token) <;> rfl

/-- Only a checked image with one hub can be injected. -/
theorem hub_of_inject (result : image.inject = .ok (after, report)) :
    image.verify = .ok () ∧ ∃ hub, image.hubs = [hub] := by
  obtain ⟨verified, hub, _, only, _⟩ := inject_eq_ok result
  exact ⟨verified, hub, only⟩

/-- What injection does, method by method. -/
theorem turns_of_inject (result : image.inject = .ok (after, report)) :
    image.verify = .ok () ∧ ∃ hub, image.hubs = [hub] ∧ report = image.reportFor hub ∧
      after.name = image.name ∧ after.types = image.types ∧
      image.methods.mapM (image.turn hub.token) = .ok after.methods := by
  obtain ⟨verified, hub, only⟩ := hub_of_inject result
  rw [inject_of_hub verified only] at result
  obtain ⟨methods, mapped, same⟩ := map_eq_ok.1 result
  cases same
  exact ⟨verified, hub, only, rfl, rfl, rfl, mapped⟩

/-- What a method becomes differs from it in its body and its mark at most. -/
theorem strip_of_turn (result : image.turn hub m = .ok m') : m'.strip = m.strip := by
  by_cases patchable : m.attrs.patchable = true
  · rw [turn_of_patchable patchable] at result
    obtain ⟨_, _, gained⟩ := gains_of_injectMethod result
    rw [gained.result]
    rfl
  · rw [turn_of_unpatchable (eq_false_of_ne_true patchable)] at result
    cases result
    rfl

/-- An injected image declares what the image declares. -/
theorem strip_of_inject (result : image.inject = .ok (after, report)) :
    after.strip = image.strip := by
  obtain ⟨_, hub, _, _, name, types, mapped⟩ := turns_of_inject result
  exact strip_eq_of_forall₂ name types ((forall₂_of_mapM mapped).imp fun _ _ => strip_of_turn)

/-! ## The check of an injected image -/

/-- What a method of a checked image becomes is as sound as the method. -/
theorem sound_of_turn {hub : MethodDef} (verified : image.verify = .ok ())
    (isHub : hub ∈ image.hubs) (member : m ∈ image.methods)
    (result : image.turn hub.token m = .ok m') :
    (m'.attrs.injected = true → m'.body.isSome = true) ∧ image.checkBody m' = .ok () := by
  by_cases patchable : m.attrs.patchable = true
  · rw [turn_of_patchable patchable] at result
    obtain ⟨own, injected, gained⟩ := gains_of_injectMethod result
    have sound := verify_injected verified member (callEffect?_hub verified isHub) gained.shape
    rw [gained.result]
    exact ⟨fun _ => rfl, mapError_eq_ok.2 sound⟩
  · rw [turn_of_unpatchable (eq_false_of_ne_true patchable)] at result
    cases result
    obtain ⟨_, _, bodies⟩ := verify_eq_ok_iff.1 verified
    exact ⟨(declared_of_verify verified member).hasBody, forM_eq_ok.1 bodies m member⟩

/-- An injected image passes the check. -/
theorem verify_of_inject (result : image.inject = .ok (after, report)) : after.verify = .ok () := by
  obtain ⟨verified, hub, only, _, _, _, mapped⟩ := turns_of_inject result
  obtain ⟨_, back⟩ := mem_of_mapM mapped
  have isHub : hub ∈ image.hubs := by
    rw [only]
    exact List.mem_singleton_self hub
  have sound : ∀ m' ∈ after.methods,
      (m'.attrs.injected = true → m'.body.isSome = true) ∧ image.checkBody m' = .ok () := by
    intro m' member
    obtain ⟨m, inImage, turned⟩ := back m' member
    exact sound_of_turn verified isHub inImage turned
  exact verify_of_strip (strip_of_inject result) verified (fun m' member => (sound m' member).1)
    fun m' member => (sound m' member).2

/-! ## Loading an injected image -/

/-- A prologue names its method and its hub only. -/
theorem token?_prologue {instr : Instr} {t : MethodToken} (member : instr ∈ prologue m hub own)
    (names : instr.token? = some t) : t = m.token ∨ t = hub := by
  have ofPlain : ∀ other : Instr, other.token? = none → other.branchTarget? = none →
      (∀ x, other ≠ .ldFloat x) → ∀ t, other.token? = some t → t = m.token ∨ t = hub := by
    intro other none _ _ t names
    rw [none] at names
    cases names
  rcases List.mem_append.1 member with inside | mark
  · rcases List.mem_append.1 inside with asking | inBack
    · rcases List.mem_append.1 asking with inFront | branch
      · refine Injected.forall_front (P := fun other => ∀ t, other.token? = some t →
          t = m.token ∨ t = hub) ?_ ?_ ofPlain instr inFront t names
        · rintro t ⟨⟩
          exact .inl rfl
        · rintro t ⟨⟩
          exact .inr rfl
      · rw [List.mem_singleton.1 branch] at names
        cases names
    · exact Injected.forall_back ofPlain instr inBack t names
  · rw [List.mem_singleton.1 mark] at names
    cases names

/-- The tokens of the methods of an image can be mapped. -/
theorem isSome_mappedToken? (first : UInt32) (member : m ∈ image.methods) :
    (image.mappedToken? first m.token).isSome = true := by
  unfold mappedToken?
  rw [Option.isSome_map, List.findIdx?_isSome, List.any_eq_true]
  exact ⟨m, member, beq_self_eq_true _⟩

theorem tokensFound_some (image : Image) (first : UInt32) (body : Body) :
    image.tokensFound first (some body) =
      (body.code.toList.mapM (image.remapInstr first)).map fun _ => () := by
  unfold tokensFound remapBody
  rw [Option.elim_some]
  cases body.code.toList.mapM (image.remapInstr first) <;> rfl

theorem remapInstr_mapTarget (g : UInt32 → UInt32) (instr : Instr) :
    (image.remapInstr first (instr.mapTarget g)).map (fun _ => ()) =
      (image.remapInstr first instr).map fun _ => () := by
  unfold remapInstr
  rw [token?_mapTarget]
  cases instr.token? with
  | none => rfl
  | some t =>
    dsimp only
    cases image.mappedToken? first t <;> rfl

/-- The tokens of an injected body are found if those of the own body are. -/
theorem tokensFound_injected (shape : Injected m hub own injected)
    (known : (image.mappedToken? first m.token).isSome = true)
    (hubKnown : (image.mappedToken? first hub).isSome = true) :
    image.tokensFound first (some injected) = image.tokensFound first (some own) := by
  have before : (prologue m hub own).mapM (image.remapInstr first) =
      .ok ((prologue m hub own).map (Instr.mapToken (tokenMap image first))) := by
    refine mapM_remapInstr.2 ⟨fun instr member t names => ?_, rfl⟩
    rcases token?_prologue member names with rfl | rfl
    · exact known
    · exact hubKnown
  have behind : ((own.code.toList.map (Instr.mapTarget (· + Image.shift m hub own))).mapM
        (image.remapInstr first)).map (List.map fun _ => ()) =
      (own.code.toList.mapM (image.remapInstr first)).map (List.map fun _ => ()) := by
    refine mapM_congr (List.forall₂_map_left_iff.2 (List.forall₂_same.2 fun instr _ => ?_))
    exact remapInstr_mapTarget _ instr
  rw [tokensFound_some, tokensFound_some, shape.code, Array.toList_append, Array.toList_map,
    List.mapM_append, before]
  obtain ⟨e, left, right⟩ | ⟨moved, mapped, left, right, _⟩ := eq_of_map_eq behind
  · rw [left, right]
    rfl
  · rw [left, right]
    rfl

/-- What a method becomes is declared as the method is. -/
theorem matches_of_turn {hub : MethodDef} (isHub : hub ∈ image.hubs) (member : m ∈ image.methods)
    (result : image.turn hub.token m = .ok m') (first : UInt32) : Matches image first m m' := by
  refine ⟨strip_of_turn result, fun _ => ?_⟩
  by_cases patchable : m.attrs.patchable = true
  · rw [turn_of_patchable patchable] at result
    obtain ⟨own, injected, gained⟩ := gains_of_injectMethod result
    have inImage : hub ∈ image.methods := List.mem_of_mem_filter isHub
    rw [gained.result, gained.shape.body]
    exact tokensFound_injected gained.shape (isSome_mappedToken? first member)
      (isSome_mappedToken? first inImage)
  · rw [turn_of_unpatchable (eq_false_of_ne_true patchable)] at result
    cases result
    rfl

/-- Hosts take in an injected image as they take in the image itself. -/
theorem load_of_inject (result : image.inject = .ok (after, report)) (s : State) :
    (after.load s).1 = (image.load s).1 ∧ (after.load s).2.strip = (image.load s).2.strip := by
  obtain ⟨verified, hub, only, _, _, _, mapped⟩ := turns_of_inject result
  have isHub : hub ∈ image.hubs := by
    rw [only]
    exact List.mem_singleton_self hub
  refine load_congr (fun first => ?_) (strip_of_inject result) verified (verify_of_inject result) s
  refine ((List.forall₂_and_left _ _).2 ⟨fun m member => member, forall₂_of_mapM mapped⟩).imp ?_
  exact fun m m' ⟨member, turned⟩ => matches_of_turn isHub member turned first

/-! ## When injection succeeds -/

/-- An image can be injected exactly if it passes the check, has one hub, and each of its patchable
methods has room for a prologue and holds none yet. -/
theorem exists_inject_iff (relocatable : image.Relocatable) :
    (∃ after report, image.inject = .ok (after, report)) ↔
      image.verify = .ok () ∧ image.hubs.length = 1 ∧
        ∀ m ∈ image.methods, m.attrs.patchable = true → ∃ own, TakesPrologue m own := by
  constructor
  · rintro ⟨after, report, result⟩
    obtain ⟨verified, hub, only, _, _, _, mapped⟩ := turns_of_inject result
    refine ⟨verified, by rw [only]; rfl, fun m member patchable => ?_⟩
    obtain ⟨m', _, turned⟩ := (mem_of_mapM mapped).1 m member
    rw [turn_of_patchable patchable] at turned
    exact takesPrologue_of_injectMethod turned
  · rintro ⟨verified, one, room⟩
    obtain ⟨hub, only⟩ := List.length_eq_one_iff.1 one
    have isHub : hub ∈ image.hubs := by
      rw [only]
      exact List.mem_singleton_self hub
    obtain ⟨methods, mapped⟩ : ∃ methods, image.methods.mapM (image.turn hub.token) = .ok methods := by
      refine exists_mapM fun m member => ?_
      by_cases patchable : m.attrs.patchable = true
      · obtain ⟨own, takes⟩ := room m member patchable
        rw [turn_of_patchable patchable]
        exact exists_injectMethod verified member (callEffect?_hub verified isHub) takes
          (relocatable hub isHub m member patchable own takes.body)
      · exact ⟨m, turn_of_unpatchable (eq_false_of_ne_true patchable)⟩
    rw [inject_of_hub verified only, mapped]
    exact ⟨_, _, rfl⟩

/-- Injection never refuses an image for a body that it made itself. -/
theorem inject_ne_verify (image : Image) (signature : String) (cause : VerifyError) :
    image.inject ≠ .error (.verify signature cause) := by
  intro failed
  cases verified : image.verify with
  | error e =>
    unfold inject at failed
    rw [verified] at failed
    cases failed
  | ok _ =>
    cases hubs : image.hubs with
    | nil =>
      unfold inject at failed
      rw [verified, hubs] at failed
      cases failed
    | cons hub rest =>
      cases rest with
      | cons second others =>
        unfold inject at failed
        rw [verified, hubs] at failed
        cases failed
      | nil =>
        have isHub : hub ∈ image.hubs := by
          rw [hubs]
          exact List.mem_singleton_self hub
        rw [inject_of_hub verified hubs] at failed
        cases mapped : image.methods.mapM (image.turn hub.token) with
        | ok methods =>
          rw [mapped] at failed
          cases failed
        | error e =>
          rw [mapped] at failed
          cases failed
          obtain ⟨m, member, turned⟩ := exists_of_mapM_error mapped
          by_cases patchable : m.attrs.patchable = true
          · rw [turn_of_patchable patchable] at turned
            exact injectMethod_ne_verify verified member (callEffect?_hub verified isHub) _ _ turned
          · rw [turn_of_unpatchable (eq_false_of_ne_true patchable)] at turned
            cases turned

/-- What becomes of the methods: the patchable ones get a body and a mark. -/
theorem methods_of_inject (result : image.inject = .ok (after, report)) :
    Forall₂ (fun m m' => m' = if m.attrs.patchable then
        { m with body := m'.body, attrs := { m.attrs with injected := true } } else m)
      image.methods after.methods := by
  obtain ⟨_, hub, _, _, _, _, mapped⟩ := turns_of_inject result
  refine (forall₂_of_mapM mapped).imp fun m m' turned => ?_
  by_cases patchable : m.attrs.patchable = true
  · rw [turn_of_patchable patchable] at turned
    obtain ⟨own, injected, gained⟩ := gains_of_injectMethod turned
    rw [if_pos patchable, gained.result]
  · rw [turn_of_unpatchable (eq_false_of_ne_true patchable)] at turned
    cases turned
    rw [if_neg patchable]

/-- Injection of an image whose branches can move. It succeeds exactly on a checked image with one
hub in which every patchable method has room for a prologue and holds none yet, and it never fails
for a body of its own. It changes nothing but the bodies and marks of the patchable methods, reports
these methods in their order, and leaves an image that passes the check and that every host answers
as it answers the image itself. -/
theorem inject_exactly (image : Image) (relocatable : image.Relocatable) :
    ((∃ after report, image.inject = .ok (after, report)) ↔
      image.verify = .ok () ∧ image.hubs.length = 1 ∧
        ∀ m ∈ image.methods, m.attrs.patchable = true → ∃ own, TakesPrologue m own) ∧
    (∀ signature cause, image.inject ≠ .error (.verify signature cause)) ∧
    ∀ after report, image.inject = .ok (after, report) →
      after.name = image.name ∧ after.types = image.types ∧
      Forall₂ (fun m m' => m' = if m.attrs.patchable then
          { m with body := m'.body, attrs := { m.attrs with injected := true } } else m)
        image.methods after.methods ∧
      report.injected = (image.methods.filter (·.attrs.patchable)).map (·.signature) ∧
      after.verify = .ok () ∧
      ∀ s : State, (after.load s).1 = (image.load s).1 := by
  refine ⟨exists_inject_iff relocatable, inject_ne_verify image, fun after report result => ?_⟩
  obtain ⟨_, hub, _, reported, name, types, _⟩ := turns_of_inject result
  exact ⟨name, types, methods_of_inject result, congrArg InjectReport.injected reported,
    verify_of_inject result, fun s => (load_of_inject result s).1⟩

/-! ## An image whose branches move -/

/-- Code that waits until its argument holds. -/
def patientBody : Body :=
  { code := #[.ldArg 0, .brFalse 0, .ldArg 0, .ret] }

/-- A type with a hub and a method that waits, which may be patched. -/
def patience : Image where
  name := "Patience"
  types := [{ name := "Door" }]
  methods := [
    { token := ⟨1⟩, declaring := "Door", name := "Ask", kind := .static, params := hubParams
      ret := .bool, attrs := { patchHub := true } },
    { token := ⟨2⟩, declaring := "Door", name := "Wait", kind := .static
      params := [⟨"open", .bool, .byRef⟩], ret := .bool, attrs := { patchable := true }
      body := some patientBody }]

theorem relocatable_patience : patience.Relocatable := by
  intro hub isHub m member patchable own body
  have isWait : m = patience.methods[1] := by
    rcases List.mem_cons.1 member with rfl | later
    · cases patchable
    · exact List.mem_singleton.1 later
  subst isWait
  cases body
  obtain rfl : hub = patience.methods[0] := by
    simpa [hubs, patience] using isHub
  with_unfolding_all decide

theorem inject_exactly_patience : patience.Relocatable ∧
    ∃ after report, patience.inject = .ok (after, report) ∧ after.verify = .ok () ∧
      (after.load {}).1 = .ok [⟨1⟩] := by
  have exactly := inject_exactly patience relocatable_patience
  have verified : patience.verify = .ok () := by
    cases result : patience.verify with
    | ok _ => rfl
    | error e =>
      have ok : patience.verify.isOk = true := by with_unfolding_all decide
      rw [result] at ok
      cases ok
  have room : ∀ m ∈ patience.methods, m.attrs.patchable = true → ∃ own, TakesPrologue m own := by
    intro m member patchable
    rcases List.mem_cons.1 member with rfl | later
    · cases patchable
    · rw [List.mem_singleton.1 later]
      exact ⟨patientBody, rfl, rfl, rfl, by simp [patientBody], by simp [patientBody],
        by decide, by decide⟩
  obtain ⟨after, report, injected⟩ := exactly.1.2 ⟨verified, rfl, room⟩
  obtain ⟨_, _, _, _, sound, loads⟩ := exactly.2.2 after report injected
  have loaded : (patience.load {}).1 = .ok [⟨1⟩] := by with_unfolding_all decide
  exact ⟨relocatable_patience, after, report, injected, sound, (loads {}).trans loaded⟩

end ScriptHost.Image
