import ScriptHost.Proofs.Image.InjectedImage
/-!
Injecting twice. A method that holds a prologue takes no second one, even where the mark of its
injection is gone.
-/
namespace ScriptHost.Image

open Host
open Results (exists_of_forall₂ forall₂_of_mapM forM_eq_ok)
open List (Forall₂)

variable {image after cleared : Image} {m m' : MethodDef} {hub : MethodToken}
  {report : InjectReport}

/-- The first elements of a kind correspond. -/
theorem find?_of_forall₂ {α β : Type} {R : α → β → Prop} {p : α → Bool} {q : β → Bool}
    {as : List α} {bs : List β} {a : α} (related : Forall₂ R as bs)
    (kind : ∀ a b, R a b → q b = p a) (first : as.find? p = some a) :
    ∃ b, bs.find? q = some b ∧ R a b := by
  induction related with
  | nil => cases first
  | @cons x y as bs head _ ih =>
    rw [List.find?_cons] at first ⊢
    rw [kind x y head]
    cases passes : p x with
    | true =>
      rw [passes] at first
      cases first
      exact ⟨y, rfl, head⟩
    | false =>
      rw [passes] at first
      exact ih first

/-- The first element of a kind decides if nothing stops before it. -/
theorem mapM_eq_error {ε α β : Type} {f : α → Except ε β} {p : α → Bool} {as : List α} {a : α}
    {e : ε} (first : as.find? p = some a) (others : ∀ b, p b = false → ∃ c, f b = .ok c)
    (fails : f a = .error e) : as.mapM f = .error e := by
  induction as with
  | nil => cases first
  | cons b rest ih =>
    rw [List.find?_cons] at first
    rw [List.mapM_cons]
    cases passes : p b with
    | true =>
      rw [passes] at first
      cases first
      rw [fails]
      rfl
    | false =>
      rw [passes] at first
      obtain ⟨c, goesOn⟩ := others b passes
      rw [goesOn, ih first]
      rfl

/-! ## Marks -/

/-- A method whose mark of injection may be gone. -/
def ClearedMethod (m m' : MethodDef) : Prop :=
  m' = m ∨ m' = { m with attrs := { m.attrs with injected := false } }

/-- An image in which any of the marks of injection may be gone. -/
structure Cleared (image cleared : Image) : Prop where
  name : cleared.name = image.name
  types : cleared.types = image.types
  methods : Forall₂ ClearedMethod image.methods cleared.methods

theorem Cleared.refl (image : Image) : Cleared image image :=
  ⟨rfl, rfl, List.forall₂_same.2 fun _ _ => .inl rfl⟩

theorem ClearedMethod.strip (marks : ClearedMethod m m') : m'.strip = m.strip := by
  rcases marks with rfl | rfl <;> rfl

theorem ClearedMethod.body (marks : ClearedMethod m m') : m'.body = m.body := by
  rcases marks with rfl | rfl <;> rfl

/-- Taking marks away leaves all declarations alone. -/
theorem Cleared.strip (marks : Cleared image cleared) : cleared.strip = image.strip := by
  obtain ⟨name, types, methods⟩ := marks
  exact strip_eq_of_forall₂ name types (methods.imp fun _ _ => ClearedMethod.strip)

/-- An image that passes the check passes it without marks. -/
theorem Cleared.verify (marks : Cleared image cleared) (verified : image.verify = .ok ()) :
    cleared.verify = .ok () := by
  obtain ⟨_, _, bodies⟩ := verify_eq_ok_iff.1 verified
  refine verify_of_strip marks.strip verified (fun m' member injected => ?_) fun m' member => ?_
  · obtain ⟨m, inImage, rfl | rfl⟩ := exists_of_forall₂ marks.methods member
    · exact (declared_of_verify verified inImage).hasBody injected
    · cases injected
  · obtain ⟨m, inImage, rfl | rfl⟩ := exists_of_forall₂ marks.methods member
    · exact forM_eq_ok.1 bodies m' inImage
    · exact forM_eq_ok.1 bodies m inImage

/-! ## The second injection -/

/-- A method that holds a prologue or is marked as injected takes no prologue. -/
theorem injectMethod_again (carries : carriesPrologue m = true) :
    image.injectMethod hub m = .error (.alreadyInjected m.signature) := by
  unfold injectMethod
  rw [carries, Bool.or_true, if_pos rfl]
  rfl

theorem carriesPrologue_congr (same : m'.body = m.body) : carriesPrologue m' = carriesPrologue m := by
  unfold carriesPrologue
  rw [same]

/-- An injected method holds a prologue. -/
theorem carriesPrologue_of_turn (patchable : m.attrs.patchable = true)
    (result : image.turn hub m = .ok m') : carriesPrologue m' = true := by
  rw [turn_of_patchable patchable] at result
  obtain ⟨own, injected, gained⟩ := gains_of_injectMethod result
  refine gained.shape.carriesPrologue ?_
  rw [gained.result]

theorem patchable_of_strip (same : m'.strip = m.strip) : m'.attrs.patchable = m.attrs.patchable := by
  obtain ⟨body, injected, rfl⟩ := MethodDef.exists_of_strip same
  rfl

theorem signature_of_strip (same : m'.strip = m.strip) : m'.signature = m.signature := by
  obtain ⟨body, injected, rfl⟩ := MethodDef.exists_of_strip same
  rfl

/-- The first patchable method stops the second injection, whichever marks are left. -/
theorem inject_of_cleared (result : image.inject = .ok (after, report))
    (first : image.methods.find? (·.attrs.patchable) = some m) (marks : Cleared after cleared) :
    cleared.inject = .error (.alreadyInjected m.signature) := by
  obtain ⟨_, hub, only, _, _, _, mapped⟩ := turns_of_inject result
  obtain ⟨m', first', turned⟩ := find?_of_forall₂ (q := (·.attrs.patchable)) (forall₂_of_mapM mapped)
    (fun _ _ turned => patchable_of_strip (strip_of_turn turned)) first
  obtain ⟨m'', first'', unmarked⟩ := find?_of_forall₂ (q := (·.attrs.patchable)) marks.methods
    (fun _ _ unmarked => patchable_of_strip unmarked.strip) first'
  have patchable : m.attrs.patchable = true :=
    List.find?_some (p := fun m : MethodDef => m.attrs.patchable) first
  have patchable' : m''.attrs.patchable = true :=
    List.find?_some (p := fun m : MethodDef => m.attrs.patchable) first''
  have carries : carriesPrologue m'' = true := by
    rw [carriesPrologue_congr unmarked.body, carriesPrologue_of_turn patchable turned]
  have signature : m''.signature = m.signature :=
    signature_of_strip (unmarked.strip.trans (strip_of_turn turned))
  have hubs : cleared.hubs.map (·.strip) = [hub.strip] := by
    rw [← hubs_strip, marks.strip, strip_of_inject result, hubs_strip, only]
    rfl
  obtain ⟨hub', only', _⟩ := List.map_eq_singleton_iff.1 hubs
  rw [inject_of_hub (marks.verify (verify_of_inject result)) only']
  have stops : cleared.methods.mapM (cleared.turn hub'.token) =
      .error (.alreadyInjected m.signature) := by
    refine mapM_eq_error first'' (fun b other => ⟨b, turn_of_unpatchable other⟩) ?_
    rw [turn_of_patchable patchable', injectMethod_again carries, signature]
  rw [stops]
  rfl

/-- Without patchable methods injection changes nothing. -/
theorem eq_of_inject (result : image.inject = .ok (after, report))
    (none : image.methods.find? (·.attrs.patchable) = none) : after = image := by
  obtain ⟨_, _, _, _, name, types, _⟩ := turns_of_inject result
  have unpatchable : ∀ m ∈ image.methods, ¬ m.attrs.patchable = true := List.find?_eq_none.1 none
  have kept : Forall₂ (· = ·) image.methods after.methods := by
    refine ((List.forall₂_and_left _ _).2 ⟨unpatchable, methods_of_inject result⟩).imp ?_
    rintro m m' ⟨unpatchable, same⟩
    rw [if_neg unpatchable] at same
    exact same.symm
  rw [List.forall₂_eq_eq_eq] at kept
  obtain ⟨_, _, _⟩ := after
  obtain ⟨_, _, _⟩ := image
  cases name
  cases types
  cases kept
  rfl

/-- No image is injected twice. If it has patchable methods, the first of them stops the second
injection, whichever of the marks are taken away in between; if it has none, the first injection
changes nothing, and so does the second. -/
theorem inject_once (result : image.inject = .ok (after, report)) :
    (∀ m, image.methods.find? (·.attrs.patchable) = some m →
      after.inject = .error (.alreadyInjected m.signature) ∧
        ∀ cleared, Cleared after cleared →
          cleared.inject = .error (.alreadyInjected m.signature)) ∧
    (image.methods.find? (·.attrs.patchable) = none →
      after = image ∧ ∃ report', after.inject = .ok (after, report')) := by
  refine ⟨fun m first => ⟨?_, fun cleared marks => ?_⟩, fun none => ?_⟩
  · exact inject_of_cleared result first (.refl after)
  · exact inject_of_cleared result first marks
  · obtain rfl := eq_of_inject result none
    exact ⟨rfl, report, result⟩

/-- The injected image with a patchable method is not injected again. -/
theorem inject_once_wishes : (∃ report, wishes.inject = .ok (injectedWishes, report)) ∧
    injectedWishes.inject = .error (.alreadyInjected grant.signature) := by
  obtain ⟨report, injected⟩ := inject_wishes
  exact ⟨⟨report, injected⟩, ((inject_once injected).1 grant rfl).1⟩

end ScriptHost.Image
