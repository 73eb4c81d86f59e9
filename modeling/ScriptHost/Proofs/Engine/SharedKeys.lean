import ScriptHost.Proofs.Engine.Resolving
/-!
Questions that share an answer. The text of a question runs the name of a type and that of a member
together, so that a longer name of a type can take over a part of the member. What is kept under a
text was found for a question of that text; it was found for the question itself as long as no name
of another type goes on behind that of its type, or the other way round.
-/
namespace ScriptHost.Bridge.MethodKey

/-! ## Questions of one text -/

/-- A name that goes on with a colon at its end, or with two colons and more. -/
def GoesOn (name longer : String) : Prop :=
  longer = name ++ ":" ∨ ∃ middle, longer = name ++ "::" ++ middle

instance (name longer : String) : Decidable (GoesOn name longer) :=
  decidable_of_iff (longer = name ++ ":" ∨ (name ++ "::").toList <+: longer.toList) <| or_congr_right
    ⟨fun ⟨middle, longer⟩ => ⟨.ofList middle, String.toList_injective (by simpa using longer.symm)⟩,
      fun ⟨middle, longer⟩ => ⟨middle.toList, by simp [longer]⟩⟩

/-- The name of the second type goes on behind that of the first with what the first member begins
with. -/
def RunsOn (k l : MethodKey) : Prop :=
  k.shape = l.shape ∧ k.tags = l.tags ∧
    (l.declaring = k.declaring ++ ":" ∧ k.member = ":" ++ l.member ∨
      ∃ middle, l.declaring = k.declaring ++ "::" ++ middle ∧ k.member = middle ++ "::" ++ l.member)

variable {k l : MethodKey}

theorem RunsOn.goesOn (runs : k.RunsOn l) : GoesOn k.declaring l.declaring := by
  obtain ⟨-, -, ⟨longer, -⟩ | ⟨middle, longer, -⟩⟩ := runs
  · exact .inl longer
  · exact .inr ⟨middle, longer⟩

theorem RunsOn.text_eq (runs : k.RunsOn l) : k.text = l.text := by
  have colons : ∀ rest : String, ":" ++ ("::" ++ rest) = "::" ++ (":" ++ rest) := by
    intro rest
    rw [← String.append_assoc, ← String.append_assoc]
    rfl
  obtain ⟨shapes, kinds, ⟨longer, member⟩ | ⟨middle, longer, member⟩⟩ := runs
  · unfold text
    rw [shapes, kinds, longer, member]
    simp only [String.append_assoc, colons]
  · unfold text
    rw [shapes, kinds, longer, member]
    simp only [String.append_assoc]

theorem RunsOn.ne_declaring (runs : k.RunsOn l) : k.declaring ≠ l.declaring := by
  intro same
  have lengths := congrArg String.length same
  have colons : "::".length = 2 := rfl
  obtain ⟨-, -, ⟨longer, -⟩ | ⟨middle, longer, -⟩⟩ := runs
  · simp [longer] at lengths
  · simp only [longer, String.length_append] at lengths
    omega

/-- Where two colons stand in a list that has two colons behind a beginning of it. -/
theorem cases_of_append_colons {more s t : List Char}
    (same : ':' :: ':' :: s = more ++ ':' :: ':' :: t) :
    more = [] ∧ s = t ∨ more = [':'] ∧ s = ':' :: t ∨
      ∃ middle, more = ':' :: ':' :: middle ∧ s = middle ++ ':' :: ':' :: t := by
  match more with
  | [] => exact .inl ⟨rfl, by simpa using same⟩
  | [c] =>
    simp only [List.cons_append, List.nil_append, List.cons.injEq] at same
    obtain ⟨rfl, -, rest⟩ := same
    exact .inr (.inl ⟨rfl, rest⟩)
  | c :: c' :: middle =>
    simp only [List.cons_append, List.cons.injEq] at same
    obtain ⟨rfl, rfl, rest⟩ := same
    exact .inr (.inr ⟨middle, rfl, rest⟩)

/-- If the name of the second type is no shorter, it is that of the first or goes on behind it. -/
theorem eq_or_runsOn {more : List Char} (shapes : k.shape = l.shape) (kinds : k.tags = l.tags)
    (longer : l.declaring.toList = k.declaring.toList ++ more)
    (rest : ':' :: ':' :: k.member.toList = more ++ ':' :: ':' :: l.member.toList) :
    k = l ∨ k.RunsOn l := by
  obtain ⟨declaring, member, shape, tags⟩ := k
  obtain ⟨declaring', member', shape', tags'⟩ := l
  obtain rfl : shape = shape' := shapes
  obtain rfl : tags = tags' := kinds
  dsimp only at longer rest
  obtain ⟨rfl, members⟩ | ⟨rfl, members⟩ | ⟨middle, rfl, members⟩ := cases_of_append_colons rest
  · rw [List.append_nil] at longer
    obtain rfl := String.toList_injective longer
    obtain rfl := String.toList_injective members
    exact .inl rfl
  · exact .inr ⟨rfl, rfl, .inl ⟨String.toList_injective (by simpa using longer),
      String.toList_injective (by simpa using members)⟩⟩
  · exact .inr ⟨rfl, rfl, .inr ⟨.ofList middle, String.toList_injective (by simpa using longer),
      String.toList_injective (by simpa using members)⟩⟩

/-- Questions have one text if they are one question, or if the name of one type goes on behind that
of the other with a part of the member. -/
theorem text_eq_iff : k.text = l.text ↔ k = l ∨ k.RunsOn l ∨ l.RunsOn k := by
  constructor
  · intro same
    obtain ⟨qualified, shapes, kinds⟩ := qualified_of_text same
    obtain ⟨more, longer, rest⟩ | ⟨more, longer, rest⟩ := List.append_eq_append_iff.1 qualified
    · exact (eq_or_runsOn shapes kinds longer rest).imp_right .inl
    · exact (eq_or_runsOn shapes.symm kinds.symm longer rest).imp Eq.symm .inr
  · rintro (rfl | runs | runs)
    · rfl
    · exact runs.text_eq
    · exact runs.text_eq.symm

end ScriptHost.Bridge.MethodKey

namespace ScriptHost

open Bridge (MethodCache MethodKey)
open Host (Domain Method TypeInfo World)

/-! ## What is kept -/

/-- No other type has the name of this one, or a name that goes on behind it or that it goes on
behind. -/
def Host.Domain.Unmistakable (d : Domain) (info : TypeInfo) : Prop :=
  ∀ other ∈ d.types, other.name = info.name ∨ MethodKey.GoesOn other.name info.name ∨
    MethodKey.GoesOn info.name other.name → other = info

instance (d : Domain) (info : TypeInfo) : Decidable (d.Unmistakable info) :=
  inferInstanceAs (Decidable (∀ other ∈ d.types, _ → _))

/-- What is kept under a text was found for a question of that text. -/
def Kept (d : Domain) (cache : MethodCache Method) : Prop :=
  ∀ text m, cache.entries.find? text = some m → ∃ key : MethodKey, key.text = text ∧ Answers d key m

namespace Kept

variable {d e : Domain} {cache : MethodCache Method}

theorem empty (d : Domain) : Kept d {} := fun _ _ found => nomatch found

theorem grow (kept : Kept d cache) (placed : d.Placed) (grown : d.Extends e) : Kept e cache := by
  intro text m found
  obtain ⟨key, same, answers⟩ := kept text m found
  exact ⟨key, same, answers.of_extends grown placed⟩

theorem put (kept : Kept d cache) {key : MethodKey} {m : Method}
    (new : cache.entries.find? key.text = none) (answers : Answers d key m) :
    Kept d { cache with
      entries := cache.entries.insert key.text m, population := cache.population + 1 } := by
  intro text m' found
  rw [Table.insert_of_find?_none new, Table.find?, List.lookup_append, Option.or_eq_some_iff] at found
  obtain before | ⟨-, last⟩ := found
  · exact kept text m' before
  · rw [List.lookup_cons] at last
    split at last
    · rename_i same
      obtain rfl := Option.some.inj last
      exact ⟨key, (beq_iff_eq.1 same).symm, answers⟩
    · cases last

end Kept

namespace Request

theorem kept_apply {w : World Engine} (r : Request)
    (kept : Kept w.host.domain w.outer.bridge.cache) (placed : w.host.domain.Placed) :
    Kept (r.apply w).host.domain (r.apply w).outer.bridge.cache := by
  have grown := (evolves_apply w r).extends
  cases r with
  | resolve type member shape tags =>
    simp only [apply]
    rw [Run.resolveMethod_apply]
    cases known : w.host.domain.get? type with
    | none => exact kept
    | some info =>
      dsimp only
      cases hit : w.outer.bridge.cache.entries.find?
          (MethodKey.mk info.name member shape tags).text with
      | some m => exact kept
      | none =>
        cases chosen : search w.host.domain info member shape tags with
        | error cause => exact kept
        | ok m => exact kept.put hit ⟨type, info, known, rfl, chosen⟩
  | clear => exact .empty _
  | define decl => exact kept.grow placed grown
  | arrayType element => exact kept.grow placed grown
  | load image => exact kept.grow placed grown

theorem kept_run {w : World Engine} {found : List MethodKey} (requests : List Request)
    (kept : Kept w.host.domain w.outer.bridge.cache) (placed : w.host.domain.Placed) :
    Kept (run (w, found) requests).1.host.domain
      (run (w, found) requests).1.outer.bridge.cache := by
  induction requests generalizing w found with
  | nil => exact kept
  | cons r rest ih =>
    exact ih (kept_apply r kept placed) ((evolves_apply w r).placed placed)

/-- Two questions have one text only if they are one question or the name of one type goes on behind
that of the other with a part of the member. A method that comes out of the cache was found for such a
question, so it was found for the question asked wherever the name of the type is unmistakable. -/
theorem hit_of_shared_text {w : World Engine} (made : Domain.Evolves {} w.host.domain)
    (empty : w.outer.bridge.cache = {}) (requests : List Request) :
    let v := (run (w, []) requests).1
    (∀ k l : MethodKey, k.text = l.text ↔ k = l ∨ k.RunsOn l ∨ l.RunsOn k) ∧
    ∀ type info member shape tags m, v.host.domain.get? type = some info →
      v.outer.bridge.cache.entries.find? (MethodKey.mk info.name member shape tags).text = some m →
      (Run.resolveMethod type member shape tags v).1 = .ok m ∧
      (∃ type' info' member', v.host.domain.get? type' = some info' ∧
        search v.host.domain info' member' shape tags = .ok m ∧
        (info'.name = info.name ∧ member' = member ∨
          MethodKey.RunsOn ⟨info'.name, member', shape, tags⟩ ⟨info.name, member, shape, tags⟩ ∨
          MethodKey.RunsOn ⟨info.name, member, shape, tags⟩ ⟨info'.name, member', shape, tags⟩)) ∧
      (v.host.domain.Unmistakable info → search v.host.domain info member shape tags = .ok m) := by
  intro v
  refine ⟨fun k l => MethodKey.text_eq_iff, ?_⟩
  intro type info member shape tags m known hit
  have kept : Kept v.host.domain v.outer.bridge.cache := by
    refine kept_run requests ?_ (made.placed Domain.placed_empty)
    rw [empty]
    exact .empty _
  have answered : (Run.resolveMethod type member shape tags v).1 = .ok m := by
    rw [Run.resolveMethod_apply, known]
    dsimp only
    rw [hit]
  obtain ⟨⟨declaring, member', shape', tags'⟩, same, type', info', known', named, chosen⟩ :=
    kept _ m hit
  obtain rfl : info'.name = declaring := named
  obtain ⟨-, shapes, kinds⟩ := MethodKey.qualified_of_text same
  obtain rfl : shape' = shape := shapes
  obtain rfl : tags' = tags := kinds
  have shared := MethodKey.text_eq_iff.1 same
  simp only [MethodKey.mk.injEq, and_true] at shared
  refine ⟨answered, ⟨type', info', member', known', chosen, shared⟩, fun unmistakable => ?_⟩
  -- The type that the method was found for is the one that was asked for, and so is the member.
  have one : info' = info := unmistakable info' (Array.mem_of_getElem? known')
    (shared.imp And.left (Or.imp MethodKey.RunsOn.goesOn MethodKey.RunsOn.goesOn))
  subst one
  have members : member' = member := by
    obtain ⟨-, members⟩ | runs | runs := shared
    · exact members
    · exact (runs.ne_declaring rfl).elim
    · exact (runs.ne_declaring rfl).elim
  exact members ▸ chosen

/-- The method that a type inherits comes out of the cache, and a search finds it. -/
theorem hit_of_shared_text_inherited :
    let v := (run (bare, []) askings).1
    ∃ info m, v.host.domain.get? ⟨2⟩ = some info ∧ v.host.domain.Unmistakable info ∧
      (Run.resolveMethod ⟨2⟩ "total" .static [.number] v).1 = .ok m ∧
      search v.host.domain info "total" .static [.number] = .ok m := by
  intro v
  have known : (v.host.domain.get? ⟨2⟩).isSome := by decide +kernel
  obtain ⟨info, known⟩ := Option.isSome_iff_exists.1 known
  have unmistakable : ∀ other ∈ v.host.domain.get? ⟨2⟩, v.host.domain.Unmistakable other := by
    decide +kernel
  have named : (v.host.domain.get? ⟨2⟩).map (·.name) = some "Stall" := by decide +kernel
  obtain named : info.name = "Stall" := by simpa [known] using named
  have hit : (v.outer.bridge.cache.entries.find?
      (MethodKey.mk "Stall" "total" .static [.number]).text).isSome := by
    decide +kernel
  obtain ⟨m, hit⟩ := Option.isSome_iff_exists.1 hit
  obtain ⟨-, hits⟩ := hit_of_shared_text (w := bare) .refl rfl askings
  obtain ⟨answered, -, found⟩ := hits ⟨2⟩ info "total" .static [.number] m known
    (by rw [named]; exact hit)
  exact ⟨info, m, known, unmistakable info known, answered, found (unmistakable info known)⟩

/-- Two types whose names run on, and a question for the member of the first. -/
def tills : List Request :=
  [.define ⟨"Shop", none, false, [], [⟨"Till::total", .static, [], .string, .absent, none⟩]⟩,
    .define ⟨"Shop::Till", none, false, [], [⟨"total", .static, [], .string, .absent, none⟩]⟩,
    .resolve ⟨1⟩ "Till::total" .static []]

/-- Two questions share a text, and the second gets the method of the first, though a search finds
another one. -/
theorem hit_of_other_type :
    let first : MethodKey := ⟨"Shop", "Till::total", .static, []⟩
    let second : MethodKey := ⟨"Shop::Till", "total", .static, []⟩
    let v := (run (bare, []) tills).1
    first ≠ second ∧ first.text = second.text ∧
      (v.host.domain.get? ⟨2⟩).map (·.name) = some second.declaring ∧
      (Run.resolveMethod ⟨2⟩ second.member second.shape second.tags v).1.toOption.map
        (·.declaring) = some ⟨1⟩ ∧
      (Run.resolveMethod ⟨2⟩ second.member second.shape second.tags
        (withCache v {})).1.toOption.map (·.declaring) = some ⟨2⟩ := by
  decide +kernel

end Request

end ScriptHost
