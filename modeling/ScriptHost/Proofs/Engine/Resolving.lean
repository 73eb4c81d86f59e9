import Mathlib.Data.List.Dedup
import ScriptHost.Engine.Resolve
import ScriptHost.Proofs.Bridge.Keys
import ScriptHost.Proofs.Engine.Answers
import ScriptHost.Proofs.Host.Lineage
import ScriptHost.Proofs.Image.Loaded
/-!
Keeping what was found. While the names of types are distinct and free of colons, a method that was
found for a question is the one that a new search would find, however much the domain has grown since.
-/
namespace ScriptHost

/-! ## Tables that take in a new key -/

namespace Table

variable {κ α : Type} [DecidableEq κ] {t : Table κ α} {key : κ} {a : α}

theorem mem_keys_of_find? (found : t.find? key = some a) : key ∈ t.keys := by
  obtain ⟨before, after, split, _⟩ := List.lookup_eq_some_iff.1 found
  rw [keys, split]
  simp

theorem find?_eq_none_iff : t.find? key = none ↔ key ∉ t.keys := by
  rw [find?, List.lookup_eq_none_iff, keys]
  simp only [List.mem_map, not_exists, not_and, bne_iff_ne]
  exact ⟨fun apart e member same => apart e member same.symm,
    fun apart e member same => apart e member same.symm⟩

/-- A key that is new comes last. -/
theorem insert_of_find?_none (new : t.find? key = none) :
    t.insert key a = ⟨t.entries ++ [(key, a)]⟩ := by
  rw [insert, contains, new]
  rfl

theorem find?_append_new (new : t.find? key = none) :
    (Table.mk (t.entries ++ [(key, a)])).find? key = some a := by
  unfold find? at new ⊢
  rw [List.lookup_append, new]
  simp

theorem find?_append_of_find? {other : κ} {b : α} (found : t.find? other = some b) :
    (Table.mk (t.entries ++ [(key, a)])).find? other = some b := by
  unfold find? at found ⊢
  rw [List.lookup_append, found]
  rfl

end Table

open Bridge (CallShape MethodCache MethodKey)
open Host (Domain Method TypeDecl TypeId TypeInfo ValueType World)
open Script (Tag)

/-! ## Growing domains -/

/-- The names of types are distinct and free of colons. -/
def Host.Domain.NamesApart (d : Domain) : Prop :=
  (d.types.toList.map (·.name)).Nodup ∧ ∀ t ∈ d.types, ':' ∉ t.name.toList

instance (d : Domain) : Decidable d.NamesApart :=
  inferInstanceAs (Decidable (_ ∧ _))

section

variable {d e : Domain}

theorem Host.Domain.NamesApart.of_extends (apart : e.NamesApart) (grown : d.Extends e) :
    d.NamesApart := by
  obtain ⟨more, types⟩ := grown
  obtain ⟨distinct, plain⟩ := apart
  rw [types, Array.toList_append, List.map_append] at distinct
  refine ⟨distinct.of_append_left, fun t member => plain t ?_⟩
  rw [types]
  exact Array.mem_append_left more member

/-- Types of one name are one type. -/
theorem Host.Domain.NamesApart.eq_of_name (apart : d.NamesApart) {i j : TypeId} {a b : TypeInfo}
    (first : d.get? i = some a) (second : d.get? j = some b) (same : a.name = b.name) : a = b := by
  have inDomain : ∀ {i : TypeId} {t : TypeInfo}, d.get? i = some t → t ∈ d.types.toList :=
    fun found => Array.mem_toList_iff.2 (Array.mem_of_getElem? found)
  exact List.inj_on_of_nodup_map apart.1 (inDomain first) (inDomain second) same

/-- The candidates for a call stay what they are. -/
theorem candidates_of_extends (grown : d.Extends e) (placed : d.Placed) {id : TypeId}
    {info : TypeInfo} (found : d.get? id = some info) (member : String) (shape : CallShape) :
    candidates e info member shape = candidates d info member shape := by
  have chain : e.chain info.id = d.chain info.id := by
    rw [placed.get? found]
    exact grown.chain placed found
  cases shape with
  | constructor => rfl
  | static => simp only [candidates, chain]
  | ofInstance => simp only [candidates, chain]

end

/-! ## One question -/

/-- What a search of all candidates gives. -/
def search (d : Domain) (info : TypeInfo) (member : String) (shape : CallShape)
    (tags : List Tag) : Except Bridge.Error Method :=
  select info.name member shape tags (candidates d info member shape)

/-- Only the first candidate that fits can be chosen. -/
theorem select_eq (type member : String) (shape : CallShape) (tags : List Tag)
    (methods : List Method) :
    match methods.find? fun m => Bridge.takes m tags && m.kind == shape.kind with
    | some m => select type member shape tags methods = .ok m
    | none => ∃ cause, select type member shape tags methods = .error cause := by
  have filtered : methods.find? (fun m => Bridge.takes m tags && m.kind == shape.kind) =
      (methods.filter (Bridge.takes · tags)).find? (·.kind == shape.kind) := by
    rw [List.find?_filter]
    simp only [Bool.decide_and, Bool.decide_eq_true]
  rw [filtered]
  unfold select
  dsimp only
  split
  · rename_i found
    rw [found]
  · rename_i none
    rw [none]
    split
    · rename_i found
      cases found
    · exact ⟨_, rfl⟩
    · exact ⟨_, rfl⟩

/-- The world with other methods found so far. -/
def withCache (w : World Engine) (cache : MethodCache Method) : World Engine :=
  { w with outer := { w.outer with bridge := { w.outer.bridge with cache } } }

namespace Run

theorem domain_bind_apply {ε α : Type} (f : Domain → Run ε α) (w : World Engine) :
    (domain >>= f) w = f w.host.domain w := rfl

theorem typeInfo_apply (type : TypeId) (w : World Engine) :
    typeInfo type w =
      match w.host.domain.get? type with
      | none => (.error (.failed (.typeNotFound ("#" ++ toString type.index))), w)
      | some info => (.ok info, w) := by
  unfold typeInfo
  rw [domain_bind_apply]
  cases w.host.domain.get? type with
  | none => rfl
  | some info => rfl

/-- All that a question can lead to. The answer to one that is new is never in the cache already. -/
theorem resolveMethod_apply (type : TypeId) (member : String) (shape : CallShape)
    (tags : List Tag) (w : World Engine) :
    resolveMethod type member shape tags w =
      match w.host.domain.get? type with
      | none => (.error (.failed (.typeNotFound ("#" ++ toString type.index))), w)
      | some info =>
        let cache := w.outer.bridge.cache
        let key := (MethodKey.mk info.name member shape tags).text
        match cache.entries.find? key with
        | some m => (.ok m, withCache w { cache with hits := cache.hits + 1 })
        | none =>
          match search w.host.domain info member shape tags with
          | .error cause => (.error (.failed cause), w)
          | .ok m => (.ok m, withCache w { cache with
              entries := cache.entries.insert key m, population := cache.population + 1 }) := by
  unfold resolveMethod
  rw [bind_apply, typeInfo_apply]
  cases w.host.domain.get? type with
  | none => rfl
  | some info =>
    dsimp only
    rw [bridge_bind_apply]
    unfold MethodCache.get
    cases hit : w.outer.bridge.cache.entries.find?
        (MethodKey.mk info.name member shape tags).text with
    | some m => rfl
    | none =>
      show ((ofExcept (search w.host.domain info member shape tags) : Run Bridge.Error Method) >>=
        _) w = _
      rw [bind_apply]
      cases search w.host.domain info member shape tags with
      | error cause => rfl
      | ok m =>
        simp only [MethodCache.insert?, Table.contains, hit]
        rfl

end Run

/-! ## Many questions -/

/-- What can happen to the methods that were found and to the types that they were found in. -/
inductive Request
  | resolve (type : TypeId) (member : String) (shape : CallShape) (tags : List Tag)
  | clear
  | define (decl : TypeDecl)
  | arrayType (element : ValueType)
  | load (image : Image)

namespace Request

/-- The world after a request. -/
def apply (w : World Engine) : Request → World Engine
  | .resolve type member shape tags => (Run.resolveMethod type member shape tags w).2
  | .clear => ((Run.modifyBridge ({ · with cache := {} }) : Run Bridge.Error Unit) w).2
  | .define decl => ((Run.onHost (·.define decl) : Run Bridge.Error _) w).2
  | .arrayType element => ((Run.onHost (·.arrayType element) : Run Bridge.Error _) w).2
  | .load image => ((Run.onHost image.load : Run Bridge.Error _) w).2

/-- The questions that were answered with a method since the last clear, the latest first. -/
def answered (w : World Engine) (before : List MethodKey) : Request → List MethodKey
  | .resolve type member shape tags =>
    match w.host.domain.get? type, (Run.resolveMethod type member shape tags w).1 with
    | some info, .ok _ => ⟨info.name, member, shape, tags⟩ :: before
    | _, _ => before
  | .clear => []
  | .define _ | .arrayType _ | .load _ => before

/-- The world and the questions that were answered, after requests in turn. -/
def run : World Engine × List MethodKey → List Request → World Engine × List MethodKey
  | state, [] => state
  | (w, before), r :: rest => run (r.apply w, r.answered w before) rest

/-- Requests let the domain grow and do nothing else to it. -/
theorem evolves_apply (w : World Engine) (r : Request) :
    w.host.domain.Evolves (r.apply w).host.domain := by
  cases r with
  | resolve type member shape tags =>
    have same : ((Run.resolveMethod type member shape tags w).2).host = w.host := by
      rw [Run.resolveMethod_apply]
      dsimp only
      repeat' split
      all_goals rfl
    rw [apply, same]
    exact .refl
  | clear => exact .refl
  | define decl =>
    have same : (w.host.define decl).2.domain = (w.host.domain.define decl).2 :=
      congrArg Prod.snd (Image.domain_define w.host decl)
    show w.host.domain.Evolves (w.host.define decl).2.domain
    rw [same]
    exact Domain.Evolves.refl.define decl
  | arrayType element => exact Host.evolves_arrayType w.host element
  | load image => exact Image.evolves_load image w.host

theorem evolves_run (w : World Engine) (before : List MethodKey) (requests : List Request) :
    w.host.domain.Evolves (run (w, before) requests).1.host.domain := by
  induction requests generalizing w before with
  | nil => exact .refl
  | cons r rest ih => exact (evolves_apply w r).trans (ih _ _)

end Request

/-- A method is what a search in a domain gives for a question. -/
def Answers (d : Domain) (key : MethodKey) (m : Method) : Prop :=
  ∃ id info, d.get? id = some info ∧ info.name = key.declaring ∧
    search d info key.member key.shape key.tags = .ok m

theorem Answers.of_extends {d e : Domain} {key : MethodKey} {m : Method}
    (answers : Answers d key m) (grown : d.Extends e) (placed : d.Placed) : Answers e key m := by
  obtain ⟨id, info, found, named, chosen⟩ := answers
  refine ⟨id, info, grown.get? found, named, ?_⟩
  rw [search, candidates_of_extends grown placed found]
  exact chosen

/-- What was found is what a new search would find, and it is kept once for each question. -/
structure Faithful (d : Domain) (cache : MethodCache Method) (found : List MethodKey) : Prop where
  answers : ∀ key ∈ found, ∃ m, cache.entries.find? key.text = some m ∧ Answers d key m
  mem_iff : ∀ text : String, text ∈ cache.entries.keys ↔ ∃ key ∈ found, key.text = text
  nodup : cache.entries.keys.Nodup
  population : cache.population = cache.entries.size
  hits : cache.hits + cache.population = found.length

namespace Faithful

variable {d e : Domain} {cache : MethodCache Method} {found : List MethodKey}

theorem empty (d : Domain) : Faithful d {} [] where
  answers _ member := nomatch member
  mem_iff _ := by
    constructor
    · intro member
      cases member
    · rintro ⟨_, member, _⟩
      cases member
  nodup := List.nodup_nil
  population := rfl
  hits := rfl

/-- Nothing that was found goes out of date while the domain grows. -/
theorem grow (faithful : Faithful d cache found) (placed : d.Placed) (grown : d.Extends e) :
    Faithful e cache found := by
  obtain ⟨answers, mem_iff, nodup, population, hits⟩ := faithful
  refine ⟨fun key member => ?_, mem_iff, nodup, population, hits⟩
  obtain ⟨m, kept, answer⟩ := answers key member
  exact ⟨m, kept, answer.of_extends grown placed⟩

/-- The names in questions that were answered are names of types. -/
theorem plain (faithful : Faithful d cache found) (apart : d.NamesApart) {key : MethodKey}
    (member : key ∈ found) : ':' ∉ key.declaring.toList := by
  obtain ⟨m, _, id, info, known, named, _⟩ := faithful.answers key member
  rw [← named]
  exact apart.2 info (Array.mem_of_getElem? known)

/-- What is kept for a question is what a search would find. -/
theorem search_of_find? (faithful : Faithful d cache found) (apart : d.NamesApart)
    {type : TypeId} {info : TypeInfo} (known : d.get? type = some info)
    {member : String} {shape : CallShape} {tags : List Tag} {m : Method}
    (hit : cache.entries.find? (MethodKey.mk info.name member shape tags).text = some m) :
    MethodKey.mk info.name member shape tags ∈ found ∧
      search d info member shape tags = .ok m := by
  obtain ⟨key, isFound, same⟩ := (faithful.mem_iff _).1 (Table.mem_keys_of_find? hit)
  obtain rfl := MethodKey.eq_of_text (faithful.plain apart isFound)
    (apart.2 info (Array.mem_of_getElem? known)) same
  refine ⟨isFound, ?_⟩
  obtain ⟨other, kept, id, info', known', named, chosen⟩ := faithful.answers _ isFound
  rw [hit] at kept
  cases kept
  obtain rfl := apart.eq_of_name known' known named
  exact chosen

/-- A question that was answered before is answered again. -/
theorem again (faithful : Faithful d cache found) {key : MethodKey} (isFound : key ∈ found) :
    Faithful d { cache with hits := cache.hits + 1 } (key :: found) := by
  obtain ⟨answers, mem_iff, nodup, population, hits⟩ := faithful
  have same : ∀ other, other ∈ key :: found ↔ other ∈ found := by
    intro other
    rw [List.mem_cons]
    exact ⟨fun either => either.elim (fun same => same ▸ isFound) id, .inr⟩
  refine ⟨fun other member => answers other ((same other).1 member), fun text => ?_, nodup,
    population, ?_⟩
  · simp only [same]
    exact mem_iff text
  · rw [List.length_cons, ← hits]
    exact Nat.add_right_comm ..

/-- A question that is new is answered once. -/
theorem put (faithful : Faithful d cache found) {key : MethodKey} {m : Method}
    (new : cache.entries.find? key.text = none) (answer : Answers d key m) :
    Faithful d { cache with
      entries := cache.entries.insert key.text m, population := cache.population + 1 }
      (key :: found) := by
  obtain ⟨answers, mem_iff, nodup, population, hits⟩ := faithful
  rw [Table.insert_of_find?_none new]
  refine ⟨fun other member => ?_, fun text => ?_, ?_, ?_, ?_⟩
  · rcases List.mem_cons.1 member with rfl | before
    · exact ⟨m, Table.find?_append_new new, answer⟩
    · obtain ⟨m', kept, answer'⟩ := answers other before
      exact ⟨m', Table.find?_append_of_find? kept, answer'⟩
  · have before := mem_iff text
    unfold Table.keys at before ⊢
    rw [List.map_append, List.mem_append, List.map_singleton, List.mem_singleton, before, or_comm]
    constructor
    · rintro (rfl | ⟨other, member, same⟩)
      · exact ⟨key, List.mem_cons_self, rfl⟩
      · exact ⟨other, List.mem_cons_of_mem _ member, same⟩
    · rintro ⟨other, member, same⟩
      rcases List.mem_cons.1 member with rfl | member
      · exact .inl same.symm
      · exact .inr ⟨other, member, same⟩
  · have notIn := Table.find?_eq_none_iff.1 new
    unfold Table.keys at nodup notIn ⊢
    rw [List.map_append, List.map_singleton]
    exact nodup.append (List.nodup_singleton _) (List.disjoint_singleton.2 notIn)
  · rw [population, Table.size, Table.size, List.length_append]
    rfl
  · rw [List.length_cons, ← hits]
    exact (Nat.add_assoc ..).symm

/-- The questions that were answered, each once, are as many as the answers that are kept. -/
theorem length_dedup (faithful : Faithful d cache found) (apart : d.NamesApart) :
    found.dedup.length = cache.entries.size := by
  have texts : cache.entries.keys.Perm (found.dedup.map (·.text)) := by
    refine (List.perm_ext_iff_of_nodup faithful.nodup ?_).2 fun text => ?_
    · refine (List.nodup_dedup found).map_on fun k member l member' same => ?_
      exact MethodKey.eq_of_text (faithful.plain apart (List.mem_dedup.1 member))
        (faithful.plain apart (List.mem_dedup.1 member')) same
    · simp only [faithful.mem_iff, List.mem_map, List.mem_dedup]
  have lengths := texts.length_eq
  rw [Table.keys, List.length_map, List.length_map] at lengths
  exact lengths.symm

end Faithful

/-- The answer that a search gives to a question. -/
def answer (d : Domain) (type : TypeId) (member : String) (shape : CallShape) (tags : List Tag) :
    Except (Stop Bridge.Error) Method :=
  match d.get? type with
  | none => .error (.failed (.typeNotFound ("#" ++ toString type.index)))
  | some info => (search d info member shape tags).mapError .failed

/-- While what is kept is faithful, a question is answered as by a search. -/
theorem resolveMethod_fst {w : World Engine} {found : List MethodKey}
    (faithful : Faithful w.host.domain w.outer.bridge.cache found)
    (apart : w.host.domain.NamesApart) (type : TypeId) (member : String) (shape : CallShape)
    (tags : List Tag) :
    (Run.resolveMethod type member shape tags w).1 =
      answer w.host.domain type member shape tags := by
  rw [Run.resolveMethod_apply]
  unfold answer
  cases known : w.host.domain.get? type with
  | none => rfl
  | some info =>
    dsimp only
    cases hit : w.outer.bridge.cache.entries.find?
        (MethodKey.mk info.name member shape tags).text with
    | some m =>
      rw [(faithful.search_of_find? apart known hit).2]
      rfl
    | none => cases search w.host.domain info member shape tags <;> rfl

namespace Request

/-- What is kept stays faithful from one request to the next. -/
theorem faithful_apply {w : World Engine} {found : List MethodKey} (r : Request)
    (faithful : Faithful w.host.domain w.outer.bridge.cache found)
    (placed : w.host.domain.Placed) (apart : w.host.domain.NamesApart) :
    Faithful (r.apply w).host.domain (r.apply w).outer.bridge.cache (r.answered w found) := by
  cases r with
  | resolve type member shape tags =>
    simp only [apply, answered]
    rw [Run.resolveMethod_apply]
    cases known : w.host.domain.get? type with
    | none => exact faithful
    | some info =>
      dsimp only
      cases hit : w.outer.bridge.cache.entries.find?
          (MethodKey.mk info.name member shape tags).text with
      | some m => exact faithful.again (faithful.search_of_find? apart known hit).1
      | none =>
        cases chosen : search w.host.domain info member shape tags with
        | error cause => exact faithful
        | ok m => exact faithful.put hit ⟨type, info, known, rfl, chosen⟩
  | clear => exact .empty _
  | define decl => exact faithful.grow placed (evolves_apply w (.define decl)).extends
  | arrayType element => exact faithful.grow placed (evolves_apply w (.arrayType element)).extends
  | load image => exact faithful.grow placed (evolves_apply w (.load image)).extends

/-- What is kept stays faithful all along. -/
theorem faithful_run {w : World Engine} {found : List MethodKey} (requests : List Request)
    (faithful : Faithful w.host.domain w.outer.bridge.cache found)
    (placed : w.host.domain.Placed)
    (apart : (run (w, found) requests).1.host.domain.NamesApart) :
    Faithful (run (w, found) requests).1.host.domain
      (run (w, found) requests).1.outer.bridge.cache (run (w, found) requests).2 := by
  induction requests generalizing w found with
  | nil => exact faithful
  | cons r rest ih =>
    have once := evolves_apply w r
    -- The names are apart at the end, so they were all along.
    have apartNow := apart.of_extends (evolves_run w found (r :: rest)).extends
    exact ih (faithful_apply r faithful placed apartNow) (once.placed placed) apart

/-- Keeping what was found makes no difference to any answer. A question is answered with the first
candidate that fits, and what is kept tells how many questions there were and how many of them were
new. -/
theorem cache_transparent {w : World Engine} (made : Domain.Evolves {} w.host.domain)
    (empty : w.outer.bridge.cache = {}) (requests : List Request)
    (apart : (run (w, []) requests).1.host.domain.NamesApart) :
    let v := (run (w, []) requests).1
    let found := (run (w, []) requests).2
    let cache := v.outer.bridge.cache
    (∀ type member shape tags,
      let answer := (Run.resolveMethod type member shape tags v).1
      answer = (Run.resolveMethod type member shape tags (withCache v {})).1 ∧
      match v.host.domain.get? type with
      | none => ∃ cause, answer = .error (.failed cause)
      | some info =>
        match (candidates v.host.domain info member shape).find? fun m =>
            Bridge.takes m tags && m.kind == shape.kind with
        | some m => answer = .ok m
        | none => ∃ cause, answer = .error (.failed cause)) ∧
    cache.population = found.dedup.length ∧ cache.population = cache.entries.size ∧
    cache.hits + cache.population = found.length := by
  have faithful : Faithful w.host.domain w.outer.bridge.cache [] := by
    rw [empty]
    exact .empty _
  have kept := faithful_run requests faithful (made.placed Domain.placed_empty) apart
  intro v found cache
  refine ⟨fun type member shape tags => ?_,
    kept.population.trans (kept.length_dedup apart).symm, kept.population, kept.hits⟩
  have anew : Faithful (withCache v {}).host.domain (withCache v {}).outer.bridge.cache [] :=
    .empty _
  dsimp only
  rw [resolveMethod_fst kept apart, resolveMethod_fst anew apart]
  refine ⟨rfl, ?_⟩
  unfold answer
  cases v.host.domain.get? type with
  | none => exact ⟨_, rfl⟩
  | some info =>
    have first := select_eq info.name member shape tags (candidates v.host.domain info member shape)
    unfold search
    dsimp only
    split at first
    · exact congrArg (Except.mapError Stop.failed) first
    · obtain ⟨cause, none⟩ := first
      exact ⟨cause, congrArg (Except.mapError Stop.failed) none⟩

/-- A world without anything in it. -/
def bare : World Engine :=
  ⟨{}, #[], [], .ofOptions {}⟩

/-- Questions for a method that a type inherits. -/
def askings : List Request :=
  [.define ⟨"Shop", none, false, [],
      [⟨"total", .static, [⟨"count", .numeric .int32, .input⟩], .string, .absent, none⟩]⟩,
    .define ⟨"Stall", some "Shop", false, [], []⟩,
    .resolve ⟨2⟩ "total" .static [.number],
    .resolve ⟨2⟩ "total" .ofInstance [.number],
    .arrayType .string,
    .resolve ⟨2⟩ "total" .static [.number],
    .resolve ⟨1⟩ "total" .static [.number]]

/-- Two of three questions are new. -/
theorem cache_transparent_inherited :
    (run (bare, []) askings).1.host.domain.NamesApart ∧
      (run (bare, []) askings).1.outer.bridge.cache.population = 2 ∧
      (run (bare, []) askings).1.outer.bridge.cache.hits +
        (run (bare, []) askings).1.outer.bridge.cache.population = 3 := by
  have apart : (run (bare, []) askings).1.host.domain.NamesApart := by decide +kernel
  obtain ⟨-, population, -, hits⟩ := cache_transparent .refl rfl askings apart
  exact ⟨apart, population.trans (by decide +kernel), hits.trans (by decide +kernel)⟩

end Request

end ScriptHost
