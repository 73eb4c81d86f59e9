import ScriptHost.Proofs.Image.Refusal
import ScriptHost.Proofs.Tables
/-!
Embeddings. A host that takes in an image has one new type for each type of the image and one new
method for each method, made as the image says and calling each other as they do there, and what it
had before is as it was.
-/
namespace ScriptHost.Image

open Host
open Host.Domain (Embodies Keeps embodies_of_define)
open List (Forall₂)
open Results (exists_of_forall₂ forall₂_comp)

variable {image : Image} {first : UInt32}

/-! ## Types that are defined in turn -/

/-- Defining a type leaves objects alone, and the static slots of other types. -/
theorem heap_define (s : State) (decl : TypeDecl) :
    (s.define decl).2.heap = s.heap ∧ ∃ rows, (s.define decl).2.statics = s.statics ++ rows := by
  unfold State.define
  cases s.domain.define decl with
  | mk outcome domain =>
    cases outcome with
    | error e => exact ⟨rfl, #[], Array.append_empty.symm⟩
    | ok _ => exact ⟨rfl, #[_], Array.push_eq_append⟩

/-- What a static slot holds, it holds beside further rows. -/
theorem static?_of_append {s after : State} {rows : Array (Array Value)} {id : TypeId} {slot : Nat}
    {v : Value} (statics : after.statics = s.statics ++ rows) (holds : s.static? id slot = some v) :
    after.static? id slot = some v := by
  unfold State.static? at holds ⊢
  rw [Array.getD_eq_getD_getElem?] at holds ⊢
  cases row : s.statics[id.index]? with
  | none =>
    rw [row] at holds
    cases holds
  | some values =>
    obtain ⟨inBounds, -⟩ := Array.getElem?_eq_some_iff.1 row
    rwa [statics, Array.getElem?_append_left inBounds]

/-- What has become of a host in which types were defined in turn. -/
structure Took (s : State) (decls : List (Nat × TypeDecl)) (found : List (Nat × TypeId))
    (after : State) : Prop where
  keeps : s.domain.Keeps after.domain
  size : after.domain.types.size = s.domain.types.size + decls.length
  types : Forall₂ (fun entry place => place.1 = entry.1 ∧
    ∃ base made, after.domain.Embodies entry.2 place.2 base made) decls found
  heap : after.heap = s.heap
  statics : ∃ rows, after.statics = s.statics ++ rows

theorem took_of_defineAll {s after : State} {decls : List (Nat × TypeDecl)}
    {found : List (Nat × TypeId)} (defined : defineAll s decls = (.ok found, after)) :
    Took s decls found after := by
  induction decls generalizing s found with
  | nil =>
    cases defined
    exact ⟨.refl _, rfl, .nil, rfl, #[], Array.append_empty.symm⟩
  | cons entry rest ih =>
    obtain ⟨i, decl⟩ := entry
    have inDomain := domain_define s decl
    have once := Keeps.define s.domain decl
    obtain ⟨heap, rows, statics⟩ := heap_define s decl
    unfold defineAll at defined
    cases result : s.define decl with
    | mk outcome between =>
      rw [result] at defined inDomain heap statics
      rw [← inDomain] at once
      cases outcome with
      | error cause => cases defined
      | ok id =>
        dsimp only at defined
        cases others : defineAll between rest with
        | mk remaining last =>
          rw [others] at defined
          cases remaining with
          | error cause => cases defined
          | ok remaining =>
            cases defined
            have took := ih others
            obtain ⟨-, size, base, made, embodies⟩ := embodies_of_define inDomain.symm
            obtain ⟨later, statics'⟩ := took.statics
            refine ⟨once.trans took.keeps, ?_, .cons ⟨rfl, base, made, embodies.mono took.keeps⟩
              took.types, took.heap.trans heap, rows ++ later, ?_⟩
            · rw [took.size, size, List.length_cons]
              omega
            · rw [statics', statics, Array.append_assoc]

/-- The declarations of types at some positions belong to these positions one by one. -/
theorem forall₂_of_declarations {order : List Nat} {decls : List (Nat × TypeDecl)}
    (inBounds : ∀ i ∈ order, i < image.types.length)
    (declared : image.declarations first order = .ok decls) :
    Forall₂ (fun i entry => entry.1 = i ∧
      ∃ t, image.types[i]? = some t ∧ Declares image first t entry.2) order decls := by
  induction order generalizing decls with
  | nil =>
    cases declared
    exact .nil
  | cons i rest ih =>
    obtain ⟨here, others⟩ := List.forall_mem_cons.1 inBounds
    have found : image.types[i]? = some image.types[i] := List.getElem?_eq_getElem here
    obtain ⟨decl, remaining, declaredType, declaredRest, rfl⟩ := (declarations_cons found).1 declared
    exact .cons ⟨rfl, _, found, declares_of_typeDecl declaredType⟩ (ih others declaredRest)

/-! ## What a method becomes -/

/-- What has become of a method of an image in a host, where tokens of the image go to others. Every
token in its body is one of the image. -/
structure Transcribed (image : Image) (f : MethodToken → MethodToken) (id : TypeId) (m : MethodDef)
    (method : Method) : Prop where
  token : method.token = f m.token
  declaring : method.declaring = id
  declaringName : method.declaringName = m.declaring
  name : method.name = m.name
  kind : method.kind = m.kind
  params : method.params = m.params
  ret : method.ret = if m.kind = .constructor then .void else m.ret
  hub : m.attrs.patchHub = true → method.body = .patchHub
  absent : m.attrs.patchHub = false → m.body = none → method.body = .absent
  code : ∀ own, m.attrs.patchHub = false → m.body = some own →
    method.body = .code (mapBody f own) ∧
      ∀ instr ∈ own.code, ∀ t, instr.token? = some t → ∃ n ∈ image.methods, n.token = t

theorem Becomes.transcribed {id : TypeId} {m : MethodDef} {method : Method}
    (becomes : Becomes image first m method) (declaring : method.declaring = id) :
    Transcribed image (tokenMap image first) id m method where
  token := by
    have known := becomes.token
    rw [tokenMap_eq (Option.isSome_of_eq_some known)] at known
    exact (Option.some.inj known).symm
  declaring := declaring
  declaringName := becomes.declaringName
  name := becomes.name
  kind := becomes.kind
  params := becomes.params
  ret := becomes.ret
  hub := becomes.body.of_hub
  absent := becomes.body.of_absent
  code := fun own unmarked hasBody => by
    obtain ⟨moved, body, remapped⟩ := becomes.body.of_code unmarked hasBody
    obtain ⟨known, rfl⟩ := remapBody_eq_ok_iff.1 remapped
    refine ⟨body, fun instr member t names => ?_⟩
    exact mem_of_mappedToken? (tokenMap_eq (known instr member t names))

/-! ## What a type becomes -/

/-- A field as it was declared. -/
def fieldDecl (f : Field) : FieldDecl :=
  ⟨f.name, f.type, f.isStatic⟩

theorem fieldDecl_placeFields (i s : Nat) (decls : List FieldDecl) :
    (placeFields i s decls).map fieldDecl = decls := by
  induction decls generalizing i s with
  | nil => rfl
  | cons decl rest ih =>
    unfold placeFields
    cases static : decl.isStatic with
    | true => rw [if_pos rfl, List.map_cons, ih, fieldDecl, ← static]
    | false => rw [if_neg Bool.false_ne_true, List.map_cons, ih, fieldDecl, ← static]

/-- What has become of a type of an image in a domain, where tokens of the image go to others. -/
structure TypeTranscribed (image : Image) (f : MethodToken → MethodToken) (d : Domain) (t : TypeDef)
    (id : TypeId) (info : TypeInfo) : Prop where
  there : d.get? id = some info
  lookup : d.lookup t.name = some id
  own : info.id = id
  name : info.name = t.name
  kind : info.kind = t.kind
  element : info.element = none
  base : ∃ base, info.base = some base ∧ t.base.elim (some rootId) d.lookup = some base
  fields : info.fields.map fieldDecl = t.fields
  constructors : Forall₂ (Transcribed image f id)
    ((image.methods.filter (·.declaring == t.name)).filter (·.kind == .constructor)) info.constructors
  methods : Forall₂ (Transcribed image f id)
    ((image.methods.filter (·.declaring == t.name)).filter (·.kind != .constructor)) info.methods

/-- A type that is declared as in an image becomes what it is there. -/
theorem Declares.transcribed {d : Domain} {t : TypeDef} {decl : TypeDecl} {id : TypeId}
    {base : TypeInfo} {made : List Method} (declares : Declares image first t decl)
    (placed : d.Placed) (plain : t.kind ≠ .array) (embodies : d.Embodies decl id base made) :
    TypeTranscribed image (tokenMap image first) d t id (decl.toType id base made) := by
  have transcribed : Forall₂ (Transcribed image (tokenMap image first) id)
      (image.methods.filter (·.declaring == t.name)) made := by
    refine (forall₂_comp declares.becomes embodies.making).imp ?_
    rintro m method ⟨methodDecl, ⟨_, _, token, own, becomes⟩, given, rfl, same⟩
    cases same token own
    rw [declares.name]
    exact (becomes id).transcribed rfl
  constructor
  case there => exact embodies.there
  case lookup =>
    unfold Domain.lookup
    rw [← declares.name, embodies.named]
    rfl
  case own => rfl
  case name => exact declares.name
  case kind =>
    unfold TypeDecl.toType
    dsimp only
    rw [declares.isStruct]
    cases kind : t.kind with
    | array => exact (plain kind).elim
    | reference => rfl
    | struct => rfl
  case element => rfl
  case base =>
    refine ⟨base.id, rfl, ?_⟩
    have based := embodies.based
    rw [declares.base] at based
    cases given : t.base with
    | none =>
      rw [given] at based
      exact congrArg some (placed.get? based).symm
    | some name =>
      rw [given] at based
      exact congrArg (Option.map (·.id)) based
  case fields =>
    rw [← declares.fields]
    exact fieldDecl_placeFields _ _ _
  case constructors =>
    exact List.rel_filter (fun m method same => by simp [same.kind]) transcribed
  case methods =>
    exact List.rel_filter (fun m method same => by simp [same.kind]) transcribed

/-! ## What an image becomes -/

/-- The ids that a load answers with are those of what the types of the image became. -/
theorem types_of_load {s after : State} {ids : List TypeId} (reached : s.Reachable)
    (loaded : image.load s = (.ok ids, after)) :
    Forall₂ (fun t id => ∃ info,
      TypeTranscribed image (tokenMap image s.domain.nextToken) after.domain t id info)
      image.types ids := by
  obtain ⟨order, decls, found, admitted, declared, defined, rfl⟩ := load_eq_ok loaded
  obtain ⟨-, perm, -⟩ := definitionOrder_eq_ok admitted.ordered
  have placed := (reached.evolves.trans (evolves_of_load loaded)).placed Domain.placed_empty
  have plain := (checkTypes_eq_ok_iff.1 (verify_eq_ok_iff.1 admitted.verified).1).2.2
  have related := forall₂_comp (forall₂_of_declarations
    (fun i member => List.mem_range.1 (perm.subset member)) declared) (took_of_defineAll defined).types
  have keys : found.map (·.1) = order := by
    rw [← List.forall₂_eq_eq_eq, List.forall₂_map_left_iff]
    refine related.flip.imp ?_
    rintro place i ⟨entry, ⟨sameEntry, -⟩, same, -⟩
    exact same.trans sameEntry
  have distinct : (found.map (·.1)).Nodup := by
    rw [keys]
    exact perm.nodup_iff.2 List.nodup_range
  refine List.forall₂_iff_get.2 ⟨by simp [inOrder], fun i inBounds inBounds' => ?_⟩
  have inOrder : i ∈ order := perm.mem_iff.2 (List.mem_range.2 inBounds)
  obtain ⟨⟨j, id⟩, member, entry, ⟨rfl, t, there, declares⟩, rfl, base, made, embodies⟩ :=
    exists_of_forall₂ related.flip inOrder
  have recorded : (image.inOrder found).get ⟨entry.1, inBounds'⟩ = id := by
    simp [Image.inOrder, Table.lookup_of_mem distinct member]
  have inPlace : image.types.get ⟨entry.1, inBounds⟩ = t := by
    rw [List.getElem?_eq_getElem inBounds] at there
    exact Option.some.inj there
  rw [recorded, inPlace]
  exact ⟨_, declares.transcribed placed (plain t (List.mem_of_getElem? there)) embodies⟩

/-- Every method of an image is, once it is loaded, on the type that declares it. -/
theorem transcribed_of_load {s after : State} {ids : List TypeId} {m : MethodDef}
    (reached : s.Reachable) (loaded : image.load s = (.ok ids, after))
    (member : m ∈ image.methods) :
    ∃ id ∈ ids, ∃ method ∈ after.domain.methods, after.domain.lookup m.declaring = some id ∧
      Transcribed image (tokenMap image s.domain.nextToken) id m method := by
  have declared := declared_of_verify (verified_of_load loaded) member
  obtain ⟨t, inImage, declaring⟩ := List.mem_map.1 declared.known
  obtain ⟨id, inIds, info, type⟩ := exists_of_forall₂ (types_of_load reached loaded).flip inImage
  have inType : m ∈ image.methods.filter (·.declaring == t.name) :=
    List.mem_filter.2 ⟨member, by simp [declaring]⟩
  have onType : ∃ method ∈ info.members,
      Transcribed image (tokenMap image s.domain.nextToken) id m method := by
    cases makes : m.kind == .constructor with
    | true =>
      obtain ⟨method, there, transcribed⟩ :=
        exists_of_forall₂ type.constructors.flip (List.mem_filter.2 ⟨inType, makes⟩)
      exact ⟨method, List.mem_append_left _ there, transcribed⟩
    | false =>
      obtain ⟨method, there, transcribed⟩ :=
        exists_of_forall₂ type.methods.flip (List.mem_filter.2 ⟨inType, by rw [bne, makes]; rfl⟩)
      exact ⟨method, List.mem_append_right _ there, transcribed⟩
  obtain ⟨method, inMembers, transcribed⟩ := onType
  have inTypes : info ∈ after.domain.types.toList := Array.mem_toList_iff.2 (Array.mem_of_getElem? type.there)
  refine ⟨id, inIds, method, List.mem_flatMap.2 ⟨info, inTypes, inMembers⟩, ?_, transcribed⟩
  rw [← declaring]
  exact type.lookup

/-- What a host is like that took in an image, where tokens of the image go to others, and types to
others in their order. -/
structure Embedded (image : Image) (f : MethodToken → MethodToken) (s : State) (ids : List TypeId)
    (after : State) : Prop where
  /-- One type for each type of the image, in its order, with its methods in theirs. -/
  types : Forall₂ (fun t id => ∃ info, TypeTranscribed image f after.domain t id info)
    image.types ids
  distinct : ids.Nodup
  fresh : ∀ id ∈ ids, s.domain.get? id = none
  /-- These are all the new types. -/
  size : after.domain.types.size = s.domain.types.size + image.types.length
  /-- No two methods go to one token, and none to the token of an older method. -/
  injective : ∀ m ∈ image.methods, ∀ n ∈ image.methods, f m.token = f n.token → m.token = n.token
  unused : ∀ m ∈ image.methods, s.domain.method? (f m.token) = none
  /-- Every method is found under its token, on the type that declares it, and nowhere else. -/
  methods : ∀ m ∈ image.methods, ∃ id ∈ ids, ∃ method, after.domain.lookup m.declaring = some id ∧
    after.domain.method? (f m.token) = some method ∧ Transcribed image f id m method
  once : ∀ m ∈ image.methods, (after.domain.methods.map (·.token)).count (f m.token) = 1
  /-- What was there is there as it was. -/
  olderTypes : ∀ id info, s.domain.get? id = some info → after.domain.get? id = some info
  olderMethods : ∀ t m, s.domain.method? t = some m → after.domain.method? t = some m
  names : ∀ name id, s.domain.lookup name = some id → after.domain.lookup name = some id
  arrays : ∀ element id, s.domain.findArray? element = some id →
    after.domain.findArray? element = some id
  heap : after.heap = s.heap
  statics : ∀ id slot v, s.static? id slot = some v → after.static? id slot = some v

/-- A host that accepts an image has it embedded from then on. -/
theorem embedded_of_load {s after : State} {ids : List TypeId} (reached : s.Reachable)
    (loaded : image.load s = (.ok ids, after)) :
    Embedded image (tokenMap image s.domain.nextToken) s ids after := by
  have types := types_of_load reached loaded
  have installed := installed_of_load loaded
  have numbered := (reached.evolves.trans (evolves_of_load loaded)).numbered Domain.numbered_empty
  obtain ⟨order, decls, found, admitted, declared, defined, -⟩ := load_eq_ok loaded
  obtain ⟨admissible, perm, -⟩ := definitionOrder_eq_ok admitted.ordered
  have took := took_of_defineAll defined
  have same : (image.reserved s).domain.types = s.domain.types := Domain.types_reserveTokens _ _
  have keeps : s.domain.Keeps after.domain := (Keeps.of_types_eq same).trans took.keeps
  have mapsTo : ∀ m ∈ image.methods, image.mappedToken? s.domain.nextToken m.token =
      some (tokenMap image s.domain.nextToken m.token) := by
    intro m member
    obtain ⟨_, becomes, -⟩ := installed m member
    exact tokenMap_eq (Option.isSome_of_eq_some becomes.token)
  constructor
  case types => exact types
  case distinct =>
    -- The ids have the names of the types of the image, which are distinct.
    have names : ids.map (fun id => (after.domain.get? id).map (·.name)) =
        image.types.map fun t => some t.name := by
      rw [← List.forall₂_eq_eq_eq, List.forall₂_map_left_iff, List.forall₂_map_right_iff]
      refine types.flip.imp ?_
      rintro id t ⟨info, transcribed⟩
      rw [transcribed.there, Option.map_some, transcribed.name]
    have distinct := (nodup_types_of_verify admitted.verified).map fun _ _ => Option.some.inj
    rw [List.map_map] at distinct
    refine List.Nodup.of_map (fun id => (after.domain.get? id).map (·.name)) ?_
    rw [names]
    exact distinct
  case fresh =>
    intro id member
    obtain ⟨t, inImage, info, transcribed⟩ := exists_of_forall₂ types member
    cases old : s.domain.get? id with
    | none => rfl
    | some older =>
      -- It would have a name that is new.
      cases (keeps.grown.get? old).symm.trans transcribed.there
      exact (Domain.find?_eq_none_iff.1 (admissible t inImage).new _ (Array.mem_of_getElem? old)
        transcribed.name).elim
  case size =>
    have length := (forall₂_of_declarations
      (fun i member => List.mem_range.1 (perm.subset member)) declared).length_eq
    rw [took.size, same, ← length, perm.length_eq, List.length_range]
  case injective =>
    intro m member n member' equal
    have known := mapsTo m member
    rw [equal] at known
    exact mappedToken?_inj admitted.room known (mapsTo n member')
  case unused =>
    intro m member
    refine Domain.method?_eq_none_iff.2 (Domain.Numbered.unused ?_ ?_)
    · exact reached.evolves.numbered Domain.numbered_empty
    · exact le_mappedToken? admitted.room (mapsTo m member)
  case methods =>
    intro m member
    obtain ⟨id, inIds, method, inDomain, found, transcribed⟩ :=
      transcribed_of_load reached loaded member
    refine ⟨id, inIds, method, found, ?_, transcribed⟩
    rw [← transcribed.token]
    exact numbered.method?_of_mem inDomain
  case once =>
    intro m member
    obtain ⟨_, _, method, inDomain, _, transcribed⟩ := transcribed_of_load reached loaded member
    rw [← transcribed.token]
    exact List.count_eq_one_of_mem numbered.distinct (List.mem_map_of_mem inDomain)
  case olderTypes => exact fun id info => keeps.grown.get?
  case olderMethods => exact fun t m => keeps.grown.method?
  case names =>
    intro name id known
    obtain ⟨info, found, rfl⟩ := Option.map_eq_some_iff.1 known
    exact Option.map_eq_some_iff.2 ⟨info, keeps.finds found, rfl⟩
  case arrays => exact fun element id => keeps.grown.findArray?
  case heap => exact took.heap
  case statics =>
    intro id slot v holds
    obtain ⟨rows, statics⟩ := took.statics
    exact static?_of_append statics holds

/-- A ring is made on a disc, which stands behind it, and the methods of the two are mixed up and
name each other. -/
def rings : Image where
  name := "Rings"
  types := [{ name := "Ring", base := some "Disc" }, { name := "Disc", base := some "Sketch" }]
  methods := [
    { token := ⟨9⟩, declaring := "Disc", name := "Punch", kind := .static, ret := .named "Ring"
      body := some { code := #[.newObj ⟨4⟩, .ret] } },
    { token := ⟨2⟩, declaring := "Ring", name := "Again", kind := .static, ret := .named "Ring"
      body := some { code := #[.call ⟨9⟩, .ret] } },
    { token := ⟨4⟩, declaring := "Ring", name := ".ctor", kind := .constructor
      body := some { code := #[.ret] } }]

/-- The types come in the order of the image, not in that of their definition, and the methods get
the tokens after the one that is in use. -/
theorem embedded_rings :
    sketched.Reachable ∧ ((rings.load sketched).2.domain.types.toList.map (·.name)) =
        ["System.Object", "Sketch", "Disc", "Ring"] ∧
      Embedded rings (tokenMap rings 2) sketched [⟨3⟩, ⟨2⟩] (rings.load sketched).2 ∧
      ((rings.load sketched).2.domain.method? ⟨3⟩).map (·.body) =
        some (.code { code := #[.call ⟨2⟩, .ret] }) := by
  have loaded : rings.load sketched = (.ok [⟨3⟩, ⟨2⟩], (rings.load sketched).2) :=
    Prod.ext (by with_unfolding_all decide) rfl
  exact ⟨reachable_sketched, by with_unfolding_all decide,
    embedded_of_load reachable_sketched loaded, by with_unfolding_all decide⟩

end ScriptHost.Image
