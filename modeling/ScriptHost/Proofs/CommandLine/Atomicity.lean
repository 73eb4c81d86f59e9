import ScriptHost.Proofs.CommandLine.Runs
import ScriptHost.Proofs.Image.Levels
import ScriptHost.Proofs.Image.Reinjection
/-!
Runs of the tool change one file or none. What an injection wrote is the injected image, and later
runs on that file find it there.
-/
namespace ScriptHost.CommandLine

open Files (fileAccess)

variable {files after : Files} {arguments : List String} {config : Option String}
  {input target : String} {image injected : Image}

/-! ## After an injection -/

/-- The path of the options does not lead to a file. -/
def Apart (files : Files) (config : Option String) (target : String) : Prop :=
  ∀ path, config = some path → files.locate path ≠ files.locate target

section

variable (injects : Injects files input target image injected after)
include injects

/-- An injection leaves what it says and nothing else. -/
theorem Injects.after_eq {image' injected' : Image} {after' : Files}
    (injects' : Injects files input target image' injected' after') : after = after' := by
  cases injects.there.unique injects'.there
  obtain ⟨report, injection⟩ := injects.injection
  obtain ⟨report', injection'⟩ := injects'.injection
  cases injection.symm.trans injection'
  exact Except.ok.inj (injects.written.symm.trans injects'.written)

theorem Injects.read : after.read target = .ok injected.encode :=
  Files.read_write injects.written

theorem Injects.read_of_ne {path text : String} (read : files.read path = .ok text)
    (apart : files.locate path ≠ files.locate target) : after.read path = .ok text :=
  Files.read_write_of_ne injects.written read apart

/-- Options that do not lie in the file that was written are still there. -/
theorem Injects.configured (configured : Configured files config)
    (apart : Apart files config target) : Configured after config := by
  intro path given
  obtain ⟨text, options, read, parsed⟩ := configured path given
  exact ⟨text, options, injects.read_of_ne read (apart path given), parsed⟩

/-- The file holds the injected image, unless that nests too deep. -/
theorem Injects.imageAt_iff (noDouble : image.LoadsNoDouble) {other : Image} :
    ImageAt after target other ↔ other = injected ∧ injected.toJson.depth ≤ Json.maxLevels := by
  obtain ⟨report, injection⟩ := injects.injection
  rw [← Image.decode?_encode_eq_some_iff (Image.loadsNoDouble_of_inject noDouble injection)]
  unfold ImageAt
  rw [injects.read]
  simp

/-- The check and an empty host say of the injected image what they say of the image. -/
theorem Injects.accepted_iff : Accepted injected ↔ Accepted image := by
  obtain ⟨report, injection⟩ := injects.injection
  unfold Accepted
  rw [(Image.load_of_inject injection {}).1]
  exact and_congr_left fun _ => iff_of_true (Image.verify_of_inject injection)
    (Image.hub_of_inject injection).1

/-- The check of the file succeeds as it did for the image, unless the injected image nests too
deep. -/
theorem Injects.verify_iff (noDouble : image.LoadsNoDouble) (configured : Configured files config)
    (apart : Apart files config target) {before again : List String}
    (checksBefore : Request.parse before = .ok ⟨config, .verify input⟩)
    (checksAgain : Request.parse again = .ok ⟨config, .verify target⟩) :
    (run fileAccess again after).1.code = 0 ↔
      (run fileAccess before files).1.code = 0 ∧ injected.toJson.depth ≤ Json.maxLevels := by
  rw [verify_succeeds_iff checksAgain, verify_succeeds_iff checksBefore]
  constructor
  · rintro ⟨_, other, there, accepted⟩
    obtain ⟨rfl, shallow⟩ := (injects.imageAt_iff noDouble).1 there
    exact ⟨⟨configured, image, injects.there, injects.accepted_iff.1 accepted⟩, shallow⟩
  · rintro ⟨⟨_, other, there, accepted⟩, shallow⟩
    cases injects.there.unique there
    exact ⟨injects.configured configured apart, injected,
      (injects.imageAt_iff noDouble).2 ⟨rfl, shallow⟩, injects.accepted_iff.2 accepted⟩

/-- A file that holds an injected image with a patchable method is not injected again. -/
theorem Injects.again_of_patchable (noDouble : image.LoadsNoDouble)
    (patchable : ∃ m ∈ image.methods, m.attrs.patchable = true) {again : List String}
    {config' output : Option String} {json : Bool}
    (injectsAgain : Request.parse again = .ok ⟨config', .inject target output json⟩) :
    (run fileAccess again after).1.code = 1 ∧ (run fileAccess again after).2 = after := by
  apply inject_refused injectsAgain
  intro other there
  obtain ⟨rfl, _⟩ := (injects.imageAt_iff noDouble).1 there
  obtain ⟨report, injection⟩ := injects.injection
  obtain ⟨m, first⟩ := Option.isSome_iff_exists.1 (List.find?_isSome.2 patchable)
  exact ⟨_, Image.inject_of_cleared injection first (.refl other), rfl⟩

/-- A file without a patchable method may be injected again in its place. -/
theorem Injects.again_of_unpatchable (noDouble : image.LoadsNoDouble)
    (configured : Configured files config) (apart : Apart files config target)
    (unpatchable : ∀ m ∈ image.methods, m.attrs.patchable = false) {again : List String}
    {json : Bool} (injectsAgain : Request.parse again = .ok ⟨config, .inject target none json⟩) :
    (run fileAccess again after).1.code = 0 := by
  obtain ⟨report, injection⟩ := injects.injection
  have none : image.methods.find? (·.attrs.patchable) = none := by
    rw [List.find?_eq_none]
    intro m member
    rw [unpatchable m member]
    exact Bool.false_ne_true
  obtain rfl := Image.eq_of_inject injection none
  obtain ⟨text, _, decoded⟩ := injects.there
  have there := (injects.imageAt_iff noDouble).2 ⟨rfl, Image.shallow_of_decode? decoded⟩
  obtain ⟨last, written⟩ := Files.write_again injects.written injected.encode
  exact (inject_succeeds_iff injectsAgain after).1.2
    ⟨injects.configured configured apart, injected, injected, last, there, ⟨report, injection⟩,
      written⟩

end

/-! ## Atomic runs -/

/-- A run that injects nothing is the same with any way to write. -/
theorem run_of_write (noInjection : ∀ config input output json,
      Request.parse arguments ≠ .ok ⟨config, .inject input output json⟩)
    (write : String → String → StateM Files (Except FileError Unit)) :
    run ⟨fileAccess.read, write⟩ arguments = run fileAccess arguments := by
  unfold run
  cases parsed : Request.parse arguments with
  | error early => cases early <;> rfl
  | ok request =>
    obtain ⟨config, task⟩ := request
    cases task with
    | inject input output json => exact absurd parsed (noInjection config input output json)
    | verify input => rfl
    | signatures input patchable => rfl

/-- Runs of the tool are atomic. A run that does not succeed leaves the files as they were, and one
that is not to inject never writes. An injection that succeeds gives its output file the text of the
injected image and touches no other. If the image loads no doubles, the output is checked with the
result of the input, unless it nests deeper than a text may or took the place of the options; it is
not injected again if the image has a patchable method, and otherwise it is, with the options still
there. -/
theorem atomic_of_run (arguments : List String) (files : Files) :
    ((run fileAccess arguments files).1.code ≠ 0 → (run fileAccess arguments files).2 = files) ∧
    ((∀ config input output json,
        Request.parse arguments ≠ .ok ⟨config, .inject input output json⟩) →
      (run fileAccess arguments files).2 = files ∧
        ∀ write, run ⟨fileAccess.read, write⟩ arguments = run fileAccess arguments) ∧
    ∀ config input output json,
      Request.parse arguments = .ok ⟨config, .inject input output json⟩ →
      (run fileAccess arguments files).1.code = 0 →
      ∃ image injected target place after, target = output.getD input ∧
        after = (run fileAccess arguments files).2 ∧
        Injects files input target image injected after ∧
        after = files.insert place injected.encode ∧ after.read target = .ok injected.encode ∧
        (∀ path text, files.read path = .ok text → files.locate path ≠ files.locate target →
          after.read path = .ok text) ∧
        (image.LoadsNoDouble →
          (Apart files config target → ∀ before again,
            Request.parse before = .ok ⟨config, .verify input⟩ →
            Request.parse again = .ok ⟨config, .verify target⟩ →
            ((run fileAccess again after).1.code = 0 ↔
              (run fileAccess before files).1.code = 0 ∧ injected.toJson.depth ≤ Json.maxLevels)) ∧
          ((∃ m ∈ image.methods, m.attrs.patchable = true) → ∀ again config' output' json',
            Request.parse again = .ok ⟨config', .inject target output' json'⟩ →
            (run fileAccess again after).1.code = 1 ∧ (run fileAccess again after).2 = after) ∧
          ((∀ m ∈ image.methods, m.attrs.patchable = false) → Apart files config target →
            ∀ again json', Request.parse again = .ok ⟨config, .inject target none json'⟩ →
            (run fileAccess again after).1.code = 0)) := by
  refine ⟨?_, fun noInjection => ⟨?_, run_of_write noInjection⟩, ?_⟩
  · intro failed
    cases parsed : Request.parse arguments with
    | error early => exact run_of_early parsed files
    | ok request =>
      obtain ⟨config, task⟩ := request
      cases task with
      | inject input output json => exact (inject_succeeds_iff parsed files).2.2 failed
      | verify input => exact files_of_run parsed (fun _ _ _ => nofun) files
      | signatures input patchable => exact files_of_run parsed (fun _ _ _ => nofun) files
  · cases parsed : Request.parse arguments with
    | error early => exact run_of_early parsed files
    | ok request =>
      apply files_of_run parsed
      intro input output json task
      apply noInjection request.config input output json
      rw [parsed, ← task]
  · intro config input output json parsed succeeded
    obtain ⟨decides, leaves, _⟩ := inject_succeeds_iff parsed files
    obtain ⟨configured, -⟩ := decides.1 succeeded
    obtain ⟨image, injected, injects⟩ := leaves succeeded
    obtain ⟨place, inserted, -⟩ := Files.locate_write injects.written
    refine ⟨image, injected, _, place, _, rfl, rfl, injects, inserted, injects.read,
      fun path text => injects.read_of_ne, fun noDouble => ⟨?_, ?_, ?_⟩⟩
    · intro apart before again checksBefore checksAgain
      exact injects.verify_iff noDouble configured apart checksBefore checksAgain
    · intro patchable again config' output' json' injectsAgain
      exact injects.again_of_patchable noDouble patchable injectsAgain
    · intro unpatchable apart again json' injectsAgain
      exact injects.again_of_unpatchable noDouble configured apart unpatchable injectsAgain

/-- Files with an image under a name. -/
def holding (name : String) (image : Image) : Files :=
  Table.insert {} [name] image.encode

theorem contains_holding (name : String) (image : Image) :
    (holding name image).contains [name] = true := by
  unfold holding Table.contains
  rw [Table.find?_insert_self]
  rfl

theorem names_input : Files.names "in.json" = ["in.json"] := by
  rw [Files.names_eq]
  with_unfolding_all decide

/-- An image that nests no deeper than a text may is read where it is held. -/
theorem imageAt_input {files : Files} {image : Image}
    (found : files.find? ["in.json"] = some image.encode) (noDouble : image.LoadsNoDouble) (shallow : image.toJson.depth ≤ Json.maxLevels) :
    ImageAt files "in.json" image :=
  ⟨image.encode, Files.read_name names_input (by decide) found,
    Image.decode?_encode noDouble shallow⟩

/-- An image with a patchable method is injected in its place, passes the check there, and is not
injected again. -/
theorem atomic_of_wishes :
    (run fileAccess ["inject", "in.json"] (holding "in.json" Image.wishes)).1.code = 0 ∧
    ∃ after, (run fileAccess ["inject", "in.json"] (holding "in.json" Image.wishes)).2 = after ∧
      after.read "in.json" = .ok Image.injectedWishes.encode ∧
      ((run fileAccess ["verify", "in.json"] after).1.code = 0 ↔
        (run fileAccess ["verify", "in.json"] (holding "in.json" Image.wishes)).1.code = 0) ∧
      (run fileAccess ["inject", "in.json"] after).1.code = 1 ∧
      (run fileAccess ["inject", "in.json"] after).2 = after := by
  have parsed : Request.parse ["inject", "in.json"] = .ok ⟨none, .inject "in.json" none false⟩ := by
    decide +kernel
  have checks : Request.parse ["verify", "in.json"] = .ok ⟨none, .verify "in.json"⟩ := by
    decide +kernel
  have noDouble := Image.loadsNoDouble_wishes
  have there : ImageAt (holding "in.json" Image.wishes) "in.json" Image.wishes :=
    imageAt_input (Table.find?_insert_self ..) noDouble (by decide +kernel)
  obtain ⟨report, injection⟩ := Image.inject_wishes
  have written := Files.write_name names_input (by decide)
    (contains_holding "in.json" Image.wishes) Image.injectedWishes.encode
  have succeeded := (inject_succeeds_iff parsed (holding "in.json" Image.wishes)).1.2
    ⟨nofun, _, _, _, there, ⟨report, injection⟩, written⟩
  obtain ⟨_, _, runs⟩ := atomic_of_run ["inject", "in.json"] (holding "in.json" Image.wishes)
  obtain ⟨image, injected, target, _, after, rfl, rfl, injects, -, read, -, again⟩ :=
    runs none "in.json" none false parsed succeeded
  cases there.unique injects.there
  obtain ⟨report', injection'⟩ := injects.injection
  cases injection.symm.trans injection'
  obtain ⟨verifies, refuses, -⟩ := again noDouble
  have shallow : Image.injectedWishes.toJson.depth ≤ Json.maxLevels := by decide +kernel
  refine ⟨succeeded, _, rfl, read, ?_, ?_⟩
  · rw [verifies nofun _ _ checks checks]
    exact and_iff_left shallow
  · exact refuses ⟨Image.grant, by decide, rfl⟩ _ none none false parsed

/-! ## Outputs that cannot be read -/

/-- A text that begins with a brace is no configuration. -/
theorem parse_of_brace {text : String} {rest : List Char} (begins : text.toList = '\x7b' :: rest) :
    Options.parse text = .error .malformed := by
  have refused : Toml.parse? text = none := by
    unfold Toml.parse?
    rw [begins]
    rfl
  unfold Options.parse
  rw [refused]
  rfl

/-- The text of an image begins with a brace. -/
theorem toList_encode (image : Image) : ∃ rest, image.encode.toList = '\x7b' :: rest := by
  unfold Image.encode Json.pretty
  rw [String.toList_ofList]
  exact ⟨_, rfl⟩

/-- An image does not stand in for the options. -/
theorem Injects.unconfigured (injects : Injects files input target image injected after) :
    ¬ Configured after (some target) := by
  intro configured
  obtain ⟨text, options, read, parsed⟩ := configured target rfl
  obtain ⟨rest, begins⟩ := toList_encode injected
  obtain rfl : text = injected.encode := Except.ok.inj (read.symm.trans injects.read)
  rw [parse_of_brace begins] at parsed
  cases parsed

/-- A type with a hub and a method that returns nothing as an array of arrays. -/
def delving (levels : Nat) : Image where
  name := "Delving"
  types := [{ name := "Mine" }]
  methods := [
    { token := ⟨1⟩, declaring := "Mine", name := "Ask", kind := .static, params := Host.hubParams
      ret := .bool, attrs := { patchHub := true } },
    { token := ⟨2⟩, declaring := "Mine", name := "Dig", kind := .static
      ret := Nat.repeat .array levels .object, attrs := { patchable := true }
      body := some { code := #[.ldNull, .ret] } }]

theorem loadsNoDouble_delving (levels : Nat) : (delving levels).LoadsNoDouble := by
  intro m member body is instr inside
  simp only [delving, List.mem_cons, List.not_mem_nil, or_false] at member
  rcases member with rfl | rfl
  · cases is
  · cases is
    simp only [List.mem_toArray, List.mem_cons, List.not_mem_nil, or_false] at inside
    intro x same
    rcases inside with rfl | rfl <;> cases same

/-- Injection adds a local that holds what the method returns, and that stands deeper. -/
theorem inject_delving : ∃ injected report, (delving 123).inject = .ok (injected, report) ∧
    Json.maxLevels < injected.toJson.depth := by
  have deep : ((delving 123).inject.toOption.map fun made => made.1.toJson.depth) = some 128 := by
    decide +kernel
  cases made : (delving 123).inject with
  | error e =>
    rw [made] at deep
    cases deep
  | ok both =>
    obtain ⟨injected, report⟩ := both
    rw [made] at deep
    refine ⟨injected, report, rfl, ?_⟩
    rw [show injected.toJson.depth = 128 from Option.some.inj deep]
    decide

theorem accepted_of_isOk {image : Image} (verified : image.verify.isOk = true)
    (loaded : (image.load {}).1.isOk = true) : Accepted image := by
  constructor
  · cases passes : image.verify with
    | error e =>
      rw [passes] at verified
      cases verified
    | ok u => rfl
  · cases takes : (image.load {}).1 with
    | error e =>
      rw [takes] at loaded
      cases loaded
    | ok ids => exact ⟨ids, rfl⟩

/-- An image passes the check, and what an injection makes of it and writes does not. -/
def Spoils (files : Files) (options : List String) (input target : String) : Prop :=
  (run fileAccess (options ++ ["verify", input]) files).1.code = 0 ∧
    (run fileAccess (options ++ ["inject", input, "-o", target]) files).1.code = 0 ∧
    (run fileAccess (options ++ ["verify", target])
      (run fileAccess (options ++ ["inject", input, "-o", target]) files).2).1.code ≠ 0

theorem Injects.spoils (injects : Injects files input target image injected after)
    (accepted : Accepted image) (configured : Configured files config) {options : List String}
    (checks : Request.parse (options ++ ["verify", input]) = .ok ⟨config, .verify input⟩)
    (parsed : Request.parse (options ++ ["inject", input, "-o", target]) =
      .ok ⟨config, .inject input (some target) false⟩)
    (checksAgain : Request.parse (options ++ ["verify", target]) = .ok ⟨config, .verify target⟩)
    (unread : ¬ (Configured after config ∧ ∃ other, ImageAt after target other)) :
    Spoils files options input target := by
  obtain ⟨decides, leaves, -⟩ := inject_succeeds_iff parsed files
  have succeeds := decides.2 ⟨configured, image, injected, after, injects⟩
  refine ⟨(verify_succeeds_iff checks files).2 ⟨configured, image, injects.there, accepted⟩,
    succeeds, ?_⟩
  obtain ⟨image', injected', injects'⟩ := leaves succeeds
  obtain rfl : after = _ := injects.after_eq injects'
  rw [Ne, verify_succeeds_iff checksAgain]
  rintro ⟨configured', other, there, -⟩
  exact unread ⟨configured', other, there⟩

/-- Two injections into files that then cannot be read: one whose result nests too deep for a text,
and one that takes the place of the options. -/
theorem unread_outputs :
    ((delving 123).LoadsNoDouble ∧
      Spoils (holding "in.json" (delving 123)) [] "in.json" "in.json") ∧
    Image.wishes.LoadsNoDouble ∧
      Spoils ((holding "in.json" Image.wishes).insert ["c.toml"] "") ["--config", "c.toml"]
        "in.json" "c.toml" := by
  refine ⟨⟨loadsNoDouble_delving _, ?_⟩, Image.loadsNoDouble_wishes, ?_⟩
  · obtain ⟨injected, report, injection, deep⟩ := inject_delving
    have injects : Injects (holding "in.json" (delving 123)) "in.json" "in.json" (delving 123)
        injected _ :=
      { there := imageAt_input (Table.find?_insert_self ..) (loadsNoDouble_delving _)
          (by decide +kernel)
        injection := ⟨report, injection⟩
        written := Files.write_name names_input (by decide) (contains_holding ..) _ }
    have configured : Configured (holding "in.json" (delving 123)) none := nofun
    refine injects.spoils (accepted_of_isOk (by decide +kernel) (by decide +kernel)) configured
      (by decide +kernel) (by decide +kernel) (by decide +kernel) ?_
    rintro ⟨-, other, there⟩
    exact absurd ((injects.imageAt_iff (loadsNoDouble_delving _)).1 there).2 (Nat.not_le.2 deep)
  · obtain ⟨report, injection⟩ := Image.inject_wishes
    have names : Files.names "c.toml" = ["c.toml"] := by
      rw [Files.names_eq]
      decide +kernel
    have options : Table.find? ((holding "in.json" Image.wishes).insert ["c.toml"] "") ["c.toml"] =
        some "" := Table.find?_insert_self ..
    have input : Table.find? ((holding "in.json" Image.wishes).insert ["c.toml"] "") ["in.json"] =
        some Image.wishes.encode := by
      rw [Table.find?_insert, if_neg (by decide)]
      exact Table.find?_insert_self ..
    have injects : Injects ((holding "in.json" Image.wishes).insert ["c.toml"] "") "in.json"
        "c.toml" Image.wishes Image.injectedWishes _ :=
      { there := imageAt_input input Image.loadsNoDouble_wishes (by decide +kernel)
        injection := ⟨report, injection⟩
        written := Files.write_name names (by decide) (by rw [Table.contains, options]; rfl) _ }
    have configured : Configured ((holding "in.json" Image.wishes).insert ["c.toml"] "")
        (some "c.toml") := by
      rintro _ ⟨⟩
      exact ⟨"", {}, Files.read_name names (by decide) options, by decide +kernel⟩
    refine injects.spoils (accepted_of_isOk (by decide +kernel) (by decide +kernel)) configured
      (by decide +kernel) (by decide +kernel) (by decide +kernel) ?_
    exact fun still => injects.unconfigured still.1

end ScriptHost.CommandLine
