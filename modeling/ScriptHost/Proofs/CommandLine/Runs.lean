import ScriptHost.CommandLine.Run
import ScriptHost.Proofs.CommandLine.Files
/-!
What the tasks of the command line come to on a set of files. Each of them reads first, and only an
injection that has all that it is to write touches a file.
-/
namespace ScriptHost.CommandLine

open Files (fileAccess)

variable {α β : Type} {files : Files}

/-! ## Jobs -/

/-- The second part of a job runs where the first one ended, unless that one failed. -/
theorem Job.bind_apply (first : Job (StateM Files) α) (second : α → Job (StateM Files) β)
    (files : Files) :
    (first >>= second) files =
      match first files with
      | (.ok a, after) => second a after
      | (.error t, after) => (.error t, after) := by
  show ExceptT.bind first second files = _
  simp only [ExceptT.bind, ExceptT.mk, ExceptT.bindCont, bind, StateT.bind]
  cases first files with
  | mk result after => cases result <;> rfl

/-- A path leads to the text of an image. -/
def ImageAt (files : Files) (path : String) (image : Image) : Prop :=
  ∃ text, files.read path = .ok text ∧ Image.decode? text = some image

theorem ImageAt.unique {path : String} {image other : Image} (there : ImageAt files path image)
    (there' : ImageAt files path other) : image = other := by
  obtain ⟨text, read, decoded⟩ := there
  obtain ⟨text', read', decoded'⟩ := there'
  cases read.symm.trans read'
  exact Option.some.inj (decoded.symm.trans decoded')

/-- The options are left out, or their path leads to a configuration that is accepted. -/
def Configured (files : Files) (config : Option String) : Prop :=
  ∀ path, config = some path →
    ∃ text options, files.read path = .ok text ∧ Options.parse text = .ok options

/-- Reading a file is done before anything else is. -/
theorem read_bind_apply (path : String) (rest : Except FileError String → Job (StateM Files) α)
    (files : Files) :
    ((fileAccess.read path : Job (StateM Files) (Except FileError String)) >>= rest) files =
      rest (files.read path) files := rfl

/-- A file that cannot be written is left as it was. -/
theorem write_bind_apply (path text : String) (rest : Except FileError Unit → Job (StateM Files) α)
    (files : Files) :
    ((fileAccess.write path text : Job (StateM Files) (Except FileError Unit)) >>= rest) files =
      match files.write path text with
      | .ok after => rest (.ok ()) after
      | .error e => rest (.error e) files := by
  show (let (result, after) := fileAccess.write path text files; rest result after) = _
  unfold fileAccess
  dsimp only
  cases files.write path text <;> rfl

theorem readImage_cases (files : Files) (path : String) :
    (∃ image, ImageAt files path image ∧ readImage fileAccess path files = (.ok image, files)) ∨
      (∀ image, ¬ ImageAt files path image) ∧
        ∃ t, t.code = 1 ∧ readImage fileAccess path files = (.error t, files) := by
  unfold readImage
  rw [read_bind_apply]
  cases read : files.read path with
  | error e =>
    refine .inr ⟨?_, _, rfl, rfl⟩
    rintro image ⟨text, found, _⟩
    cases read.symm.trans found
  | ok text =>
    dsimp only
    cases decoded : Image.decode? text with
    | some image => exact .inl ⟨image, ⟨text, read, decoded⟩, rfl⟩
    | none =>
      refine .inr ⟨?_, _, rfl, rfl⟩
      rintro image ⟨text', found, is⟩
      cases read.symm.trans found
      cases decoded.symm.trans is

theorem readOptions_cases (files : Files) (config : Option String) :
    (Configured files config ∧
        ∃ options, readOptions fileAccess config files = (.ok options, files)) ∨
      ¬ Configured files config ∧
        ∃ t, t.code = 1 ∧ readOptions fileAccess config files = (.error t, files) := by
  cases config with
  | none => exact .inl ⟨nofun, {}, rfl⟩
  | some path =>
    unfold readOptions
    dsimp only
    rw [read_bind_apply]
    cases read : files.read path with
    | error e =>
      refine .inr ⟨?_, _, ?_, rfl⟩
      · intro configured
        obtain ⟨text, _, found, _⟩ := configured path rfl
        cases read.symm.trans found
      · rfl
    | ok text =>
      dsimp only
      cases parsed : Options.parse text with
      | ok options =>
        refine .inl ⟨?_, options, rfl⟩
        rintro _ ⟨⟩
        exact ⟨text, options, read, parsed⟩
      | error e =>
        have refused : ¬ Configured files (some path) := by
          intro configured
          obtain ⟨text', options, found, accepted⟩ := configured path rfl
          cases read.symm.trans found
          cases parsed.symm.trans accepted
        cases e <;> exact .inr ⟨refused, _, rfl, rfl⟩

/-! ## Tasks -/

/-- An image passes the check, and an empty host takes it in. -/
def Accepted (image : Image) : Prop :=
  image.verify = .ok () ∧ ∃ ids, (image.load {}).1 = .ok ids

theorem verify_cases (files : Files) (input : String) :
    (∃ image text, ImageAt files input image ∧ Accepted image ∧
        verify fileAccess input files = (.ok text, files)) ∨
      (∀ image, ImageAt files input image → ¬ Accepted image) ∧
        ∃ t, t.code = 1 ∧ verify fileAccess input files = (.error t, files) := by
  unfold verify
  rw [Job.bind_apply]
  rcases readImage_cases files input with ⟨image, there, read⟩ | ⟨nowhere, t, code, read⟩
  · rw [read]
    dsimp only
    have refuse : ¬ Accepted image → ∀ other, ImageAt files input other → ¬ Accepted other := by
      intro refused other there'
      rw [← there.unique there']
      exact refused
    cases verified : image.verify with
    | error e =>
      refine .inr ⟨refuse ?_, _, rfl, rfl⟩
      rintro ⟨passes, _⟩
      cases verified.symm.trans passes
    | ok passes =>
      cases loaded : image.load {} with
      | mk result after =>
        cases result with
        | error e =>
          refine .inr ⟨refuse ?_, _, rfl, rfl⟩
          rintro ⟨_, ids, takes⟩
          rw [loaded] at takes
          cases takes
        | ok ids => exact .inl ⟨image, _, there, ⟨verified, ids, by rw [loaded]⟩, rfl⟩
  · rw [read]
    exact .inr ⟨fun image there => absurd there (nowhere image), t, code, rfl⟩

theorem signatures_cases (files : Files) (input : String) (patchable : Bool) :
    (∃ text, signatures fileAccess input patchable files = (.ok text, files)) ∨
      ∃ t, t.code = 1 ∧ signatures fileAccess input patchable files = (.error t, files) := by
  unfold signatures
  rw [Job.bind_apply]
  rcases readImage_cases files input with ⟨image, there, read⟩ | ⟨nowhere, t, code, read⟩
  · rw [read]
    exact .inl ⟨_, rfl⟩
  · rw [read]
    exact .inr ⟨t, code, rfl⟩

/-- An injection that has all that it needs: the image, its injected form, and a file to write. -/
structure Injects (files : Files) (input target : String) (image injected : Image)
    (after : Files) : Prop where
  there : ImageAt files input image
  injection : ∃ report, image.inject = .ok (injected, report)
  written : files.write target injected.encode = .ok after

theorem inject_cases (files : Files) (input : String) (output : Option String) (json : Bool) :
    (∃ image injected after text, Injects files input (output.getD input) image injected after ∧
        inject fileAccess input output json files = (.ok text, after)) ∨
      (∀ image injected after, ¬ Injects files input (output.getD input) image injected after) ∧
        ∃ t, inject fileAccess input output json files = (.error t, files) ∧
          (t.code = 1 ∨ t.code = panicCode ∧ ∃ image e, ImageAt files input image ∧
            image.inject = .error e ∧ e.panic?.isSome = true) := by
  unfold inject
  rw [Job.bind_apply]
  rcases readImage_cases files input with ⟨image, there, read⟩ | ⟨nowhere, t, code, read⟩
  · rw [read]
    dsimp only
    cases result : image.inject with
    | error e =>
      dsimp only
      have refused : ∀ other injected after,
          ¬ Injects files input (output.getD input) other injected after := by
        intro other injected after injects
        obtain ⟨report, injection⟩ := injects.injection
        rw [← there.unique injects.there, result] at injection
        cases injection
      cases panics : e.panic? with
      | some message =>
        exact .inr ⟨refused, _, rfl, .inr ⟨rfl, image, e, there, result, by rw [panics]; rfl⟩⟩
      | none => exact .inr ⟨refused, _, rfl, .inl rfl⟩
    | ok made =>
      obtain ⟨injected, report⟩ := made
      dsimp only
      rw [write_bind_apply]
      cases written : files.write (output.getD input) injected.encode with
      | error e =>
        refine .inr ⟨?_, _, rfl, .inl rfl⟩
        intro other form after injects
        obtain ⟨report', injection⟩ := injects.injection
        rw [← there.unique injects.there, result] at injection
        cases injection
        cases written.symm.trans injects.written
      | ok after =>
        have injects : Injects files input (output.getD input) image injected after :=
          ⟨there, ⟨report, result⟩, written⟩
        cases json <;> exact .inl ⟨image, injected, after, _, injects, rfl⟩
  · rw [read]
    exact .inr ⟨fun image _ _ injects => nowhere image injects.there, t, rfl, .inl code⟩

/-! ## Runs -/

/-- What a run leaves behind after the task. -/
def Finish.ofTask : Except Trouble String → Finish
  | .ok output => ⟨0, output, ""⟩
  | .error t => ⟨t.code, "", t.text⟩

variable {arguments : List String} {config : Option String} {input : String}

theorem run_of_parse {request : Request} (parsed : Request.parse arguments = .ok request)
    (files : Files) :
    run fileAccess arguments files =
      (.ofTask (carryOut fileAccess request files).1, (carryOut fileAccess request files).2) := by
  unfold run
  rw [parsed]
  show (let (result, after) := carryOut fileAccess request files
    (match result with
      | .ok output => pure ⟨0, output, ""⟩
      | .error t => pure ⟨t.code, "", t.text⟩ : StateM Files Finish) after) = _
  cases carryOut fileAccess request files with
  | mk result after => cases result <;> rfl

/-- A command line that is not read to its end touches no file. -/
theorem run_of_early {early : Early} (parsed : Request.parse arguments = .error early)
    (files : Files) : (run fileAccess arguments files).2 = files := by
  unfold run
  rw [parsed]
  cases early <;> rfl

/-- The options are read before anything else is done. -/
theorem carryOut_cases (files : Files) (request : Request) :
    (Configured files request.config ∧ carryOut fileAccess request files =
        (match request.task with
          | .inject input output json => inject fileAccess input output json
          | .verify input => verify fileAccess input
          | .signatures input patchable => signatures fileAccess input patchable) files) ∨
      ¬ Configured files request.config ∧
        ∃ t, t.code = 1 ∧ carryOut fileAccess request files = (.error t, files) := by
  unfold carryOut
  rw [Job.bind_apply]
  rcases readOptions_cases files request.config with ⟨configured, options, read⟩ |
    ⟨refused, t, code, read⟩
  · rw [read]
    exact .inl ⟨configured, rfl⟩
  · rw [read]
    exact .inr ⟨refused, t, code, rfl⟩

/-- A check succeeds exactly if the options and the image are in order. -/
theorem verify_succeeds_iff (parsed : Request.parse arguments = .ok ⟨config, .verify input⟩)
    (files : Files) : (run fileAccess arguments files).1.code = 0 ↔
      Configured files config ∧ ∃ image, ImageAt files input image ∧ Accepted image := by
  rw [run_of_parse parsed]
  rcases carryOut_cases files ⟨config, .verify input⟩ with ⟨configured, carried⟩ |
    ⟨refused, t, code, carried⟩
  · rw [carried]
    dsimp only
    rcases verify_cases files input with ⟨image, text, there, accepted, verified⟩ |
      ⟨none, t, code, verified⟩
    · rw [verified]
      exact ⟨fun _ => ⟨configured, image, there, accepted⟩, fun _ => rfl⟩
    · rw [verified]
      simp only [Finish.ofTask, code]
      constructor
      · rintro ⟨⟩
      · rintro ⟨_, image, there, accepted⟩
        exact absurd accepted (none image there)
  · rw [carried]
    simp only [Finish.ofTask, code]
    constructor
    · rintro ⟨⟩
    · rintro ⟨configured, _⟩
      exact absurd configured refused

/-- An injection succeeds exactly if the options and the image are in order and the result can be
written, and that is what it leaves. -/
theorem inject_succeeds_iff {output : Option String} {json : Bool}
    (parsed : Request.parse arguments = .ok ⟨config, .inject input output json⟩) (files : Files) :
    ((run fileAccess arguments files).1.code = 0 ↔ Configured files config ∧
      ∃ image injected after, Injects files input (output.getD input) image injected after) ∧
    ((run fileAccess arguments files).1.code = 0 → ∃ image injected,
      Injects files input (output.getD input) image injected (run fileAccess arguments files).2) ∧
    ((run fileAccess arguments files).1.code ≠ 0 → (run fileAccess arguments files).2 = files) := by
  rw [run_of_parse parsed]
  rcases carryOut_cases files ⟨config, .inject input output json⟩ with ⟨configured, carried⟩ |
    ⟨refused, t, code, carried⟩
  · rw [carried]
    dsimp only
    rcases inject_cases files input output json with ⟨image, injected, after, text, injects, done⟩ |
      ⟨none, t, done, code⟩
    · rw [done]
      exact ⟨⟨fun _ => ⟨configured, image, injected, after, injects⟩, fun _ => rfl⟩,
        fun _ => ⟨image, injected, injects⟩, fun other => absurd rfl other⟩
    · have failed : t.code ≠ 0 := by
        rcases code with code | ⟨code, _⟩ <;> rw [code] <;> decide
      rw [done]
      refine ⟨⟨fun fine => absurd fine failed, ?_⟩, fun fine => absurd fine failed, fun _ => rfl⟩
      rintro ⟨_, image, injected, after, injects⟩
      exact absurd injects (none image injected after)
  · have failed : t.code ≠ 0 := by
      rw [code]
      decide
    rw [carried]
    refine ⟨⟨fun fine => absurd fine failed, ?_⟩, fun fine => absurd fine failed, fun _ => rfl⟩
    rintro ⟨configured, _⟩
    exact absurd configured refused

/-- An injection that every image at its path refuses ends with a failure. -/
theorem inject_refused {output : Option String} {json : Bool}
    (parsed : Request.parse arguments = .ok ⟨config, .inject input output json⟩)
    (refuses : ∀ image, ImageAt files input image →
      ∃ e, image.inject = .error e ∧ e.panic? = none) :
    (run fileAccess arguments files).1.code = 1 ∧ (run fileAccess arguments files).2 = files := by
  rw [run_of_parse parsed]
  rcases carryOut_cases files ⟨config, .inject input output json⟩ with ⟨_, carried⟩ |
    ⟨_, t, code, carried⟩
  · rw [carried]
    dsimp only
    rcases inject_cases files input output json with ⟨image, injected, after, text, injects, _⟩ |
      ⟨_, t, done, code | ⟨_, image, e, there, failed, panics⟩⟩
    · obtain ⟨e, failed, _⟩ := refuses image injects.there
      obtain ⟨report, injection⟩ := injects.injection
      cases failed.symm.trans injection
    · rw [done]
      exact ⟨code, rfl⟩
    · obtain ⟨e', failed', noPanic⟩ := refuses image there
      cases failed.symm.trans failed'
      rw [noPanic] at panics
      cases panics
  · rw [carried]
    exact ⟨code, rfl⟩

/-- Checks and lists touch no file. -/
theorem files_of_run {request : Request} (parsed : Request.parse arguments = .ok request)
    (reads : ∀ input output json, request.task ≠ .inject input output json) (files : Files) :
    (run fileAccess arguments files).2 = files := by
  rw [run_of_parse parsed]
  rcases carryOut_cases files request with ⟨configured, carried⟩ | ⟨refused, t, code, carried⟩
  · rw [carried]
    cases task : request.task with
    | inject input output json => exact absurd task (reads input output json)
    | verify input =>
      rcases verify_cases files input with ⟨_, _, _, _, done⟩ | ⟨_, _, _, done⟩ <;> simp only [done]
    | signatures input patchable =>
      rcases signatures_cases files input patchable with ⟨_, done⟩ | ⟨_, _, done⟩ <;>
        simp only [done]
  · rw [carried]

end ScriptHost.CommandLine
