import ScriptHost.CommandLine.Files
import ScriptHost.Proofs.Tables
/-!
Reading after writing. A file that was written is read as it was written, and all other paths mean
what they meant before: writing makes no directories.
-/
namespace ScriptHost.CommandLine.Files

variable {files : Files} {place : List String} {text : String}

/-! ## Directories -/

theorem isDirectory_iff {d : List String} :
    files.isDirectory d = true ↔
      d = [] ∨ ∃ key ∈ files.keys, d <+: key ∧ d.length < key.length := by
  simp [isDirectory, List.isEmpty_iff, List.any_eq_true]

/-- What leads to a directory is a directory. -/
theorem isDirectory_of_shorter {d e : List String} (leads : d <+: e)
    (directory : files.isDirectory e = true) : files.isDirectory d = true := by
  rw [isDirectory_iff] at directory ⊢
  rcases directory with rfl | ⟨key, member, inside, shorter⟩
  · exact .inl (List.prefix_nil.1 leads)
  · exact .inr ⟨key, member, leads.trans inside, Nat.lt_of_le_of_lt leads.length_le shorter⟩

theorem keys_insert (files : Files) (place : List String) (text : String) :
    (files.insert place text).keys =
      if files.contains place then files.keys else files.keys ++ [place] := by
  unfold Table.insert Table.keys
  split
  · rw [List.map_map]
    apply List.map_congr_left
    intro e _
    by_cases same : e.1 = place <;> simp [same]
  · simp

theorem contains_insert (files : Files) (place : List String) (text : String)
    (other : List String) :
    (files.insert place text).contains other = (files.contains other || other == place) := by
  unfold Table.contains
  rw [Table.find?_insert]
  by_cases same : other = place <;> simp [same]

/-- A place for a file: in a directory that is there, and no directory itself. -/
structure Open (files : Files) (place : List String) : Prop where
  inside : ∃ here name, place = here ++ [name] ∧ files.isDirectory here = true
  noDirectory : files.contains place = true ∨ files.isDirectory place = false

/-- A file in a directory that is there makes no other directory. -/
theorem isDirectory_insert (isOpen : Open files place) (text : String) (d : List String) :
    isDirectory (files.insert place text) d = files.isDirectory d := by
  obtain ⟨here, name, rfl, directory⟩ := isOpen.inside
  rw [Bool.eq_iff_iff, isDirectory_iff, isDirectory_iff, keys_insert]
  split
  · rfl
  constructor
  · rintro (top | ⟨key, member, leads, shorter⟩)
    · exact .inl top
    rcases List.mem_append.1 member with old | new
    · exact .inr ⟨key, old, leads, shorter⟩
    · obtain rfl := List.mem_singleton.1 new
      rcases List.prefix_concat_iff.1 leads with rfl | leads
      · exact absurd shorter (Nat.lt_irrefl _)
      · exact isDirectory_iff.1 (isDirectory_of_shorter leads directory)
  · rintro (top | ⟨key, member, leads, shorter⟩)
    · exact .inl top
    · exact .inr ⟨key, List.mem_append_left _ member, leads, shorter⟩

/-! ## Following paths -/

/-- A path ends at a file, or where there may be one. -/
def EndsAt (files : Files) (here path place : List String) : Prop :=
  files.follow here path = .file place ∨ files.follow here path = .free place

/-- A path from a directory ends in a directory. -/
theorem open_of_follow {here path : List String} (directory : files.isDirectory here = true)
    (ends : files.EndsAt here path place) : Open files place := by
  unfold EndsAt at ends
  fun_induction follow files here path with
  | case1 | case5 | case8 | case9 => rcases ends with ends | ends <;> cases ends
  | case2 here name rest skips ih => exact ih directory ends
  | case3 here rest _ ih =>
    exact ih (isDirectory_of_shorter (List.dropLast_prefix here) directory) ends
  | case4 here name rest _ _ next present _ =>
    rcases ends with ends | ends
    · obtain rfl := Place.file.inj ends
      exact ⟨⟨here, name, rfl, directory⟩, .inl present⟩
    · cases ends
  | case6 here name rest _ _ next _ isDirectory ih => exact ih isDirectory ends
  | case7 here name rest _ _ next _ notDirectory _ =>
    rcases ends with ends | ends
    · cases ends
    · obtain rfl := Place.free.inj ends
      exact ⟨⟨here, name, rfl, directory⟩, .inr (eq_false_of_ne_true notDirectory)⟩

/-- Where nothing is there is no file yet. -/
theorem contains_of_follow {here path : List String} :
    (files.follow here path = .file place → files.contains place = true) ∧
      (files.follow here path = .free place → files.contains place = false) := by
  fun_induction follow files here path with
  | case1 | case5 | case8 | case9 => exact ⟨nofun, nofun⟩
  | case2 here name rest skips ih => exact ih
  | case3 here rest _ ih => exact ih
  | case4 here name rest _ _ next present _ =>
    exact ⟨fun ends => Place.file.inj ends ▸ present, nofun⟩
  | case6 here name rest _ _ next _ isDirectory ih => exact ih
  | case7 here name rest _ _ next absent _ _ =>
    exact ⟨nofun, fun ends => Place.free.inj ends ▸ eq_false_of_ne_true absent⟩

/-- After a file was written, paths end where they ended, those to that file at it. -/
theorem follow_insert (isOpen : Open files place) (text : String) {here path other : List String}
    (ends : files.follow here path = .file other ∨
      other = place ∧ files.follow here path = .free other) :
    follow (files.insert place text) here path = .file other := by
  fun_induction follow files here path with
  | case1 | case5 | case8 | case9 => rcases ends with ends | ⟨_, ends⟩ <;> cases ends
  | case2 here name rest skips ih =>
    rw [follow, if_pos skips]
    exact ih ends
  | case3 here rest shown ih =>
    rw [follow, if_neg shown, if_pos rfl]
    exact ih ends
  | case4 here name rest shown down next present last =>
    have present' : Table.contains (files.insert place text) next = true := by
      rw [contains_insert, present, Bool.true_or]
    rw [follow, if_neg shown, if_neg down]
    dsimp only
    rw [if_pos present', if_pos last]
    rcases ends with ends | ⟨_, ends⟩
    · exact ends
    · cases ends
  | case6 here name rest shown down next absent directory ih =>
    have apart : next ≠ place := by
      rintro rfl
      rcases isOpen.noDirectory with present | noDirectory
      · exact absent present
      · rw [noDirectory] at directory
        cases directory
    have absent' : ¬ Table.contains (files.insert place text) next = true := by
      rw [contains_insert, eq_false_of_ne_true absent, Bool.false_or, beq_iff_eq]
      exact apart
    rw [follow, if_neg shown, if_neg down]
    dsimp only
    rw [if_neg absent', if_pos ((isDirectory_insert isOpen text next).trans directory)]
    exact ih ends
  | case7 here name rest shown down next absent notDirectory last =>
    rcases ends with ends | ⟨rfl, ends⟩
    · cases ends
    · obtain rfl := Place.free.inj ends
      have present' : Table.contains (files.insert next text) next = true := by
        rw [contains_insert, beq_self_eq_true, Bool.or_true]
      rw [follow, if_neg shown, if_neg down]
      dsimp only
      rw [if_pos present', if_pos last]

/-! ## Paths -/

/-- A path that leads to a place is followed from the topmost directory. -/
theorem locate_eq_follow {path : String}
    (ends : files.locate path = .file place ∨ files.locate path = .free place) :
    ∀ files' : Files, files'.locate path = files'.follow [] (names path) := by
  intro files'
  unfold locate at ends ⊢
  split at ends
  · split at ends <;> rcases ends with ends | ends <;> cases ends
  · rfl

variable {files' : Files} {path : String}

/-- Writing gives a text to the file at a path, which may be a new one. -/
theorem write_eq_ok_iff : files.write path text = .ok files' ↔
    ∃ place, (files.locate path = .file place ∨ files.locate path = .free place) ∧
      files' = files.insert place text := by
  unfold write
  split
  · rename_i there located
    simp [located, eq_comm]
  · rename_i there located
    simp [located, eq_comm]
  · rename_i located
    simp [located]
  · rename_i located
    simp [located]
  · rename_i located
    simp [located]

/-- The path to a file that was written leads to it. -/
theorem locate_write (written : files.write path text = .ok files') :
    ∃ place, files' = files.insert place text ∧ files'.locate path = .file place := by
  obtain ⟨place, ends, rfl⟩ := write_eq_ok_iff.1 written
  have located := locate_eq_follow ends
  refine ⟨place, rfl, ?_⟩
  rw [located] at ends
  have isOpen := open_of_follow (by simp [isDirectory]) ends
  rw [located]
  apply follow_insert isOpen
  rcases ends with ends | ends
  · exact .inl ends
  · exact .inr ⟨rfl, ends⟩

/-- What was written is read. -/
theorem read_write (written : files.write path text = .ok files') : files'.read path = .ok text := by
  obtain ⟨place, rfl, there⟩ := locate_write written
  unfold read
  rw [there]
  dsimp only
  rw [Table.find?_insert_self]
  rfl

/-- A file that was written may be written again. -/
theorem write_again (written : files.write path text = .ok files') (other : String) :
    ∃ files'', files'.write path other = .ok files'' := by
  obtain ⟨place, rfl, there⟩ := locate_write written
  exact ⟨_, write_eq_ok_iff.2 ⟨place, .inl there, rfl⟩⟩

/-- Files that were there and are not the one that is written are read as before. -/
theorem read_write_of_ne {other : String} {before : String}
    (written : files.write path text = .ok files') (found : files.read other = .ok before)
    (apart : files.locate other ≠ files.locate path) : files'.read other = .ok before := by
  obtain ⟨place, ends, rfl⟩ := write_eq_ok_iff.1 written
  unfold read at found ⊢
  cases located : files.locate other with
  | file there =>
    rw [located] at found apart
    have isOpen : Open files place := by
      rw [locate_eq_follow ends] at ends
      exact open_of_follow (by simp [isDirectory]) ends
    have follows := locate_eq_follow (.inl located)
    rw [follows] at located
    have distinct : there ≠ place := by
      rintro rfl
      rcases ends with ends | ends
      · exact apart ends.symm
      · have present := contains_of_follow.1 located
        rw [locate_eq_follow (.inr ends)] at ends
        rw [contains_of_follow.2 ends] at present
        cases present
    have located' : locate (files.insert place text) other = .file there := by
      rw [follows]
      exact follow_insert isOpen text (.inl located)
    rw [located']
    dsimp only at found ⊢
    rw [Table.find?_insert, if_neg distinct]
    exact found
  | _ =>
    rw [located] at found
    cases found

/-! ## Single names -/

theorem names_eq (path : String) : names path = (path.toList.splitOn '/').map String.ofList :=
  String.toList_split_char

/-- A single name leads to a file of the topmost directory. -/
theorem locate_name {name : String} (single : names name = [name])
    (shown : ¬ (name = "" ∨ name = ".") ∧ name ≠ "..") (files : Files) :
    (files.contains [name] = true → files.locate name = .file [name]) ∧
      (files.contains [name] = false → files.isDirectory [name] = false →
        files.locate name = .free [name]) := by
  have located : files.locate name = files.follow [] [name] := by
    unfold locate
    rw [single]
    split
    · rename_i rest same
      cases same
      exact absurd (.inl rfl) shown.1
    · rfl
  rw [located, follow, if_neg shown.1, if_neg shown.2]
  constructor
  · intro present
    exact if_pos present
  · intro absent noDirectory
    dsimp only [List.nil_append]
    rw [absent, noDirectory]
    rfl

theorem read_name {name : String} (single : names name = [name])
    (shown : ¬ (name = "" ∨ name = ".") ∧ name ≠ "..") {files : Files} {text : String}
    (found : files.find? [name] = some text) : files.read name = .ok text := by
  have present : files.contains [name] = true := by
    unfold Table.contains
    rw [found]
    rfl
  unfold read
  rw [(locate_name single shown files).1 present]
  dsimp only
  rw [found]
  rfl

/-- A file with a single name that is there may be written. -/
theorem write_name {name : String} (single : names name = [name])
    (shown : ¬ (name = "" ∨ name = ".") ∧ name ≠ "..") {files : Files}
    (present : files.contains [name] = true) (text : String) :
    files.write name text = .ok (files.insert [name] text) :=
  write_eq_ok_iff.2 ⟨[name], .inl ((locate_name single shown files).1 present), rfl⟩

end ScriptHost.CommandLine.Files
