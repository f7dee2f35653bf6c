import BlockShading.Command.Run
import BlockShading.Proofs.Text.Decoding

/-!
# Files one after the other

What a run prints, how it ended and what it told is one value, and such values can be put one
behind the other: once a failure has occurred, nothing that follows counts. Shading files is
putting the runs on each of them behind each other. Main statement: a run prints what the files up
to the first failing one would print by themselves, and ends in the failure of that one, which has
printed nothing unless it is a line of JSON without a place for its path.
-/

namespace BlockShading.Command

/-- What a run on files leaves: the output and the failure that ended it, with the events told. -/
abbrev Trail := Logged (String × Option Failure)

namespace Trail

/-- One run after another one, which is left out if the first has failed. -/
def followedBy (first next : Trail) : Trail :=
  match first.value.2 with
  | some _ => first
  | none => ⟨(first.value.1 ++ next.value.1, next.value.2), first.events ++ next.events⟩

theorem followedBy_of_failed {first : Trail} {failure : Failure}
    (h : first.value.2 = some failure) (next : Trail) : first.followedBy next = first := by
  simp [followedBy, h]

theorem followedBy_of_done {first : Trail} (h : first.value.2 = none) (next : Trail) :
    first.followedBy next =
      ⟨(first.value.1 ++ next.value.1, next.value.2), first.events ++ next.events⟩ := by
  simp [followedBy, h]

theorem followedBy_assoc (a b c : Trail) :
    (a.followedBy b).followedBy c = a.followedBy (b.followedBy c) := by
  cases ha : a.value.2 with
  | some failure => simp [followedBy_of_failed ha]
  | none => cases hb : b.value.2 <;> simp [followedBy, ha, hb, String.append_assoc]

end Trail

/-- Whether a file can be shaded: it can be read, is a text and has a tree. -/
def World.shades (world : World) (file : RawPath) : Bool :=
  match world.files.readFile file with
  | .error _ => false
  | .ok source =>
    match world.parse source with
    | none => false
    | some rows => (rows.lower source).isOk

/-- Whether a path has a place in a format: any path has in text, and in JSON those that are
texts. -/
def Format.admits (format : Format) (file : RawPath) : Bool :=
  format = .text || file.path?.isSome

/-- Whether shading a file fails: it is in a language with trees but cannot be shaded, or what is
found cannot be printed. -/
def World.fails (world : World) (format : Format) (file : RawPath) : Bool :=
  Language.ofPath file.shown = .java && !(world.shades file && format.admits file)

/-- What a file has printed when it fails. -/
def World.remnant (world : World) (file : RawPath) : String :=
  if world.shades file then "\x7b\x22path\x22:" else ""

theorem World.fails_iff {world : World} {format : Format} {file : RawPath} :
    world.fails format file = true ↔ Language.ofPath file.shown = .java ∧
      (world.shades file = false ∨ format = .json ∧ ¬ ∃ path, file = .ofPath path) := by
  rw [fails, Bool.and_eq_true, decide_eq_true_eq, Bool.not_eq_true', Bool.and_eq_false_iff,
    Format.admits, ← RawPath.isSome_path?_iff]
  cases format <;> simp

namespace Job

variable {job : Job} {file : RawPath}

theorem value_treeOf (job : Job) (source : String) :
    (job.treeOf source).value =
      match job.world.parse source with
      | none => .error "parser produced no tree"
      | some rows =>
        match rows.lower source with
        | .error error => .error error.message
        | .ok tree => .ok tree := by
  unfold treeOf
  cases job.world.parse source with
  | none => rfl
  | some rows =>
    simp only [ParseTree.lowerLogged]
    cases rows.lower source <;> rfl

theorem value_annotateFile_of_plain (job : Job) (h : Language.ofPath file.shown ≠ .java) :
    (job.annotateFile file).value = ("", none) := by
  cases hlanguage : Language.ofPath file.shown with
  | java => exact absurd hlanguage h
  | plainText => simp [annotateFile, hlanguage, Language.hasTrees]

theorem value_annotateFile_of_not_shades (hjava : Language.ofPath file.shown = .java)
    (h : job.world.shades file = false) :
    ∃ failure, (job.annotateFile file).value = ("", some failure) := by
  unfold World.shades at h
  simp only [annotateFile, hjava, Language.hasTrees, if_true]
  cases hread : job.world.files.readFile file with
  | error cause => exact ⟨_, rfl⟩
  | ok source =>
    simp only [Logged.value_bind, value_treeOf]
    cases hparse : job.world.parse source with
    | none => exact ⟨_, rfl⟩
    | some rows =>
      cases hlower : rows.lower source with
      | error error =>
        simp only [hlower]
        exact ⟨_, rfl⟩
      | ok tree => simp [hread, hparse, hlower, Except.isOk, Except.toBool] at h

theorem exists_value_annotateFile_eq_shade (hjava : Language.ofPath file.shown = .java)
    (h : job.world.shades file = true) :
    ∃ source tree, (job.annotateFile file).value = (job.shade file source tree).value := by
  unfold World.shades at h
  simp only [annotateFile, hjava, Language.hasTrees, if_true]
  cases hread : job.world.files.readFile file with
  | error cause => simp [hread] at h
  | ok source =>
    simp only [Logged.value_bind, value_treeOf]
    cases hparse : job.world.parse source with
    | none => simp [hread, hparse] at h
    | some rows =>
      cases hlower : rows.lower source with
      | error error => simp [hread, hparse, hlower, Except.isOk, Except.toBool] at h
      | ok tree =>
        simp only [hlower]
        exact ⟨source, tree, rfl⟩

theorem failure_shade_of_admits (h : job.format.admits file = true) (source : String)
    (tree : SyntaxTree) : (job.shade file source tree).value.2 = none := by
  unfold shade
  cases hformat : job.format with
  | text => rfl
  | json =>
    obtain ⟨path, hpath⟩ := Option.isSome_iff_exists.mp (by simpa [Format.admits, hformat] using h)
    simp [jsonOutput, hpath]

theorem value_shade_of_not_admits (h : job.format.admits file = false) (source : String)
    (tree : SyntaxTree) : (job.shade file source tree).value =
      (brokenLine, some ⟨OutputError.strayPath.message, none⟩) := by
  unfold shade
  cases hformat : job.format with
  | text => simp [Format.admits, hformat] at h
  | json =>
    have hpath : file.path? = none := by simpa [Format.admits, hformat] using h
    simp [jsonOutput, hpath]

theorem brokenLine_eq : brokenLine = "\x7b\x22path\x22:" := by
  decide

/-- A file in a language with trees fails with what it has printed so far. -/
theorem value_annotateFile_of_fails (h : job.world.fails job.format file = true) :
    ∃ failure, (job.annotateFile file).value = (job.world.remnant file, some failure) := by
  obtain ⟨hjava, hfails⟩ : Language.ofPath file.shown = .java ∧
      (job.world.shades file && job.format.admits file) = false := by
    simpa only [World.fails, Bool.and_eq_true, decide_eq_true_eq, Bool.not_eq_true'] using h
  cases hshades : job.world.shades file with
  | false => simpa [World.remnant, hshades] using value_annotateFile_of_not_shades hjava hshades
  | true =>
    have hadmits : job.format.admits file = false := by simpa [hshades] using hfails
    obtain ⟨source, tree, hvalue⟩ := exists_value_annotateFile_eq_shade hjava hshades
    have hbroken := value_shade_of_not_admits hadmits source tree
    rw [brokenLine_eq] at hbroken
    exact ⟨_, by simpa [World.remnant, hshades] using hvalue.trans hbroken⟩

theorem failure_annotateFile_of_not_fails (h : job.world.fails job.format file = false) :
    (job.annotateFile file).value.2 = none := by
  by_cases hjava : Language.ofPath file.shown = .java
  · obtain ⟨hshades, hadmits⟩ : job.world.shades file = true ∧ job.format.admits file = true := by
      simpa [World.fails, hjava] using h
    obtain ⟨source, tree, hvalue⟩ := exists_value_annotateFile_eq_shade hjava hshades
    rw [hvalue, failure_shade_of_admits hadmits]
  · rw [value_annotateFile_of_plain job hjava]

/-- A run on files is a run on the first of them followed by a run on the others. -/
theorem annotateFiles_cons (job : Job) (file : RawPath) (rest : List RawPath) :
    job.annotateFiles (file :: rest) =
      Trail.followedBy (job.annotateFile file) (job.annotateFiles rest) := by
  simp only [annotateFiles, bind, Logged.andThen]
  obtain ⟨⟨output, failure⟩, events⟩ := job.annotateFile file
  cases failure <;> simp [Trail.followedBy, pure, Logged.quiet]

@[simp] theorem annotateFiles_singleton (job : Job) (file : RawPath) :
    job.annotateFiles [file] = job.annotateFile file := by
  have hnil : job.annotateFiles [] = ⟨("", none), []⟩ := rfl
  rw [annotateFiles_cons, hnil]
  obtain ⟨⟨output, failure⟩, events⟩ := job.annotateFile file
  cases failure <;> simp [Trail.followedBy]

theorem annotateFiles_append (job : Job) (a b : List RawPath) :
    job.annotateFiles (a ++ b) =
      Trail.followedBy (job.annotateFiles a) (job.annotateFiles b) := by
  induction a with
  | nil => rfl
  | cons file rest ih =>
    rw [List.cons_append, annotateFiles_cons, ih, annotateFiles_cons job file rest,
      Trail.followedBy_assoc]

theorem failure_eq_none_iff (job : Job) (files : List RawPath) :
    (job.annotateFiles files).value.2 = none ↔
      ∀ file ∈ files, job.world.fails job.format file = false := by
  induction files with
  | nil => simp [annotateFiles, Logged.quiet]
  | cons file rest ih =>
    rw [annotateFiles_cons, List.forall_mem_cons, ← ih]
    cases hfails : job.world.fails job.format file with
    | true =>
      obtain ⟨failure, hfailure⟩ := value_annotateFile_of_fails hfails
      simp [Trail.followedBy, hfailure]
    | false => simp [Trail.followedBy_of_done (failure_annotateFile_of_not_fails hfails)]

/-- A run prints what the files before the first failing one print alone, and what that one has
printed when it fails. -/
theorem output_eq (job : Job) (files : List RawPath) :
    (job.annotateFiles files).value.1 =
      String.join (((files.takeWhile fun file => !job.world.fails job.format file).filter
        fun file => Language.ofPath file.shown = .java).map
          fun file => (job.annotateFile file).value.1) ++
        ((files.find? (job.world.fails job.format)).map job.world.remnant).getD "" := by
  induction files with
  | nil => rfl
  | cons file rest ih =>
    rw [annotateFiles_cons]
    cases hfails : job.world.fails job.format file with
    | true =>
      obtain ⟨failure, hfailure⟩ := value_annotateFile_of_fails hfails
      simp [Trail.followedBy, hfailure, hfails]
    | false =>
      -- A file without trees is kept by `takeWhile` and dropped by `filter`; it prints nothing.
      rw [Trail.followedBy_of_done (failure_annotateFile_of_not_fails hfails),
        List.takeWhile_cons_of_pos (by simp [hfails]), List.find?_cons_of_neg (by simp [hfails]),
        ih]
      by_cases hjava : Language.ofPath file.shown = .java
      · simp [hjava, String.append_assoc]
      · simp [hjava, value_annotateFile_of_plain job hjava]

/-- Nothing after a failing file makes a difference. -/
theorem annotateFiles_cut (job : Job) (hfile : job.world.fails job.format file = true)
    (before after : List RawPath) :
    job.annotateFiles (before ++ file :: after) = job.annotateFiles (before ++ [file]) := by
  obtain ⟨failure, hfailure⟩ := value_annotateFile_of_fails hfile
  rw [annotateFiles_append, annotateFiles_append, annotateFiles_cons job file after,
    Trail.followedBy_of_failed (congrArg Prod.snd hfailure), annotateFiles_singleton]

theorem value_of_first_failing {before : List RawPath} {failure : Failure}
    (hbefore : ∀ earlier ∈ before, job.world.fails job.format earlier = false)
    (hfailure : (job.annotateFile file).value = (job.world.remnant file, some failure)) :
    (job.annotateFiles (before ++ [file])).value =
      ((job.annotateFiles before).value.1 ++ job.world.remnant file, some failure) := by
  have hdone := (failure_eq_none_iff job before).mpr hbefore
  rw [annotateFiles_append, Trail.followedBy_of_done hdone, annotateFiles_singleton, hfailure]

end Job

def Plan.job (plan : Plan) (world : World) (theme : Theme) : Job :=
  ⟨world, Palette.make (plan.background.getD theme.background) theme.blocks, plan.indentGuides,
    plan.format⟩

variable {world : World} {plan : Plan} {files : List RawPath} {theme : Theme}

theorem World.perform_annotate (plan : Plan) (hmode : plan.mode = .annotate files)
    (htheme : (world.loadTheme plan.theme).value = .ok theme) :
    world.perform plan =
      ⟨((plan.job world theme).annotateFiles files).value,
        (world.loadTheme plan.theme).events ++
          ((plan.job world theme).annotateFiles files).events⟩ := by
  simp [perform, hmode, bind, Logged.andThen, htheme, Plan.job]

theorem run_of_plan {start : World} {setting : Option String} {filter : Log.Filter}
    {notes texts : List String} {args : Arguments}
    (hfilter : Log.Filter.ofSetting? setting = some filter)
    (hprepare : start.prepare? = some (world, notes)) (hargs : Arguments.parse texts = .ok args)
    (hplan : Plan.make args (Settings.load world.environment world.files).value world.files =
      .ok plan) :
    (run start setting texts).stdout = (world.perform plan).value.1 ∧
      ((run start setting texts).exit = 0 ↔ (world.perform plan).value.2 = none) := by
  have hact : (world.act args).value = (world.perform plan).value := by
    simp [World.act, hplan]
  simp only [run, hfilter, hprepare, World.run, hargs, hact]
  cases (world.perform plan).value.2 <;> simp

theorem run_of_no_log {start : World} {setting : Option String}
    (h : Log.Filter.ofSetting? setting = none ∨ start.prepare? = none) (texts : List String) :
    run start setting texts = .aborted := by
  unfold run
  split
  · next hfilter hprepare => simp [hfilter, hprepare] at h
  · rfl

/-- A path that ends like the others but begins with a byte that is no character. -/
def strayPath : RawPath := ⟨[0xFF, 0x2E, 0x6A, 0x61, 0x76, 0x61]⟩

/-- Three sources of one statement, one of them at a path that is no text, and a file that is no
text. -/
def shelf : World where
  files := {
    entries := [.file "A.java" (.text "x;"), .file "B.java" (.binary [255]),
      .file "C.java" (.text "x;")]
    here := []
    strays := [(strayPath, .file "\ufffd.java" (.text "x;"))] }
  environment := ⟨none, none⟩
  parse := fun _ => some <| .node ⟨"program", none, true, false, false, 0, 2⟩
    [.node ⟨"expression_statement", none, true, false, false, 0, 2⟩ []]

def shelfPlan (format : Format) (files : List RawPath) : Plan :=
  ⟨.annotate files, "default-dark", none, format, true⟩

end BlockShading.Command
