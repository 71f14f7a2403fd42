import HomeAutomaton.CommandLine.Run
import HomeAutomaton.Proofs.Configuration
import HomeAutomaton.Proofs.PackageNames

/-!
# What a run leaves of the files

A run makes the whole package of a job before it touches a file. Then it makes the directory, which
changes no file, and writes the files of the package one after the other. Nothing is taken back: the
files that were written before one that cannot be written remain. And nothing is asked about a file in
the place of one of the package, which may be the input itself.

* `Job.package?` is the package that a job is about.
* `Writes` says how the writing of files can end, `Job.Ends` how a job can end, and which files there are
  then; `writeFiles_writes` and `runJob_ends` are the steps to `runOnTree_ends`.
* `runOnTree_failed` says what a run that has not finished leaves behind. In `blockedTree` that is a file.
* `runOnTree_input` says what becomes of the input. In `namesakeTree` it is overwritten.
-/

namespace HomeAutomaton.CommandLine

open FileTree

/-- The model of the file at the input of a job. A file that cannot be read to its end has none, whatever reads
it. -/
def Job.model? (job : Job) (t : FileTree) : Option Model :=
  match t.find? job.input with
  | some (.file content) => (modelOfFile .whole job.input content).toOption
  | _ => none

/-- The package that is made of the file at the input of a job. -/
def Job.package? (time : DateTime) (job : Job) (t : FileTree) : Option Package := do
  let model ← job.model? t
  (model.package job.options time).result.toOption

section

variable {reader : YamlReader} {time : DateTime} {arguments : List String} {job : Job} {t t' start : FileTree}
  {ending : Ending} {outcome : Outcome} {package : Package} {written files : List (String × String)}

/-! ### Writing -/

/-- How it can end to write files into a directory. -/
inductive Writes (directory : String) (files : List (String × String)) (t : FileTree) :
    Ending → FileTree → Prop where
  /-- All files are written. -/
  | all {t' : FileTree} (hreceived : Received directory files t t') :
      Writes directory files t .finished t'
  /-- One file cannot be written, when those before it are. -/
  | some {t' : FileTree} {written rest : List (String × String)} {file : String × String}
      {fault : FileFault} (hfiles : files = written ++ file :: rest)
      (hreceived : Received directory written t t')
      (hfault : t'.write (joinPath directory file.1) (Text.utf8 file.2) = .error fault) :
      Writes directory files t (.broken (.files fault)) t'

/-- Running one step after another. -/
theorem run_bind {α β : Type} (x : StateM FileTree α) (f : α → StateM FileTree β) :
    (x >>= f).run t = (f (x.run t).1).run (x.run t).2 := rfl

/-- Looking something up changes nothing. -/
theorem run_find? {path : String} : (treeDisk.find? path).run t = (t.find? path, t) := rfl

/-- Writing changes the tree. -/
theorem run_write_of_ok {path : String} {content : List UInt8} (h : t.write path content = .ok t') :
    (treeDisk.write path content).run t = (.ok (), t') := by
  simp only [treeDisk, StateT.run, h]

/-- Writing that fails leaves the tree as it is. -/
theorem run_write_of_error {path : String} {content : List UInt8} {fault : FileFault}
    (h : t.write path content = .error fault) :
    (treeDisk.write path content).run t = (.error fault, t) := by
  simp only [treeDisk, StateT.run, h]

/-- Files are written behind others that have been written before, since `start`. -/
theorem writeFiles_writes (hreceived : Received job.output written start t)
    (houtcome : outcome.ending = .finished)
    (hapart : (written ++ files).Pairwise fun file other =>
      LeadApart (joinPath job.output file.1) (joinPath job.output other.1)) :
    Writes job.output (written ++ files) start
      ((writeFiles treeDisk job files outcome).run t).1.ending
      ((writeFiles treeDisk job files outcome).run t).2 := by
  -- along the files that are left; what is written so far is kept by later writing, whose paths lead apart
  induction files generalizing written t outcome with
  | nil =>
    rw [List.append_nil]
    show Writes _ _ _ outcome.ending t
    rw [houtcome]
    exact .all hreceived
  | cons file rest ih =>
    obtain ⟨name, content⟩ := file
    rw [writeFiles, run_bind]
    cases hwrite : t.write (joinPath job.output name) (Text.utf8 content) with
    | error fault =>
      rw [run_write_of_error hwrite]
      dsimp only
      -- what cannot be written ends the writing, after the files written so far
      exact .some rfl hreceived hwrite
    | ok t' =>
      rw [run_write_of_ok hwrite, List.append_cons]
      dsimp only
      have hothers (file : String × String) (hfile : file ∈ written) :
          LeadApart (joinPath job.output file.1) (joinPath job.output name) :=
        (List.pairwise_append.mp hapart).2.2 file hfile (name, content) List.mem_cons_self
      refine ih (hreceived.concat hwrite hothers) houtcome ?_
      rw [← List.append_cons]
      exact hapart

/-! ### Jobs -/

/-- How a job can end, and the file tree after it. -/
inductive Job.Ends (time : DateTime) (job : Job) (t : FileTree) : Ending → FileTree → Prop where
  /-- There is no package. -/
  | unmade {ending : Ending} (hpackage : job.package? time t = none) (hstatus : ending.status ≠ 0) :
      job.Ends time t ending t
  /-- The directory for the files cannot be made. -/
  | homeless {t' : FileTree} {package : Package} {fault : FileFault}
      (hpackage : job.package? time t = some package) (hkeeps : t.KeepsFiles t') :
      job.Ends time t (.broken (.files fault)) t'
  /-- The files are written. -/
  | writes {t' : FileTree} {package : Package} {ending : Ending}
      (hpackage : job.package? time t = some package)
      (hwrites : Writes job.output package.files t ending t') : job.Ends time t ending t'

/-- Readers differ in why a file has no model, but not in the model that it has. -/
theorem toOption_modelOfFile (reader : YamlReader) (path : String) (content : List UInt8) :
    (modelOfFile reader path content).toOption = (modelOfFile .whole path content).toOption := by
  rw [modelOfFile, modelOfFile, valueOfFile, valueOfFile]
  cases isJsonName path with
  | true => rfl
  | false =>
    rw [if_neg Bool.false_ne_true, if_neg Bool.false_ne_true, yamlFile, yamlFile]
    dsimp only
    split
    next => rfl
    next =>
      split
      next => rfl
      next => rfl

/-- The model is read or it is said why not, and the files stay as they are. -/
theorem loadModel_run (reader : YamlReader) (job : Job) (t : FileTree) :
    (job.model? t = none ∧ ∃ ending : Ending,
      (loadModel treeDisk reader job.input).run t = (.error ending, t) ∧ ending.status ≠ 0) ∨
    ∃ model, job.model? t = some model ∧ (loadModel treeDisk reader job.input).run t = (.ok model, t) := by
  rw [loadModel, run_bind, run_find?, Job.model?]
  dsimp only
  -- nothing there, a directory, or a file that is read
  cases t.find? job.input with
  | none => exact .inl ⟨rfl, _, rfl, Nat.one_ne_zero⟩
  | some entry =>
    cases entry with
    | directory => exact .inl ⟨rfl, _, rfl, Nat.one_ne_zero⟩
    | file content =>
      dsimp only
      rw [← toOption_modelOfFile reader]
      cases modelOfFile reader job.input content with
      | ok model => exact .inr ⟨model, rfl, rfl⟩
      | error e =>
        refine .inl ⟨rfl, ?_⟩
        dsimp only
        split
        · exact ⟨_, rfl, Nat.one_ne_zero⟩
        · exact ⟨_, rfl, Nat.one_ne_zero⟩

/-- The directory for the files holds what files it held. -/
theorem prepareDirectory_keepsFiles {directory : String} :
    t.KeepsFiles ((prepareDirectory treeDisk directory).run t).2 := by
  rw [prepareDirectory]
  split
  next => exact .refl
  next =>
    rw [run_bind, run_find?]
    dsimp only
    split
    next => exact .refl
    next => exact makeDirectories_keepsFiles

/-- How it can end to write a package, once it is made. -/
theorem writePackage_ends (hpackage : job.package? time t = some package)
    (houtcome : outcome.ending = .finished)
    (hapart : package.files.Pairwise fun file other =>
      LeadApart (joinPath job.output file.1) (joinPath job.output other.1)) :
    job.Ends time t ((writePackage treeDisk job package outcome).run t).1.ending
      ((writePackage treeDisk job package outcome).run t).2 := by
  have hkeeps : t.KeepsFiles ((prepareDirectory treeDisk job.output).run t).2 :=
    prepareDirectory_keepsFiles
  rw [writePackage, run_bind]
  -- without a directory no file is written
  cases hprepared : ((prepareDirectory treeDisk job.output).run t).1 with
  | error fault => exact .homeless hpackage hkeeps
  | ok =>
    have hwrites := writeFiles_writes (received_nil hkeeps) houtcome hapart
    exact .writes hpackage hwrites

/-- A job ends in one of these ways, if the paths of the files in its package are kept apart. -/
theorem runJob_ends (hapart : ∀ package, job.package? time t = some package →
      package.files.Pairwise fun file other =>
        LeadApart (joinPath job.output file.1) (joinPath job.output other.1)) :
    job.Ends time t ((runJob treeDisk reader time job).run t).1.ending ((runJob treeDisk reader time job).run t).2 := by
  rw [runJob, run_bind]
  -- before the package is there the tree has not been touched
  rcases loadModel_run reader job t with ⟨hnone, ending, hload, hstatus⟩ | ⟨model, hmodel, hload⟩
  · rw [hload]
    exact .unmade (by rw [Job.package?, hnone]; rfl) hstatus
  · rw [hload]
    dsimp only
    have hpackage : job.package? time t = (model.package job.options time).result.toOption := by
      rw [Job.package?, hmodel]
      rfl
    cases hresult : (model.package job.options time).result with
    | ok package =>
      rw [hresult] at hpackage
      exact writePackage_ends hpackage rfl (hapart package hpackage)
    | error e =>
      rw [hresult] at hpackage
      dsimp only
      split
      · exact .unmade hpackage Nat.one_ne_zero
      · exact .unmade hpackage Nat.one_ne_zero

/-! ### Runs -/

/-- A package is made of a model. -/
theorem Job.exists_package (h : job.package? time t = some package) :
    ∃ model, job.model? t = some model ∧ (model.package job.options time).result = .ok package := by
  obtain ⟨model, hmodel, hpackage⟩ := Option.bind_eq_some_iff.mp h
  refine ⟨model, hmodel, ?_⟩
  cases hresult : (model.package job.options time).result with
  | ok made =>
    rw [hresult] at hpackage
    rw [Option.some.inj hpackage]
  | error e =>
    rw [hresult] at hpackage
    cases hpackage

/-- There is no package without an input. -/
theorem Job.exists_input (h : job.package? time t = some package) :
    ∃ place content, t.locate job.input = .ok place ∧ t.entry? place = some (.file content) := by
  obtain ⟨model, hmodel, -⟩ := Job.exists_package h
  rw [Job.model?] at hmodel
  split at hmodel
  next content hinput =>
    obtain ⟨place, hplace, hentry⟩ := find?_eq_some.mp hinput
    exact ⟨place, content, hplace, hentry⟩
  next => cases hmodel

/-- Among the files of a package is the configuration, which starts with a comment. -/
theorem Job.exists_configuration (hextension : job.options.documentExtension ≠ "dot")
    (h : job.package? time t = some package) :
    ∃ model c text, job.model? t = some model ∧
      (model.compile job.options.appearance).result = .ok c ∧ (Text.utf8 text).head? = some 35 ∧
      (job.options.documentName c.document.machineId, text) ∈ package.files := by
  obtain ⟨model, hmodel, hresult⟩ := Job.exists_package h
  obtain ⟨c, hc, hmade⟩ := Logged.bind_eq_ok.mp hresult
  obtain ⟨text, hfile, -⟩ := Logged.bind_eq_ok.mp hmade
  rw [Logged.liftM_result] at hfile
  have hget := Compiled.get?_configuration hfile hextension hmade
  obtain ⟨before, behind, hfiles, -⟩ := List.lookup_eq_some_iff.mp hget
  refine ⟨model, c, text, hmodel, hc, Document.head_file hfile, ?_⟩
  rw [hfiles]
  exact List.mem_append_right _ List.mem_cons_self

/-- A job that finishes has written the whole package. -/
theorem Job.Ends.of_finished (h : job.Ends time t .finished t') :
    ∃ package, job.package? time t = some package ∧ Received job.output package.files t t' := by
  cases h with
  | unmade _ hstatus => exact absurd rfl hstatus
  | writes hpackage hwrites =>
    cases hwrites with
    | all hreceived => exact ⟨_, hpackage, hreceived⟩

/-- Of the files of the package the first ones are written, and all of them if the job finishes. -/
theorem Job.Ends.received (h : job.Ends time t ending t') :
    t' = t ∨ ∃ package written, job.package? time t = some package ∧ written <+: package.files ∧
      Received job.output written t t' ∧ (ending = .finished → written = package.files) := by
  -- no package, a package without a directory to put it in, or files that are written
  cases h with
  | unmade => exact .inl rfl
  | homeless hpackage hkeeps =>
    exact .inr ⟨_, [], hpackage, List.nil_prefix, received_nil hkeeps, by rintro ⟨⟩⟩
  | @writes _ package _ hpackage hwrites =>
    refine .inr ⟨package, ?_⟩
    cases hwrites with
    | all hreceived => exact ⟨_, hpackage, List.prefix_refl _, hreceived, fun _ => rfl⟩
    | @some _ written rest file _ hfiles hreceived =>
      exact ⟨written, hpackage, hfiles ▸ List.prefix_append _ _, hreceived, by rintro ⟨⟩⟩

/-- A run that is asked to compile a file ends as its job does. -/
theorem runOnTree_of_compile (reader : YamlReader)
    (hrequest : Request.ofArguments? arguments = some (.compile job)) :
    job.Ends time t (runOnTree reader time arguments t).1.ending (runOnTree reader time arguments t).2 := by
  rw [runOnTree, run, hrequest]
  refine runJob_ends fun package hpackage => ?_
  obtain ⟨model, -, hresult⟩ := Job.exists_package hpackage
  exact Job.package_apart hrequest hresult

/-- A run that is not asked to compile a file does nothing to the files. -/
theorem runOnTree_ends (reader : YamlReader) (time : DateTime) (arguments : List String) (t : FileTree) :
    (runOnTree reader time arguments t).2 = t ∨
    ∃ job, Request.ofArguments? arguments = some (.compile job) ∧
      job.Ends time t (runOnTree reader time arguments t).1.ending (runOnTree reader time arguments t).2 := by
  cases hrequest : Request.ofArguments? arguments with
  | none => exact .inl (by rw [runOnTree, run, hrequest]; rfl)
  | some request =>
    cases request with
    | help => exact .inl (by rw [runOnTree, run, hrequest]; rfl)
    | version => exact .inl (by rw [runOnTree, run, hrequest]; rfl)
    | compile job => exact .inr ⟨job, rfl, runOnTree_of_compile reader hrequest⟩

/-- **What a run that has not finished leaves behind.** Before the package is made nothing changes, and
nothing but directories does before its first file is written. If a later file cannot be written, those
before it are there, each with its whole text; there is no other change. -/
theorem runOnTree_failed {reader : YamlReader} {time : DateTime} {arguments : List String} {t : FileTree}
    (h : (runOnTree reader time arguments t).1.ending.status ≠ 0) :
    (runOnTree reader time arguments t).2 = t ∨
    ∃ job package, Request.ofArguments? arguments = some (.compile job) ∧
      job.package? time t = some package ∧
      (t.KeepsFiles (runOnTree reader time arguments t).2 ∨
        ∃ written file rest fault, package.files = written ++ file :: rest ∧ written ≠ [] ∧
          Received job.output written t (runOnTree reader time arguments t).2 ∧
          (runOnTree reader time arguments t).2.write (joinPath job.output file.1) (Text.utf8 file.2) =
            .error fault ∧
          (runOnTree reader time arguments t).1.ending = .broken (.files fault)) := by
  rcases runOnTree_ends reader time arguments t with hsame | ⟨job, hrequest, hends⟩
  · exact .inl hsame
  -- only how the run ended is looked at from here on
  generalize (runOnTree reader time arguments t).1.ending = ending at h hends ⊢
  generalize (runOnTree reader time arguments t).2 = t' at hends ⊢
  cases hends with
  | unmade => exact .inl rfl
  | homeless hpackage hkeeps => exact .inr ⟨job, _, hrequest, hpackage, .inl hkeeps⟩
  | @writes _ package _ hpackage hwrites =>
    refine .inr ⟨job, package, hrequest, hpackage, ?_⟩
    cases hwrites with
    | all => exact absurd rfl h
    | @some _ written rest file fault hfiles hreceived hfault =>
      -- the first file of a package may be the one that cannot be written
      by_cases hwritten : written = []
      · subst hwritten
        exact .inl hreceived.keepsFiles
      · exact .inr ⟨written, file, rest, fault, hfiles, hwritten, hreceived, hfault, rfl⟩

/-- The model of a lamp without states. -/
def lampText : String := "root:\n  type: State Machine\n  path: /lamp\n  name: Lamp\n"

/-- When the lamp is compiled. -/
def lampTime : DateTime := DateTime.ofSeconds 1767323045 678900

/-- The model of a lamp, and a directory in the place of the export. -/
def blockedTree : FileTree :=
  { entries := [(["lamp.yml"], .file (Text.utf8 lampText)), (["lamp_model.json"], .directory)] }

/-- The run on it fails. -/
theorem blockedTree_fails :
    (runOnTree .whole lampTime ["lamp.yml"] blockedTree).1.ending.status ≠ 0 := by
  decide +kernel

/-- The lamp fails at the second file of its package. -/
theorem runOnTree_failed_blocked :
    (runOnTree .whole lampTime ["lamp.yml"] blockedTree).1.ending.status ≠ 0 ∧
    ((runOnTree .whole lampTime ["lamp.yml"] blockedTree).2 = blockedTree ∨
      ∃ job package, Request.ofArguments? ["lamp.yml"] = some (.compile job) ∧
        job.package? lampTime blockedTree = some package ∧
        (blockedTree.KeepsFiles (runOnTree .whole lampTime ["lamp.yml"] blockedTree).2 ∨
          ∃ written file rest fault, package.files = written ++ file :: rest ∧ written ≠ [] ∧
            Received job.output written blockedTree (runOnTree .whole lampTime ["lamp.yml"] blockedTree).2 ∧
            (runOnTree .whole lampTime ["lamp.yml"] blockedTree).2.write (joinPath job.output file.1)
              (Text.utf8 file.2) = .error fault ∧
            (runOnTree .whole lampTime ["lamp.yml"] blockedTree).1.ending = .broken (.files fault))) :=
  ⟨blockedTree_fails, runOnTree_failed blockedTree_fails⟩

/-- The configuration of the lamp stays when its export cannot be written. -/
theorem configuration_left_behind :
    (runOnTree .whole lampTime ["lamp.yml"] blockedTree).1.ending.status ≠ 0 ∧
    (runOnTree .whole lampTime ["lamp.yml"] blockedTree).2.file? ["lamp.yaml"] ≠
      blockedTree.file? ["lamp.yaml"] := by
  refine ⟨blockedTree_fails, ?_⟩
  decide +kernel

/-- **What becomes of the input.** It holds what it held before, unless the path of a file of the
package leads to its place. Then it has the name of that file, and holds its text once that file has been
written, as it has after a run that finishes. -/
theorem runOnTree_input (reader : YamlReader) (time : DateTime) (arguments : List String)
    (t : FileTree) :
    (runOnTree reader time arguments t).2 = t ∨
    ∃ job package place, Request.ofArguments? arguments = some (.compile job) ∧
      job.package? time t = some package ∧ t.locate job.input = .ok place ∧
      ((runOnTree reader time arguments t).2.find? job.input = t.find? job.input ∨
        ∃ file ∈ package.files,
          (runOnTree reader time arguments t).2.locate (joinPath job.output file.1) = .ok place ∧
          place.getLast? = some (lastName (joinPath job.output file.1)) ∧
          (runOnTree reader time arguments t).2.find? job.input = some (.file (Text.utf8 file.2))) ∧
      ((runOnTree reader time arguments t).1.ending = .finished → ∀ file ∈ package.files,
        (runOnTree reader time arguments t).2.locate (joinPath job.output file.1) = .ok place →
        (runOnTree reader time arguments t).2.find? job.input = some (.file (Text.utf8 file.2))) := by
  rcases runOnTree_ends reader time arguments t with hsame | ⟨job, hrequest, hends⟩
  · exact .inl hsame
  -- from here on only how the run ends matters
  generalize (runOnTree reader time arguments t).1.ending = ending at hends ⊢
  generalize (runOnTree reader time arguments t).2 = t' at hends ⊢
  rcases hends.received with hsame | ⟨package, written, hpackage, hwritten, hreceived, hall⟩
  · exact .inl hsame
  obtain ⟨place, content, hplace, hentry⟩ := Job.exists_input hpackage
  obtain ⟨model, -, hresult⟩ := Job.exists_package hpackage
  refine .inr ⟨job, package, place, hrequest, hpackage, hplace, ?_, fun hfinished file hfile hlocate => ?_⟩
  -- either no file led to the place of the input, or the last one that did is there now
  · rcases hreceived.find? hplace hentry with hkept | ⟨file, hfile, hlocate, hfound⟩
    · exact .inl (hkept.trans (find?_eq_some.mpr ⟨place, hplace, hentry⟩).symm)
    · have hmem := hwritten.subset hfile
      have hname := getLast?_of_locate (Job.isOwnName_of_mem hrequest hresult file hmem) hlocate
      exact .inr ⟨file, hmem, hlocate, hname, hfound⟩
  · obtain rfl := hall hfinished
    rw [find?_congr ((hreceived.toGrows.locate hplace).trans hlocate.symm)]
    exact hreceived.holds file hfile

/-- The model of a lamp, in a file of the name that the configuration has. -/
def namesakeTree : FileTree := { entries := [(["lamp.yaml"], .file (Text.utf8 lampText))] }

/-- The job of a run on it. -/
def namesakeJob : Job := { input := "lamp.yaml" }

/-- The configuration of the lamp has the name of its model. -/
theorem namesakeJob_configuration {package : Package}
    (h : namesakeJob.package? lampTime namesakeTree = some package) :
    ∃ text, ("lamp.yaml", text) ∈ package.files ∧ (Text.utf8 text).head? = some 35 := by
  obtain ⟨model, c, text, hmodel, hc, hcomment, hfile⟩ := Job.exists_configuration (by decide) h
  have hid : ((namesakeJob.model? namesakeTree).bind fun model =>
      (model.compile namesakeJob.options.appearance).result.toOption.map (·.document.machineId)) =
        some "lamp" := by
    decide +kernel
  rw [hmodel, Option.bind_some, hc] at hid
  have hmachine : c.document.machineId = "lamp" := Option.some.inj hid
  rw [hmachine] at hfile
  exact ⟨text, hfile, hcomment⟩

/-- The configuration of the lamp is written over its model. -/
theorem input_overwritten :
    (runOnTree .whole lampTime ["lamp.yaml"] namesakeTree).2.find? "lamp.yaml" ≠
      namesakeTree.find? "lamp.yaml" := by
  have hrequest : Request.ofArguments? ["lamp.yaml"] = some (.compile namesakeJob) := rfl
  have hends := @runOnTree_of_compile lampTime _ _ namesakeTree .whole hrequest
  have hfinished : (runOnTree .whole lampTime ["lamp.yaml"] namesakeTree).1.ending = .finished := by
    decide +kernel
  rw [hfinished] at hends
  obtain ⟨package, hpackage, hreceived⟩ := hends.of_finished
  obtain ⟨text, hfile, hcomment⟩ := namesakeJob_configuration hpackage
  -- the path of the configuration leads to the input
  have hplace : namesakeTree.locate "lamp.yaml" = .ok ["lamp.yaml"] := rfl
  have hplace' : namesakeTree.locate (joinPath namesakeJob.output "lamp.yaml") = .ok ["lamp.yaml"] := rfl
  have hlocate := (hreceived.toGrows.locate hplace).trans (hreceived.toGrows.locate hplace').symm
  have hbefore : namesakeTree.find? "lamp.yaml" = some (.file (Text.utf8 lampText)) := by decide +kernel
  rw [find?_congr hlocate, hreceived.holds _ hfile, hbefore]
  -- the model of the lamp does not start with a comment
  have hlamp : (Text.utf8 lampText).head? = some 114 := by decide +kernel
  intro hsame
  rw [Entry.file.inj (Option.some.inj hsame), hlamp] at hcomment
  cases hcomment

end

end HomeAutomaton.CommandLine
