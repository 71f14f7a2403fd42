import HomeAutomaton.CommandLine.Arguments
import HomeAutomaton.Proofs.FileTrees
import HomeAutomaton.Proofs.IdentifierForm

/-!
# The names of the files in a package

All files of a package are named after the machine, and what follows the name of the machine tells them
apart. In a job of the command line it does so wherever the files are written: no two of their paths
ever lead to one place, and none leads to a place of another name than its own.

* `Compiled.package_names` lists the names of the files in a package.
* `joinPath_append` and `leadApart_append` carry the names to paths.
* `CommandLine.Job.package_names` and `CommandLine.Job.package_apart` are the result for jobs.
-/

namespace HomeAutomaton

/-! ### The names in the order of the files -/

namespace Package

theorem putFile_of_new {files : List (String × String)} {name content : String}
    (h : name ∉ files.map (·.1)) : putFile files name content = files ++ [(name, content)] := by
  induction files with
  | nil => rfl
  | cons file files ih =>
    obtain ⟨hfile, hfiles⟩ := not_or.mp fun hname => h (List.mem_cons.mpr hname)
    rw [putFile, if_neg (Ne.symm hfile), ih hfiles, List.cons_append]

/-- A file with a new suffix comes last. -/
theorem names_put {p : Package} {base suffix : String} (suffixes : List String) (content : String)
    (hp : p.files.map (·.1) = suffixes.map (base ++ ·)) (hnew : (suffixes ++ [suffix]).Nodup) :
    (p.put (base ++ suffix) content).files.map (·.1) = (suffixes ++ [suffix]).map (base ++ ·) := by
  have hname : base ++ suffix ∉ p.files.map (·.1) := by
    rw [hp]
    intro hmem
    obtain ⟨other, hother, heq⟩ := List.mem_map.mp hmem
    obtain rfl := (String.append_right_inj base).mp heq
    exact List.disjoint_of_nodup_append hnew hother (List.mem_singleton_self _)
  rw [put, putFile_of_new hname, List.map_append, hp, List.map_append]
  rfl

end Package

/-- What follows the name of the machine in the names of the files of a package, in their order. -/
def PackageOptions.suffixes (options : PackageOptions) : List String :=
  ["." ++ options.documentExtension] ++
    (if options.withExport then ["_model." ++ options.exportExtension] else []) ++
    (if options.withDiagram then [".dot"] else [])

/-- The files of a package are named after the machine, if that gives them different names. -/
theorem Compiled.package_names {c : Compiled} {model : Model} {options : PackageOptions}
    {time : DateTime} {p : Package} (hdistinct : options.suffixes.Nodup)
    (h : (c.package model options time).result = .ok p) :
    p.files.map (·.1) =
      options.suffixes.map (options.start ++ c.document.machineId ++ ·) := by
  obtain ⟨configuration, -, h⟩ := Logged.bind_eq_ok.mp h
  rw [PackageOptions.suffixes] at hdistinct ⊢
  -- the diagram comes last, whatever was put into the package before
  have hdiagram (q : Package) (suffixes : List String)
      (hq : q.files.map (·.1) = suffixes.map (options.start ++ c.document.machineId ++ ·))
      (hdistinct : (suffixes ++ if options.withDiagram then [".dot"] else []).Nodup)
      (h : (if options.withDiagram = true then do
          let diagram ← (Diagram.ofMachine c.machine c.identifiers : Except Fault Diagram)
          pure (q.put (options.start ++ c.document.machineId ++ ".dot") diagram.text)
        else pure q : Logged Package).result = .ok p) :
      p.files.map (·.1) = (suffixes ++ if options.withDiagram then [".dot"] else []).map
        (options.start ++ c.document.machineId ++ ·) := by
    split at h
    next hwith =>
      rw [if_pos hwith] at hdistinct ⊢
      obtain ⟨diagram, -, h⟩ := Logged.bind_eq_ok.mp h
      obtain rfl := Except.ok.inj h
      exact Package.names_put suffixes _ hq hdistinct
    next hwith =>
      obtain rfl := Except.ok.inj h
      rw [if_neg hwith, List.append_nil, hq]
  -- the document comes first
  have hconfiguration : (({} : Package).put (options.start ++ c.document.machineId ++
      ("." ++ options.documentExtension)) configuration).files.map (·.1) =
        ["." ++ options.documentExtension].map (options.start ++ c.document.machineId ++ ·) :=
    Package.names_put [] _ rfl (List.nodup_singleton _)
  rw [← String.append_assoc] at hconfiguration
  dsimp only at h
  split at h
  next hwith =>
    rw [if_pos hwith] at hdistinct ⊢
    obtain ⟨-, -, h⟩ := Logged.bind_eq_ok.mp h
    obtain ⟨exported, -, h⟩ := Logged.bind_eq_ok.mp h
    have hexport := Package.names_put _ exported hconfiguration hdistinct.of_append_left
    rw [← String.append_assoc] at hexport
    exact hdiagram _ _ hexport hdistinct h
  next hwith =>
    rw [if_neg hwith, List.append_nil] at hdistinct ⊢
    exact hdiagram _ _ hconfiguration hdistinct h

/-! ### From names to paths -/

section

variable {directory base path text other : String}

/-- What a name ends with, its path ends with. -/
theorem joinPath_append (hbase : base ≠ "") :
    joinPath directory (base ++ text) = joinPath directory base ++ text := by
  have htop : startsAtTop (base ++ text) = startsAtTop base := by
    obtain ⟨c, cs, hcs⟩ := List.exists_cons_of_ne_nil (mt String.toList_eq_nil_iff.mp hbase)
    rw [startsAtTop, startsAtTop, String.toList_append, hcs]
    rfl
  rw [joinPath, joinPath, htop]
  split
  · rfl
  · split <;> simp only [String.append_assoc]

/-- A text that could stand behind the name of a machine: it keeps the name in the same directory, and
is too long for a name of dots. -/
def IsSuffix (text : String) : Prop := '/' ∉ text.toList ∧ 2 < text.length

instance : DecidablePred IsSuffix := fun _ => inferInstanceAs (Decidable (_ ∧ _))

theorem isOwnName_append (h : IsSuffix text) : IsOwnName (path ++ text) := by
  have hlong : 2 < (path ++ text).length := by
    rw [String.length_append]
    exact Nat.lt_of_lt_of_le h.2 (Nat.le_add_left _ _)
  refine ⟨?_, ?_, ?_⟩ <;>
    · intro hname
      rw [hname] at hlong
      exact absurd hlong (by decide)

/-- Different suffixes keep paths apart. -/
theorem leadApart_append (h : IsSuffix text) (h' : IsSuffix other) (hne : text ≠ other) :
    FileTree.LeadApart (path ++ text) (path ++ other) := by
  have hname : lastName (path ++ text) = lastName path ++ text := lastName_append h.1
  have hname' : lastName (path ++ other) = lastName path ++ other := lastName_append h'.1
  refine FileTree.leadApart_of_lastName ?_ ?_ ?_
  · rw [hname]
    exact isOwnName_append h
  · rw [hname']
    exact isOwnName_append h'
  · rw [hname, hname']
    exact fun heq => hne ((String.append_right_inj _).mp heq)

end

/-! ### Jobs -/

namespace CommandLine

variable {arguments : List String} {job : Job} {model : Model} {time : DateTime} {p : Package}

/-- The suffixes that the files of a job can have. -/
def jobSuffixes : List String := [".yaml", "_model.json", ".dot"]

theorem isSuffix_of_mem_jobSuffixes : ∀ suffix ∈ jobSuffixes, IsSuffix suffix := by decide +kernel

/-- A job is what the choices come to once all arguments are taken. -/
theorem Job.exists_choices (h : Request.ofArguments? arguments = some (.compile job)) :
    ∃ (choices : Choices) (input : String), job = choices.job input := by
  unfold Request.ofArguments? at h
  split at h
  next => cases h
  next items _ =>
    split at h
    next choices _ =>
      rw [Choices.request?] at h
      exact ⟨choices, by grind⟩
    next => cases h
    next => cases h

/-- The arguments choose which files there are, and not what they end with. -/
theorem Job.suffixes_sublist (h : Request.ofArguments? arguments = some (.compile job)) :
    job.options.suffixes.Sublist jobSuffixes := by
  obtain ⟨choices, input, rfl⟩ := Job.exists_choices h
  have hall : jobSuffixes = ["." ++ "yaml"] ++ ["_model." ++ "json"] ++ [".dot"] := by
    decide +kernel
  rw [hall]
  refine ((List.Sublist.refl _).append ?_).append ?_ <;>
    · split
      · exact List.Sublist.refl _
      · exact List.nil_sublist _

/-- The files of a job are named after the machine. -/
theorem Job.package_names (h : Request.ofArguments? arguments = some (.compile job))
    (hp : (model.package job.options time).result = .ok p) :
    ∃ base, base ≠ "" ∧ p.files.map (·.1) = job.options.suffixes.map (base ++ ·) := by
  obtain ⟨c, hc, hp⟩ := Logged.bind_eq_ok.mp hp
  obtain ⟨-, -, root, _, _, _, -, -, -, -, hdocument⟩ := Model.compile_eq_ok.mp hc
  refine ⟨job.options.start ++ c.document.machineId, ?_, Compiled.package_names ?_ hp⟩
  · rw [hdocument]
    intro hempty
    refine root.isSlug_machineIdentifier.ne_nil (String.toList_eq_nil_iff.mpr ?_)
    exact (String.append_eq_empty_iff.mp hempty).2
  · exact List.Nodup.sublist (Job.suffixes_sublist h) (by decide +kernel)

/-- The paths of the files of a job are kept apart. -/
theorem Job.package_apart (h : Request.ofArguments? arguments = some (.compile job))
    (hp : (model.package job.options time).result = .ok p) :
    p.files.Pairwise fun file other =>
      FileTree.LeadApart (joinPath job.output file.1) (joinPath job.output other.1) := by
  obtain ⟨base, hbase, hnames⟩ := Job.package_names h hp
  have hpath (suffix : String) :
      joinPath job.output (base ++ suffix) = joinPath job.output base ++ suffix :=
    joinPath_append hbase
  -- names differ in their suffixes alone
  have hsuffixes : jobSuffixes.Pairwise fun suffix other =>
      FileTree.LeadApart (joinPath job.output (base ++ suffix)) (joinPath job.output (base ++ other)) := by
    have hdistinct : jobSuffixes.Nodup := by decide +kernel
    refine List.Pairwise.imp_of_mem (fun hsuffix hother hne => ?_) hdistinct
    rw [hpath, hpath]
    exact leadApart_append (isSuffix_of_mem_jobSuffixes _ hsuffix)
      (isSuffix_of_mem_jobSuffixes _ hother) hne
  have hpairs := hsuffixes.sublist (Job.suffixes_sublist h)
  rw [← List.pairwise_map (f := (base ++ ·)) (R := fun name other =>
    FileTree.LeadApart (joinPath job.output name) (joinPath job.output other)), ← hnames,
    List.pairwise_map] at hpairs
  exact hpairs

/-- The path of a file of a job ends with a name of its own. -/
theorem Job.isOwnName_of_mem (h : Request.ofArguments? arguments = some (.compile job))
    (hp : (model.package job.options time).result = .ok p) :
    ∀ file ∈ p.files, IsOwnName (lastName (joinPath job.output file.1)) := by
  intro file hfile
  obtain ⟨base, hbase, hnames⟩ := Job.package_names h hp
  obtain ⟨suffix, hsuffix, hname⟩ := List.mem_map.mp (hnames ▸ List.mem_map_of_mem hfile)
  have hproper := isSuffix_of_mem_jobSuffixes suffix ((Job.suffixes_sublist h).subset hsuffix)
  rw [← hname, joinPath_append hbase, lastName_append hproper.1]
  exact isOwnName_append hproper

end CommandLine

end HomeAutomaton
