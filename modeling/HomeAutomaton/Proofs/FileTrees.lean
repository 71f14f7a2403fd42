import HomeAutomaton.FileTree
import HomeAutomaton.Returns

/-!
# What writing leaves of a file tree

Directories stay when a file tree is written to, and so a path that leads somewhere leads to the same
place afterwards. The place has the name that the path ends with, unless that is one of the names with
a meaning of their own; so paths that end with different names never lead to one place, and a file that
has been written is not lost when the next one is.

* `FileTree.follow_cons_eq_ok` says what it is to follow one name of a path.
* `FileTree.Grows` says that no directory is lost; `FileTree.Grows.locate` is what follows for paths.
* `FileTree.getLast?_of_locate` tells the name of a place, `FileTree.leadApart_of_lastName` which paths
  are kept apart by their names.
* `FileTree.makeDirectories_keepsFiles` and `FileTree.write_eq_ok` say what the two operations change.
* `FileTree.Received` describes a tree into which files have been written. `FileTree.received_nil` and
  `FileTree.Received.concat` follow the writing of one file after the other.
-/

namespace HomeAutomaton

/-! ### The last name of a path -/

section

variable {cs text name : List Char} {path : String}

/-- A path has one name at least, if only an empty one. -/
theorem pathPartsFrom_ne_nil : pathPartsFrom name cs ≠ [] := by
  induction cs generalizing name with
  | nil => exact List.cons_ne_nil _ _
  | cons c cs ih =>
    rw [pathPartsFrom]
    split
    · exact List.cons_ne_nil _ _
    · exact ih

/-- Without a slash there is just one name. -/
theorem pathPartsFrom_of_no_slash (h : '/' ∉ cs) :
    pathPartsFrom name cs = [String.ofList (name ++ cs)] := by
  induction cs generalizing name with
  | nil => rw [List.append_nil]; rfl
  | cons c cs ih =>
    obtain ⟨hc, hcs⟩ := not_or.mp fun hslash => h (List.mem_cons.mpr hslash)
    rw [pathPartsFrom, if_neg (Ne.symm hc), ih hcs, List.append_assoc, List.singleton_append]

/-- A text without a slash becomes a part of the last name. -/
theorem getLast?_pathPartsFrom_append (h : '/' ∉ text) :
    (pathPartsFrom name (cs ++ text)).getLast? =
      (pathPartsFrom name cs).getLast?.map (· ++ String.ofList text) := by
  -- along what stands in front of the text; the name read so far grows up to the next slash
  induction cs generalizing name with
  | nil =>
    rw [List.nil_append, pathPartsFrom_of_no_slash h, String.ofList_append]
    rfl
  | cons c cs ih =>
    rw [List.cons_append, pathPartsFrom, pathPartsFrom]
    split
    · rw [List.getLast?_cons_of_ne_nil pathPartsFrom_ne_nil,
        List.getLast?_cons_of_ne_nil pathPartsFrom_ne_nil, ih]
    · exact ih

/-- What stands behind the last slash of a path. -/
def lastName (path : String) : String := (pathParts path).getLastD ""

/-- It is the last one of the names. -/
theorem getLast?_pathParts : (pathParts path).getLast? = some (lastName path) := by
  obtain ⟨name, hname⟩ : ∃ name, (pathParts path).getLast? = some name :=
    ⟨_, List.getLast?_eq_some_getLast pathPartsFrom_ne_nil⟩
  rw [lastName, List.getLastD_eq_getLast?, hname, Option.getD_some]

/-- A text without a slash is appended to the last name. -/
theorem lastName_append {text : String} (h : '/' ∉ text.toList) :
    lastName (path ++ text) = lastName path ++ text := by
  have hlast : (pathParts (path ++ text)).getLast? = some (lastName path ++ text) := by
    rw [pathParts, String.toList_append, getLast?_pathPartsFrom_append h, ← pathParts,
      getLast?_pathParts, String.ofList_toList]
    rfl
  exact Option.some.inj (getLast?_pathParts.symm.trans hlast)

/-- The name is that of what is at a place. Empty names and names of dots say how to go on from a
directory. -/
def IsOwnName (name : String) : Prop := name ≠ "" ∧ name ≠ "." ∧ name ≠ ".."

end

namespace FileTree

section

variable {t : FileTree} {l place : Location} {names : List String} {name path other : String}

/-- Where a name leads from a directory. -/
def nextPlace (l : Location) (name : String) : Except FileFault Location :=
  if name = "" ∨ name = "." then .ok l
  else if name = ".." then .ok l.dropLast
  else if nameLimit < (Text.utf8 name).length then .error .nameTooLong
  else .ok (l ++ [name])

theorem follow_cons_eq_ok : t.follow l (name :: names) = .ok place ↔
    t.entry? l = some .directory ∧
      ∃ next, nextPlace l name = .ok next ∧ t.follow next names = .ok place := by
  rw [follow, nextPlace]
  -- nothing, a file or a directory is found where the name is followed from
  split
  next hnone => simp [hnone]
  next hfile => simp [hfile]
  next hdirectory =>
    rw [and_iff_right hdirectory]
    split
    · simp
    · split
      · simp
      · split <;> simp

/-- A name of its own leads one level down. -/
theorem nextPlace_of_isOwnName {next : Location} (hname : IsOwnName name)
    (h : nextPlace l name = .ok next) : next = l ++ [name] := by
  rw [nextPlace, if_neg (not_or.mpr ⟨hname.1, hname.2.1⟩), if_neg hname.2.2] at h
  split at h
  · cases h
  · exact (Except.ok.inj h).symm

/-- Names that are followed end in the place of the last one. -/
theorem getLast?_of_follow (hname : IsOwnName name) (hlast : names.getLast? = some name)
    (h : t.follow l names = .ok place) : place.getLast? = some name := by
  induction names generalizing l with
  | nil => cases hlast
  | cons first rest ih =>
    obtain ⟨-, next, hnext, hrest⟩ := follow_cons_eq_ok.mp h
    -- only the last step matters; those before it say where it starts
    cases rest with
    | nil =>
      obtain rfl : first = name := Option.some.inj hlast
      obtain rfl : next = place := Except.ok.inj hrest
      rw [nextPlace_of_isOwnName hname hnext, List.getLast?_concat]
    | cons second rest => exact ih (List.getLast?_cons_cons.symm.trans hlast) hrest

/-- A path that leads somewhere leads to a place of the name that it ends with. -/
theorem getLast?_of_locate (hname : IsOwnName (lastName path)) (h : t.locate path = .ok place) :
    place.getLast? = some (lastName path) := by
  rw [locate] at h
  split at h
  · cases h
  · exact getLast?_of_follow hname getLast?_pathParts h

/-- There is no tree in which both paths lead to one place. -/
def LeadApart (path other : String) : Prop :=
  ∀ (t : FileTree) (place : Location), t.locate path = .ok place → t.locate other ≠ .ok place

/-- Paths that end with different names are kept apart by them. -/
theorem leadApart_of_lastName (hpath : IsOwnName (lastName path)) (hother : IsOwnName (lastName other))
    (hne : lastName path ≠ lastName other) : LeadApart path other := by
  intro t place h h'
  have hlast := (getLast?_of_locate hpath h).symm.trans (getLast?_of_locate hother h')
  exact hne (Option.some.inj hlast)

end

/-! ### What is at a place -/

section

variable {t : FileTree} {l l' : Location} {e : Entry} {path : String} {content : List UInt8}

/-- The content of the file at a place, if there is one. -/
def file? (t : FileTree) (l : Location) : Option (List UInt8) :=
  match t.entry? l with
  | some (.file content) => some content
  | _ => none

/-- A file is there with its content. -/
theorem file?_eq_some : t.file? l = some content ↔ t.entry? l = some (.file content) := by
  rw [file?]
  split
  next found hentry => rw [hentry, Option.some.injEq, Option.some.injEq, Entry.file.injEq]
  next hentry => exact iff_of_false (by simp) (hentry content)

/-- What a path leads to is what is found at its place. -/
theorem find?_eq_some : t.find? path = some e ↔ ∃ l, t.locate path = .ok l ∧ t.entry? l = some e := by
  rw [find?]
  cases t.locate path with
  | ok l => simp
  | error fault => simp

/-- Paths to one place find the same. -/
theorem find?_congr {other : String} (h : t.locate path = t.locate other) :
    t.find? path = t.find? other := by
  rw [find?, h, find?]

/-- An entry that replaces the one at its place. -/
theorem lookup_replaced {entries : List (Location × Entry)} :
    (entries.map fun entry => if entry.1 = l then (l, e) else entry).lookup l' =
      if l' = l then (entries.lookup l).map fun _ => e else entries.lookup l' := by
  induction entries with
  | nil => cases decEq l' l <;> simp [*]
  | cons entry entries ih =>
    obtain ⟨there, found⟩ := entry
    rw [List.map_cons]
    -- the entry at hand is replaced, or stands at another place
    by_cases hthere : there = l
    · subst hthere
      rw [if_pos rfl, List.lookup_cons, ih]
      by_cases hl : l' = there
      · subst hl
        simp
      · rw [if_neg hl, if_neg hl, List.lookup_cons, beq_false_of_ne hl]
    · rw [if_neg hthere, List.lookup_cons, List.lookup_cons, List.lookup_cons, ih,
        beq_false_of_ne (Ne.symm hthere)]
      by_cases hl : l' = l
      · rw [hl, beq_false_of_ne (Ne.symm hthere)]
      · rw [if_neg hl, if_neg hl]

/-- What is put at a place is there, and all else stays where it is. -/
theorem entry?_put (hl : l ≠ []) :
    FileTree.entry? (t.put l e) l' = if l' = l then some e else t.entry? l' := by
  rw [ entry?, entry?]
  -- the top is always a directory; anywhere else an entry is replaced or comes last
  split
  next htop => rw [htop, if_neg (Ne.symm hl)]
  next htop =>
    rw [put]
    dsimp only
    split
    next hsome =>
      obtain ⟨found, hfound⟩ := Option.isSome_iff_exists.mp hsome
      rw [lookup_replaced, hfound]
      rfl
    next hnone =>
      rw [List.lookup_append, List.lookup_cons, List.lookup_nil]
      by_cases hl' : l' = l
      · rw [hl', Option.not_isSome_iff_eq_none.mp hnone, beq_self_eq_true]
        simp
      · rw [beq_false_of_ne hl', if_neg hl', Option.or_none]

end

/-! ### Growing -/

/-- What was a directory still is one. -/
structure Grows (t t' : FileTree) : Prop where
  here : t'.here = t.here
  directories : ∀ l, t.entry? l = some .directory → t'.entry? l = some .directory

/-- Nothing but directories has been added. -/
structure KeepsFiles (t t' : FileTree) : Prop extends Grows t t' where
  files : ∀ l, t'.file? l = t.file? l

section

variable {t t' t'' : FileTree} {l place start : Location} {made names : List String} {path : String}

/-- Nothing has been lost of a tree that is left alone. -/
theorem Grows.refl : t.Grows t := ⟨rfl, fun _ h => h⟩

theorem Grows.trans (h : t.Grows t') (h' : t'.Grows t'') : t.Grows t'' :=
  ⟨h'.here.trans h.here, fun l hl => h'.directories l (h.directories l hl)⟩

theorem KeepsFiles.refl : t.KeepsFiles t := ⟨.refl, fun _ => rfl⟩

theorem KeepsFiles.trans (h : t.KeepsFiles t') (h' : t'.KeepsFiles t'') : t.KeepsFiles t'' :=
  ⟨h.toGrows.trans h'.toGrows, fun l => (h'.files l).trans (h.files l)⟩

/-- Names that lead somewhere lead to the same place. -/
theorem Grows.follow (ht : t.Grows t') (h : t.follow l names = .ok place) :
    t'.follow l names = .ok place := by
  induction names generalizing l with
  | nil => exact h
  | cons name rest ih =>
    obtain ⟨hdirectory, next, hnext, hrest⟩ := follow_cons_eq_ok.mp h
    exact follow_cons_eq_ok.mpr ⟨ht.directories l hdirectory, next, hnext, ih hrest⟩

/-- A path that leads somewhere leads to the same place in the larger tree. -/
theorem Grows.locate (ht : t.Grows t') (h : t.locate path = .ok place) :
    t'.locate path = .ok place := by
  rw [FileTree.locate] at h ⊢
  -- whether a path can be used at all is told by its text
  cases hfault : pathFault? path with
  | some fault => rw [hfault] at h; cases h
  | none =>
    rw [hfault] at h
    rw [origin, ht.here]
    exact ht.follow h

/-! ### What the operations change -/

/-- The top of a tree is a directory. -/
theorem ne_nil_of_not_directory (h : t.entry? l ≠ some .directory) : l ≠ [] := by
  rintro rfl
  exact h rfl

/-- A new entry in the place of what is no directory. -/
theorem grows_put {e : Entry} (h : t.entry? l ≠ some .directory) : t.Grows (t.put l e) := by
  refine ⟨rfl, fun l' hl' => ?_⟩
  rw [entry?_put (ne_nil_of_not_directory h), if_neg, hl']
  rintro rfl
  exact h hl'

/-- A directory in a place where nothing was keeps all files. -/
theorem keepsFiles_put (h : t.entry? l = none) : t.KeepsFiles (t.put l .directory) := by
  have hdirectory : t.entry? l ≠ some .directory := by simp [h]
  refine ⟨grows_put hdirectory, fun l' => ?_⟩
  rw [file?, file?, entry?_put (ne_nil_of_not_directory hdirectory)]
  by_cases hl : l' = l
  · rw [hl, if_pos rfl, h]
  · rw [if_neg hl]

/-- Making directories one below the other keeps all files. -/
theorem makeBelow_keepsFiles : t.KeepsFiles (makeBelow start made names t).2 := by
  -- along the names; the tree changes with every directory that was missing
  induction names generalizing made t with
  | nil => exact .refl
  | cons name rest ih =>
    rw [makeBelow]
    split
    next => exact .refl
    next l hl =>
      split
      -- missing, so it is made; a directory; or something else, where making ends unless the name is followed
      -- anyway
      next hnone => exact (keepsFiles_put hnone).trans ih
      next => exact ih
      next =>
        split
        next => exact .refl
        next => exact ih

/-- Where directories are made, whether or not all of them can be, the files stay as they are. -/
theorem makeDirectories_keepsFiles : t.KeepsFiles (t.makeDirectories path).2 := by
  rw [makeDirectories]
  split
  · exact .refl
  · exact makeBelow_keepsFiles

/-- A file is written where there is no directory. -/
theorem write_eq_ok {content : List UInt8} :
    t.write path content = .ok t' ↔
      ∃ l, t.locate path = .ok l ∧ t.entry? l ≠ some .directory ∧ t' = t.put l (.file content) := by
  rw [write, bind_eq_ok]
  refine exists_congr fun l => and_congr_right fun _ => ?_
  split
  next hentry => exact iff_of_false (by rintro ⟨⟩) fun h => h.1 hentry
  next hentry => rw [Except.ok.injEq, eq_comm, and_iff_right hentry]

end

/-! ### Written files -/

/-- Files with these names and texts have been written into a directory: they are there, and at every
other place there is the file that was there, or none as before. -/
structure Received (directory : String) (files : List (String × String)) (t t' : FileTree) : Prop
    extends Grows t t' where
  holds : ∀ file ∈ files,
    t'.find? (joinPath directory file.1) = some (.file (Text.utf8 file.2))
  others : ∀ l, (∀ file ∈ files, t'.locate (joinPath directory file.1) ≠ .ok l) →
    t'.file? l = t.file? l

section

variable {t t' t'' : FileTree} {directory name content : String} {files : List (String × String)}

/-- Before a file is written there are the directories alone. -/
theorem received_nil (h : t.KeepsFiles t') : Received directory [] t t' :=
  { toGrows := h.toGrows
    holds := List.forall_mem_nil _
    others := fun l _ => h.files l }

/-- With no file written, all files are as before. -/
theorem Received.keepsFiles (h : Received directory [] t t') : t.KeepsFiles t' :=
  { toGrows := h.toGrows
    files := fun l => h.others l (List.forall_mem_nil _) }

/-- A file that was there is still there, unless one of the written files has been put in its place. -/
theorem Received.find? {path : String} {place : Location} {before : List UInt8}
    (h : Received directory files t t') (hplace : t.locate path = .ok place)
    (hbefore : t.entry? place = some (.file before)) :
    t'.find? path = some (.file before) ∨
      ∃ file ∈ files, t'.locate (joinPath directory file.1) = .ok place ∧
        t'.find? path = some (.file (Text.utf8 file.2)) := by
  have hplace' := h.toGrows.locate hplace
  -- one of the written files stands at the place now, or the one from before
  by_cases hreplaced : ∃ file ∈ files, t'.locate (joinPath directory file.1) = .ok place
  · obtain ⟨file, hfile, hlocate⟩ := hreplaced
    refine .inr ⟨file, hfile, hlocate, ?_⟩
    rw [find?_congr (hplace'.trans hlocate.symm)]
    exact h.holds file hfile
  · have hsame := h.others place fun file hfile hlocate => hreplaced ⟨file, hfile, hlocate⟩
    have hfound := file?_eq_some.mp (hsame.trans (file?_eq_some.mpr hbefore))
    exact .inl (find?_eq_some.mpr ⟨place, hplace', hfound⟩)

/-- One more file is written, whose path leads nowhere where one of the others leads. -/
theorem Received.concat (h : Received directory files t t')
    (hwrite : t'.write (joinPath directory name) (Text.utf8 content) = .ok t'')
    (hapart : ∀ file ∈ files, LeadApart (joinPath directory file.1) (joinPath directory name)) :
    Received directory (files ++ [(name, content)]) t t'' := by
  obtain ⟨place, hplace, hentry, rfl⟩ := write_eq_ok.mp hwrite
  have hgrows := grows_put (e := .file (Text.utf8 content)) hentry
  have hput (l : Location) :
      FileTree.entry? (t'.put place (.file (Text.utf8 content))) l =
        if l = place then some (.file (Text.utf8 content)) else t'.entry? l :=
    entry?_put (ne_nil_of_not_directory hentry)
  -- no directory is lost, the files written are found, and other places keep their files
  refine ⟨h.toGrows.trans hgrows, fun file hfile => ?_, fun l hl => ?_⟩
  -- a file from before, which is not at the place, or the one written now
  · rcases List.mem_append.mp hfile with hfile | hfile
    · obtain ⟨l, hl, hfound⟩ := find?_eq_some.mp (h.holds file hfile)
      refine find?_eq_some.mpr ⟨l, hgrows.locate hl, ?_⟩
      rw [hput, if_neg, hfound]
      rintro rfl
      exact hapart file hfile t' l hl hplace
    · obtain rfl := List.mem_singleton.mp hfile
      exact find?_eq_some.mpr ⟨place, hgrows.locate hplace, by rw [hput, if_pos rfl]⟩
  · have hne : l ≠ place := by
      rintro rfl
      exact hl _ (List.mem_append_right _ (List.mem_singleton_self _)) (hgrows.locate hplace)
    rw [file?, hput, if_neg hne, ← file?]
    exact h.others l fun file hfile hlocate =>
      hl file (List.mem_append_left _ hfile) (hgrows.locate hlocate)

end

end FileTree

end HomeAutomaton
