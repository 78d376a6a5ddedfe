import PlainForm.FileTree

/-!
# Reading a file that was written

A file that was written is read back under its name. Only the file itself is new in the tree: the
directories that its name leads through were there before.
-/

namespace PlainForm.FileTree

variable {tree : FileTree} {path other : Path} {bytes : Bytes} {place : Place} {component : Text}

/-! ## Contents -/

theorem file?_put_self : (tree.put path bytes).file? path = some bytes := by
  simp [file?, put]

theorem file?_put_of_ne (h : other ≠ path) :
    (tree.put path bytes).file? other = tree.file? other := by
  have hfilter : ∀ files : List (Path × Bytes),
      (files.filter (·.1 ≠ path)).lookup other = files.lookup other := by
    intro files
    induction files with
    | nil => rfl
    | cons file files ih =>
      by_cases hfile : file.1 = path
      · have hne : (other == file.1) = false := by simpa [hfile] using h
        rw [List.filter_cons_of_neg (by simpa using hfile), ih, List.lookup_cons, hne]
      · rw [List.filter_cons_of_pos (by simpa using hfile), List.lookup_cons, List.lookup_cons, ih]
  have hne : (other == path) = false := by simpa using h
  rw [file?, put, List.lookup_cons, hne]
  exact hfilter tree.files

theorem isDirectory_iff : tree.isDirectory path ↔ path = [] ∨
    (∃ directory ∈ tree.directories, path <+: directory) ∨
      ∃ file ∈ tree.files, path <+: file.1 ∧ path ≠ file.1 := by
  simp [isDirectory, or_assoc]

theorem isDirectory_above (h : tree.isDirectory path) (hbelow : other <+: path) :
    tree.isDirectory other := by
  rw [isDirectory_iff] at h ⊢
  rcases h with rfl | ⟨directory, hmem, hpath⟩ | ⟨file, hmem, hpath, hne⟩
  · exact .inl (List.prefix_nil.1 hbelow)
  · exact .inr (.inl ⟨directory, hmem, hbelow.trans hpath⟩)
  · refine .inr (.inr ⟨file, hmem, hbelow.trans hpath, ?_⟩)
    rintro rfl
    exact hne (hpath.eq_of_length_le hbelow.length_le)

theorem isDirectory_put {parent : Path} (h : tree.isDirectory parent) (name : Text) (other : Path) :
    (tree.put (parent ++ [name]) bytes).isDirectory other ↔ tree.isDirectory other := by
  constructor
  · intro hput
    rw [isDirectory_iff] at hput
    rcases hput with hnil | hlisted | ⟨file, hmem, hbelow, hne⟩
    · exact isDirectory_iff.2 (.inl hnil)
    · exact isDirectory_iff.2 (.inr (.inl hlisted))
    rcases List.mem_cons.1 hmem with rfl | hmem
    · exact isDirectory_above h ((List.prefix_concat_iff.1 hbelow).resolve_left hne)
    · exact isDirectory_iff.2 (.inr (.inr ⟨file, (List.mem_filter.1 hmem).1, hbelow, hne⟩))
  · intro hbefore
    rw [isDirectory_iff] at hbefore
    rcases hbefore with hnil | hlisted | ⟨file, hmem, hbelow, hne⟩
    · exact isDirectory_iff.2 (.inl hnil)
    · exact isDirectory_iff.2 (.inr (.inl hlisted))
    refine isDirectory_iff.2 (.inr (.inr ?_))
    by_cases hfile : file.1 = parent ++ [name]
    · exact ⟨(parent ++ [name], bytes), List.mem_cons_self, hfile ▸ hbelow, hfile ▸ hne⟩
    · exact ⟨file, List.mem_cons_of_mem _ (List.mem_filter.2 ⟨hmem, by simpa using hfile⟩), hbelow,
        hne⟩

/-! ## Steps -/

theorem bind_eq_ok {α β : Type} {x : Except SystemError α} {next : α → Except SystemError β}
    {b : β} : x >>= next = .ok b ↔ ∃ a, x = .ok a ∧ next a = .ok b := by
  cases x <;> simp [bind, Except.bind]

def lookUp (tree : FileTree) (path : Path) : Except SystemError Place :=
  if (tree.file? path).isSome then .ok (.file path)
  else if tree.isDirectory path then .ok (.directory path)
  else .error .notFound

theorem lookUp_eq_ok : tree.lookUp path = .ok place ↔
    place = .file path ∧ (tree.file? path).isSome ∨
      place = .directory path ∧ tree.file? path = none ∧ tree.isDirectory path := by
  unfold lookUp
  cases tree.file? path <;> grind

theorem lookUp_eq_error {error : SystemError} (h : tree.lookUp path = .error error) :
    error = .notFound := by
  unfold lookUp at h
  split at h
  · cases h
  split at h <;> cases h
  rfl

/-- In a directory a component either leads the same way in all trees, upwards or to nothing that
could be made there, or it is the name of something in the directory. -/
theorem step_directory (path : Path) (component : Text) :
    (∃ result, (∀ tree : FileTree, tree.step (.directory path) component = result) ∧
      result ≠ .error .notFound ∧
      ∀ place, result = .ok place → place = .outside ∨ ∃ above, place = .directory above ∧
        above <+: path) ∨
    ∀ tree : FileTree,
      tree.step (.directory path) component = tree.lookUp (path ++ [component]) := by
  by_cases hsame : component = [] ∨ component = "."
  · refine .inl ⟨.ok (.directory path), fun tree => ?_, by simp, ?_⟩
    · rw [step, if_pos hsame]
    · rintro place ⟨⟩
      exact .inr ⟨path, rfl, List.prefix_rfl⟩
  by_cases hup : component = ".."
  · refine .inl ⟨.ok (if path = [] then .outside else .directory path.dropLast), fun tree => ?_,
      by simp, ?_⟩
    · rw [step, if_neg hsame, if_pos hup]
    · rintro place ⟨⟩
      split
      · exact .inl rfl
      · exact .inr ⟨path.dropLast, rfl, List.dropLast_prefix path⟩
  by_cases hlong : componentLimit < (Utf8.encode component).length
  · refine .inl ⟨.error .nameTooLong, fun tree => ?_, by simp, by simp⟩
    rw [step, if_neg hsame, if_neg hup, if_pos hlong]
  · refine .inr fun tree => ?_
    rw [step, if_neg hsame, if_neg hup, if_neg hlong]
    rfl

theorem step_outside (h : tree.step .outside component = .ok place) : place = .outside := by
  unfold step at h
  dsimp only at h
  split at h
  · cases h
    rfl
  · split at h <;> cases h

/-- A directory that a name leads to is one of the tree. -/
def IsKnown (tree : FileTree) (place : Place) : Prop :=
  ∀ path, place = .directory path → tree.isDirectory path

variable {next : Place} {components : List Text}

theorem IsKnown.step (h : tree.IsKnown place) (hstep : tree.step place component = .ok next) :
    tree.IsKnown next := by
  rintro path rfl
  cases place with
  | file path => cases hstep
  | outside => cases step_outside hstep
  | directory before =>
    have hbefore := h before rfl
    rcases step_directory before component with ⟨result, hsame, -, hresult⟩ | hlook
    · rw [hsame] at hstep
      rcases hresult _ hstep with habsurd | ⟨above, habove, hbelow⟩
      · cases habsurd
      · cases habove
        exact isDirectory_above hbefore hbelow
    · rw [hlook] at hstep
      rcases lookUp_eq_ok.1 hstep with ⟨habsurd, -⟩ | ⟨hplace, -, hdirectory⟩
      · cases habsurd
      · cases hplace
        exact hdirectory

theorem IsKnown.steps (h : tree.IsKnown place)
    (hsteps : components.foldlM tree.step place = .ok next) : tree.IsKnown next := by
  induction components generalizing place with
  | nil =>
    cases hsteps
    exact h
  | cons component components ih =>
    rw [List.foldlM_cons, bind_eq_ok] at hsteps
    obtain ⟨middle, hstep, hsteps⟩ := hsteps
    exact ih (h.step hstep) hsteps

theorem isKnown_start {name : Text} (h : start name = .ok place) : tree.IsKnown place := by
  rintro path rfl
  unfold start at h
  split at h
  · cases h
  split at h
  · cases h
  split at h
  · cases h
  split at h <;> cases h
  exact isDirectory_iff.2 (.inl rfl)

/-! ## After a file was put into a directory -/

section

variable {parent : Path} {name : Text} (hparent : tree.isDirectory parent)
  (hfree : tree.lookUp (parent ++ [name]) ≠ .ok (.directory (parent ++ [name])))

include hparent hfree

theorem lookUp_put (h : tree.lookUp other = .ok place) :
    (tree.put (parent ++ [name]) bytes).lookUp other = .ok place := by
  by_cases hother : other = parent ++ [name]
  · subst hother
    rcases lookUp_eq_ok.1 h with ⟨rfl, -⟩ | ⟨rfl, -⟩
    · exact lookUp_eq_ok.2 (.inl ⟨rfl, by rw [file?_put_self]; rfl⟩)
    · exact absurd h hfree
  · rw [lookUp_eq_ok, file?_put_of_ne hother, isDirectory_put hparent]
    exact lookUp_eq_ok.1 h

theorem step_put (h : tree.step place component = .ok next) :
    (tree.put (parent ++ [name]) bytes).step place component = .ok next := by
  cases place with
  | file path => exact h
  | outside => exact h
  | directory path =>
    rcases step_directory path component with ⟨result, hsame, -⟩ | hlook
    · rw [hsame] at h ⊢
      exact h
    · rw [hlook] at h ⊢
      exact lookUp_put hparent hfree h

theorem steps_put (h : components.foldlM tree.step place = .ok next) :
    components.foldlM (tree.put (parent ++ [name]) bytes).step place = .ok next := by
  induction components generalizing place with
  | nil => exact h
  | cons component components ih =>
    rw [List.foldlM_cons, bind_eq_ok] at h ⊢
    obtain ⟨middle, hstep, hsteps⟩ := h
    exact ⟨middle, step_put hparent hfree hstep, ih hsteps⟩

end

/-! ## Writing -/

theorem components_ne_nil (name : Text) : FileTree.components name ≠ [] := by
  cases name with
  | nil => simp [FileTree.components]
  | cons c name =>
    rw [FileTree.components]
    split
    · simp
    · have hne := components_ne_nil name
      simpa [List.modifyHead_eq_nil_iff] using hne

theorem exists_last (name : Text) : ∃ front last, FileTree.components name = front ++ [last] :=
  ⟨_, _, (List.dropLast_concat_getLast (components_ne_nil name)).symm⟩

theorem target_eq_ok {name : Text} (h : tree.target name = .ok path) :
    ∃ front last first parent, FileTree.components name = front ++ [last] ∧
      start name = .ok first ∧ front.foldlM tree.step first = .ok (.directory parent) ∧
      path = parent ++ [last] ∧
      (∀ tree : FileTree, tree.step (.directory parent) last = tree.lookUp path) ∧
      tree.lookUp path ≠ .ok (.directory path) := by
  obtain ⟨front, last, hcomponents⟩ := exists_last name
  unfold target at h
  rw [hcomponents, List.dropLast_concat, List.getLast?_concat, Option.getD_some] at h
  obtain ⟨first, hstart, h⟩ := bind_eq_ok.1 h
  obtain ⟨place, hsteps, h⟩ := bind_eq_ok.1 h
  dsimp only at h
  cases place with
  | file path => cases h
  | outside =>
    split at h
    · next hstep => cases step_outside hstep
    · cases h
    · next hplace => cases hplace
    · cases h
  | directory parent =>
    refine ⟨front, last, first, parent, hcomponents, hstart, hsteps, ?_⟩
    rcases step_directory parent last with ⟨result, hsame, hfound, hresult⟩ | hlook
    · -- Dots and long components lead to nothing that can be written.
      rw [hsame] at h
      cases result with
      | error error =>
        cases error with
        | notFound => exact absurd rfl hfound
        | _ => cases h
      | ok next => rcases hresult next rfl with rfl | ⟨above, rfl, -⟩ <;> cases h
    · rw [hlook] at h
      cases hplace : tree.lookUp (parent ++ [last]) with
      | error error =>
        obtain rfl := lookUp_eq_error hplace
        rw [hplace] at h
        cases h
        exact ⟨rfl, hlook, by simp [hplace]⟩
      | ok place =>
        rw [hplace] at h
        rcases lookUp_eq_ok.1 hplace with ⟨rfl, -⟩ | ⟨rfl, -⟩
        · cases h
          exact ⟨rfl, hlook, by simp [hplace]⟩
        · cases h

theorem write_eq {name : Text} (h : tree.target name = .ok path) (bytes : Bytes) :
    tree.write name bytes = .ok (tree.put path bytes) := by
  rw [write, h]
  rfl

theorem accepts_view {workingDirectory name : Text} :
    (tree.view workingDirectory).accepts name = .ok () ↔ ∃ path, tree.target name = .ok path := by
  cases h : tree.target name <;> simp [view, h, Except.map]

theorem read_write {name : Text} {written : FileTree} (h : tree.write name bytes = .ok written) :
    written.read name = .ok bytes := by
  obtain ⟨path, htarget, hwritten⟩ := bind_eq_ok.1 h
  cases hwritten
  obtain ⟨front, last, first, parent, hcomponents, hstart, hsteps, rfl, hlook, hfree⟩ :=
    target_eq_ok htarget
  have hparent : tree.isDirectory parent := (isKnown_start hstart).steps hsteps parent rfl
  have hfound : (tree.put (parent ++ [last]) bytes).lookUp (parent ++ [last]) =
      .ok (.file (parent ++ [last])) :=
    lookUp_eq_ok.2 (.inl ⟨rfl, by rw [file?_put_self]; rfl⟩)
  have hfind : (tree.put (parent ++ [last]) bytes).find name =
      .ok (.file (parent ++ [last])) := by
    refine bind_eq_ok.2 ⟨first, hstart, ?_⟩
    rw [hcomponents, List.foldlM_append]
    refine bind_eq_ok.2 ⟨.directory parent, steps_put hparent hfree hsteps, ?_⟩
    rw [List.foldlM_cons, hlook, hfound]
    rfl
  refine bind_eq_ok.2 ⟨_, hfind, ?_⟩
  simp only [file?_put_self, Option.getD_some]

end PlainForm.FileTree
