import Turtle.FileTree

/-! What writing changes in a tree of files. A file is known by the names that lead to it from
the root, and `content?` is the view of a tree in which directories do not show. Making
directories changes nothing in that view; putting a file changes it at one place, which is
where the path leads in the tree before as well as after. -/

namespace Turtle.FileTree

/-- The content of the file at the end of a list of names; a directory has none. -/
def content? (tree : FileTree) (names : List String) : Option (List UInt8) :=
  match tree.find? names with
  | some (.file content) => some content
  | _ => none

/-- Where a path leads: the names from the root to a file that is there or may be put there. -/
def place? (tree : FileTree) (path : String) : Option (List String) :=
  (tree.locate (Path.components path)).toOption.map fun (above, name) => above ++ [name]

variable {tree made : FileTree} {entries : List (String × FileTree)} {name : String}
  {names above : List String} {content : List UInt8}

theorem lookup_cons_eq (other found : String) (old : FileTree)
    (rest : List (String × FileTree)) :
    ((found, old) :: rest).lookup other = if other = found then some old else rest.lookup other := by
  by_cases h : other = found
  · subst h
    simp
  · have hne : (other == found) = false := beq_false_of_ne h
    simp [List.lookup_cons, hne, h]

theorem lookup_setEntry (name : String) (tree : FileTree) (entries : List (String × FileTree))
    (other : String) :
    (setEntry name tree entries).lookup other =
      if other = name then some tree else entries.lookup other := by
  induction entries with
  | nil => exact lookup_cons_eq other name tree []
  | cons entry rest ih =>
    obtain ⟨found, old⟩ := entry
    rw [setEntry]
    split
    · rename_i hfound
      subst hfound
      rw [lookup_cons_eq, lookup_cons_eq]
      split <;> rfl
    · rename_i hfound
      rw [lookup_cons_eq, lookup_cons_eq, ih]
      by_cases h : other = found
      · rw [if_pos h, if_pos h, if_neg (h ▸ hfound)]
      · rw [if_neg h, if_neg h]

@[simp] theorem find?_nil : tree.find? [] = some tree := by rw [find?]

@[simp] theorem find?_file : (file content).find? (name :: names) = none := by simp [find?, entry?]

theorem find?_directory :
    (directory entries).find? (name :: names) = (entries.lookup name).bind (find? names) := by
  simp [find?, entry?]

@[simp] theorem content?_directory_nil : (directory entries).content? [] = none := by
  simp [content?]

@[simp] theorem content?_file_nil : (file content).content? [] = some content := by
  simp [content?]

@[simp] theorem content?_file : (file content).content? (name :: names) = none := by
  simp [content?]

theorem content?_directory :
    (directory entries).content? (name :: names) =
      (entries.lookup name).bind fun inner => inner.content? names := by
  rw [content?, find?_directory]
  cases entries.lookup name <;> rfl

@[simp] theorem content?_empty : (directory []).content? names = none := by
  cases names with
  | nil => simp
  | cons name names => simp [content?_directory]

/-- Making directories changes no file. -/
theorem content?_makeDirectories {path : List String} (h : makeDirectories path tree = .ok made)
    (names : List String) : made.content? names = tree.content? names := by
  induction path generalizing tree made names with
  | nil =>
    cases tree with
    | file content => cases h
    | directory entries =>
      obtain rfl := Except.ok.inj h
      rfl
  | cons first rest ih =>
    cases tree with
    | file content => cases h
    | directory entries =>
      rw [makeDirectories] at h
      split at h
      · cases h
      · cases hinner : makeDirectories rest ((entries.lookup first).getD (.directory [])) with
        | error e =>
          rw [hinner] at h
          cases h
        | ok inner =>
          rw [hinner] at h
          obtain rfl := Except.ok.inj h
          cases names with
          | nil => simp
          | cons name names =>
            rw [content?_directory, content?_directory, lookup_setEntry]
            by_cases hname : name = first
            · subst hname
              have hsame := ih hinner names
              cases hlookup : entries.lookup name <;> simp_all
            · rw [if_neg hname]

/-- A file may stand at a name in the directory at the end of a list of names: the directory is
there, and the name is not that of a directory in it. -/
structure Free (tree : FileTree) (above : List String) (name : String) : Prop where
  parent : ∃ entries, tree.find? above = some (.directory entries)
  apart : ∀ entries, tree.find? (above ++ [name]) ≠ some (.directory entries)

theorem Free.here (h : tree.Free [] name) :
    ∃ entries, tree = directory entries ∧ ∀ inside, entries.lookup name ≠ some (directory inside) := by
  obtain ⟨entries, hdir⟩ := h.parent
  obtain rfl : tree = directory entries := by simpa using hdir
  refine ⟨entries, rfl, fun inside hlookup => h.apart inside ?_⟩
  rw [List.nil_append, find?_directory, hlookup]
  simp

/-- One step on the way to the place of a file. -/
theorem Free.below {first : String} (h : tree.Free (first :: above) name) :
    ∃ entries inner, tree = directory entries ∧ entries.lookup first = some inner ∧
      inner.Free above name ∧
      ∀ content, put name content (first :: above) tree =
        directory (setEntry first (put name content above inner) entries) := by
  obtain ⟨⟨inside, hdir⟩, hname⟩ := h
  cases tree with
  | file old => simp at hdir
  | directory entries =>
    rw [List.cons_append] at hname
    simp only [find?_directory] at hdir hname
    cases hlookup : entries.lookup first with
    | none => simp [hlookup] at hdir
    | some inner =>
      rw [hlookup] at hdir hname
      exact ⟨entries, inner, rfl, hlookup, ⟨⟨inside, hdir⟩, hname⟩,
        fun content => by rw [put, hlookup]⟩

/-- Putting a file changes the content at its place and nowhere else. -/
theorem content?_put (h : tree.Free above name) (names : List String) :
    (put name content above tree).content? names =
      if names = above ++ [name] then some content else tree.content? names := by
  induction above generalizing tree names with
  | nil =>
    obtain ⟨entries, rfl, hname⟩ := h.here
    rw [put]
    cases names with
    | nil => simp
    | cons first rest =>
      rw [content?_directory, content?_directory, lookup_setEntry]
      by_cases hfirst : first = name
      · subst hfirst
        cases rest with
        | nil => simp
        | cons second more =>
          -- below the place there was nothing before, as no directory stood there
          cases hlookup : entries.lookup first with
          | none => simp
          | some inner =>
            cases inner with
            | file old => simp
            | directory inside => exact absurd hlookup (hname inside)
      · simp [hfirst]
  | cons first rest ih =>
    obtain ⟨entries, inner, rfl, hlookup, hinner, hput⟩ := h.below
    rw [hput]
    cases names with
    | nil => simp
    | cons found more =>
      rw [content?_directory, content?_directory, lookup_setEntry]
      by_cases hfound : found = first
      · subst hfound
        rw [if_pos rfl, hlookup, Option.bind_some, Option.bind_some, ih hinner]
        simp
      · simp [hfound]

/-- A tree has every directory of another, with its entries or others under their names. -/
def Extends (after before : FileTree) : Prop :=
  ∀ names entries, before.find? names = some (.directory entries) →
    ∃ more, after.find? names = some (.directory more) ∧
      ∀ name, (entries.lookup name).isSome → (more.lookup name).isSome

/-- To set the entry of a name keeps the root, and what is found by other names. -/
theorem extends_setEntry {inner : FileTree}
    (h : ∀ names found, (entries.lookup name).bind (find? names) = some (directory found) →
      ∃ more, inner.find? names = some (.directory more) ∧
        ∀ name, (found.lookup name).isSome → (more.lookup name).isSome) :
    (directory (setEntry name inner entries)).Extends (directory entries) := by
  intro names found hfound
  cases names with
  | nil =>
    obtain rfl : entries = found := by simpa using hfound
    refine ⟨_, find?_nil, fun other hother => ?_⟩
    rw [lookup_setEntry]
    split
    · rfl
    · exact hother
  | cons first rest =>
    rw [find?_directory] at hfound
    rw [find?_directory, lookup_setEntry]
    split
    · rename_i hfirst
      subst hfirst
      exact h rest found hfound
    · exact ⟨found, hfound, fun _ => id⟩

/-- Putting a file takes no directory away. -/
theorem extends_put (h : tree.Free above name) : (put name content above tree).Extends tree := by
  induction above generalizing tree with
  | nil =>
    obtain ⟨entries, rfl, hname⟩ := h.here
    refine extends_setEntry fun names found hfound => ?_
    -- nothing below the name is a directory, as a file or nothing stands there
    cases hlookup : entries.lookup name with
    | none => simp [hlookup] at hfound
    | some inner =>
      cases inner with
      | directory inside => exact absurd hlookup (hname inside)
      | file old => cases names <;> simp [hlookup] at hfound
  | cons first rest ih =>
    obtain ⟨entries, inner, rfl, hlookup, hinner, hput⟩ := h.below
    rw [hput]
    refine extends_setEntry fun names found hfound => ?_
    rw [hlookup] at hfound
    exact ih hinner names found hfound

/-- What components lead to in a tree they lead to in a tree that has its directories. -/
theorem enter_of_extends {after : FileTree} (h : after.Extends tree) {here path : List String}
    (hin : tree.enter here path = .ok above) : after.enter here path = .ok above := by
  induction path generalizing here with
  | nil =>
    unfold enter at hin ⊢
    split at hin
    · rename_i entries hfind
      obtain ⟨more, hmore, -⟩ := h _ _ hfind
      rw [hmore]
      exact hin
    · cases hin
    · cases hin
  | cons first rest ih =>
    unfold enter at hin ⊢
    split at hin
    · rename_i entries hfind
      obtain ⟨more, hmore, hentries⟩ := h _ _ hfind
      rw [hmore]
      dsimp only
      split at hin
      · rename_i hstay
        rw [if_pos hstay]
        exact ih hin
      · rename_i hstay
        rw [if_neg hstay]
        split at hin
        · rename_i hup
          rw [if_pos hup]
          cases here with
          | nil => cases hin
          | cons last before => exact ih hin
        · rename_i hup
          rw [if_neg hup]
          split at hin
          · cases hin
          · rename_i hshort
            rw [if_neg hshort]
            split at hin
            · cases hin
            · rename_i hthere
              have hsome := hentries first (by simpa using hthere)
              rw [if_neg (by simpa using hsome)]
              exact ih hin
    · cases hin
    · cases hin

/-- Components lead to a directory. -/
theorem exists_of_enter {here path : List String} (hin : tree.enter here path = .ok above) :
    ∃ entries, tree.find? above = some (.directory entries) := by
  induction path generalizing here with
  | nil =>
    unfold enter at hin
    split at hin
    · rename_i entries hfind
      exact ⟨entries, Except.ok.inj hin ▸ hfind⟩
    · cases hin
    · cases hin
  | cons first rest ih =>
    unfold enter at hin
    split at hin
    · split at hin
      · exact ih hin
      · split at hin
        · cases here with
          | nil => cases hin
          | cons last before => exact ih hin
        · split at hin
          · cases hin
          · split at hin
            · cases hin
            · exact ih hin
    · cases hin
    · cases hin

/-- A path leads to a name in a directory. -/
theorem exists_of_locate {path : List String} (h : tree.locate path = .ok (above, name)) :
    (∃ entries, tree.find? above = some (.directory entries)) ∧
      ∀ after : FileTree, after.Extends tree → after.locate path = .ok (above, name) := by
  unfold locate at h
  cases hin : tree.enter [] path.dropLast with
  | error e =>
    rw [hin] at h
    cases h
  | ok found =>
    rw [hin] at h
    have hfound : found = above := by
      simp only [bind, Except.bind] at h
      split at h
      · cases h
      · split at h
        · cases h
        · exact congrArg Prod.fst (Except.ok.inj h)
    subst hfound
    refine ⟨exists_of_enter hin, fun after hafter => ?_⟩
    unfold locate
    rw [enter_of_extends hafter hin]
    exact h

/-- A file that could be opened for writing is put where its path leads. -/
theorem exists_of_writeOpened {path : String} {written : FileTree}
    (h : tree.writeOpened path content = .ok written) :
    ∃ above name, tree.Free above name ∧ written = put name content above tree ∧
      written.place? path = some (above ++ [name]) := by
  unfold writeOpened at h
  simp only [bind, Except.bind, pure, Except.pure, throw, throwThe, MonadExceptOf.throw] at h
  split at h
  · cases h
  · split at h
    · -- a path that ends in a slash is not opened
      split at h
      · cases h
      · cases h
    · split at h
      · cases h
      · rename_i found hlocate
        obtain ⟨above, name⟩ := found
        obtain ⟨hdir, hstable⟩ := exists_of_locate hlocate
        split at h
        · cases h
        · rename_i hfind
          obtain rfl := Except.ok.inj h
          have hfree : tree.Free above name := ⟨hdir, hfind⟩
          refine ⟨above, name, hfree, rfl, ?_⟩
          rw [place?, hstable _ (extends_put hfree)]
          rfl

/-- A write that fails changes no file, though directories may have been made for it. -/
theorem content?_of_write_error {path : String} {e : FileError}
    (h : (tree.write path content).1 = .error e) :
    (tree.write path content).2.content? = tree.content? := by
  unfold write at h ⊢
  cases hmade : makeDirectories (Path.normalize (Path.components path)).dropLast tree with
  | error e' => rfl
  | ok made =>
    simp only [hmade] at h ⊢
    cases hwritten : made.writeOpened path content with
    | error e' => exact funext (content?_makeDirectories hmade)
    | ok written =>
      rw [hwritten] at h
      cases h

/-- A write that succeeds changes the content at the place of its path and nowhere else. -/
theorem content?_of_write_ok {path : String} (h : (tree.write path content).1 = .ok ()) :
    ∃ place, (tree.write path content).2.place? path = some place ∧
      (tree.write path content).2.content? place = some content ∧
      ∀ other, other ≠ place →
        (tree.write path content).2.content? other = tree.content? other := by
  unfold write at h ⊢
  cases hmade : makeDirectories (Path.normalize (Path.components path)).dropLast tree with
  | error e =>
    rw [hmade] at h
    cases h
  | ok made =>
    simp only [hmade] at h ⊢
    cases hwritten : made.writeOpened path content with
    | error e =>
      rw [hwritten] at h
      cases h
    | ok written =>
      obtain ⟨above, name, hfree, rfl, hplace⟩ := exists_of_writeOpened hwritten
      refine ⟨_, hplace, ?_, fun other hother => ?_⟩
      · rw [content?_put hfree, if_pos rfl]
      · rw [content?_put hfree, if_neg hother, content?_makeDirectories hmade]

end Turtle.FileTree
