/-
IrohBeam/Directory.lean

A directory of files with links.

A name leads to a file by its number; several names may lead to one file,
and a file that no name leads to is unreachable.  Creating a file and
linking one fail if the name is taken: both are the atomic steps on which
"the first one wins" protocols are built.

What a step does to one file is a `Frame`: the names that lead to it and its
content are as before.  Every operation frames all the files it does not
touch (`frame_createNew`, `frame_append`, `frame_hardLink`, `frame_unlink`).
Names and contents are of arbitrary types.
-/
import Mathlib.Logic.Function.Basic
import Mathlib.Data.Nat.Basic
import Mathlib.Data.Set.Insert

namespace Directory

/-! ### Directories -/

/-- What a name leads to.  A symbolic link stands as what it leads to, which
may be nothing. -/
inductive Entry where
  | absent
  | file (inode : ℕ)
  | directory
  | dangling
  deriving DecidableEq, Repr

/-- A directory over names `ν` whose files hold a list of `β`. -/
structure Dir (ν β : Type*) where
  entry : ν → Entry
  content : ℕ → List β
  /-- The number of the next file. -/
  next : ℕ
  file_lt : ∀ name i, entry name = .file i → i < next

variable {ν β : Type*}

/-- `O_CREAT | O_EXCL`: a new empty file, if the name is free. -/
def Dir.createNew [DecidableEq ν] (d : Dir ν β) (name : ν) : Option (Dir ν β) :=
  if d.entry name = .absent then
    some
      { entry := Function.update d.entry name (.file d.next)
        content := Function.update d.content d.next []
        next := d.next + 1
        file_lt := by
          intro name' i h
          by_cases heq : name' = name
          · rw [heq, Function.update_self] at h
            obtain rfl := Entry.file.inj h
            exact Nat.lt_succ_self _
          · rw [Function.update_of_ne heq] at h
            exact Nat.lt_succ_of_lt (d.file_lt name' i h) }
  else none

/-- Append to an open file. -/
def Dir.append (d : Dir ν β) (i : ℕ) (bytes : List β) : Dir ν β :=
  { d with content := Function.update d.content i (d.content i ++ bytes) }

/-- How `hardLink` may fail. -/
inductive LinkError where
  | alreadyExists
  | other
  deriving DecidableEq, Repr

/-- `link(2)`: a second name for a file, if that name is free. -/
def Dir.hardLink [DecidableEq ν] (d : Dir ν β) (source target : ν) : Except LinkError (Dir ν β) :=
  match h : d.entry source with
  | .file i =>
      if d.entry target = .absent then
        .ok
          { d with
            entry := Function.update d.entry target (.file i)
            file_lt := by
              intro name j hj
              by_cases heq : name = target
              · rw [heq, Function.update_self] at hj
                obtain rfl := Entry.file.inj hj
                exact d.file_lt source i h
              · rw [Function.update_of_ne heq] at hj
                exact d.file_lt name j hj }
      else .error .alreadyExists
  | _ => .error .other

/-- `unlink(2)`. -/
def Dir.unlink [DecidableEq ν] (d : Dir ν β) (name : ν) : Dir ν β :=
  { d with
    entry := Function.update d.entry name .absent
    file_lt := by
      intro name' i h
      by_cases heq : name' = name
      · rw [heq, Function.update_self] at h
        cases h
      · rw [Function.update_of_ne heq] at h
        exact d.file_lt name' i h }

/-! ### Links -/

/-- The names that lead to file `i` are those of `names`. -/
def Dir.Links (d : Dir ν β) (i : ℕ) (names : Set ν) : Prop :=
  ∀ name, d.entry name = .file i ↔ name ∈ names

/-- File `i` is as it was: the names that lead to it and its content. -/
structure Dir.Frame (d d' : Dir ν β) (i : ℕ) : Prop where
  entry : ∀ name, d'.entry name = .file i ↔ d.entry name = .file i
  content : d'.content i = d.content i

theorem Dir.Frame.refl (d : Dir ν β) (i : ℕ) : d.Frame d i := ⟨fun _ => Iff.rfl, rfl⟩

theorem Dir.Frame.links {d d' : Dir ν β} {i : ℕ} (h : d.Frame d' i) {names : Set ν}
    (hlinks : d.Links i names) : d'.Links i names :=
  fun name => (h.entry name).trans (hlinks name)

/-- A name that leads to one file leads to no other. -/
theorem Dir.Links.ne {d : Dir ν β} {i j : ℕ} {names : Set ν} (h : d.Links i names) {name : ν}
    (hname : name ∈ names) (hij : i ≠ j) : d.entry name ≠ .file j := by
  intro hj
  have hi := (h name).mpr hname
  rw [hj] at hi
  exact hij (Entry.file.inj hi).symm

/-! ### The operations -/

section Operations

variable {d d' : Dir ν β} {name source target : ν} {i j : ℕ}

@[simp] theorem entry_append (bytes : List β) : (d.append i bytes).entry = d.entry := rfl

@[simp] theorem next_append (bytes : List β) : (d.append i bytes).next = d.next := rfl

@[simp] theorem content_append (bytes : List β) :
    (d.append i bytes).content i = d.content i ++ bytes :=
  Function.update_self ..

theorem frame_append (bytes : List β) (hne : i ≠ j) : d.Frame (d.append j bytes) i :=
  ⟨fun _ => Iff.rfl, Function.update_of_ne hne ..⟩

variable [DecidableEq ν]

theorem createNew_eq_some (h : d.createNew name = some d') :
    d.entry name = .absent ∧ d'.entry = Function.update d.entry name (.file d.next) ∧
      d'.content = Function.update d.content d.next [] ∧ d'.next = d.next + 1 := by
  unfold Dir.createNew at h
  split at h
  · next hfree =>
      obtain rfl := Option.some.inj h
      exact ⟨hfree, rfl, rfl, rfl⟩
  · cases h

/-- A new file has the one name it was created under. -/
theorem links_createNew (h : d.createNew name = some d') : d'.Links d.next {name} := by
  obtain ⟨-, hentry, -, -⟩ := createNew_eq_some h
  intro name'
  rw [hentry, Set.mem_singleton_iff]
  by_cases heq : name' = name
  · simp [heq]
  · rw [Function.update_of_ne heq]
    constructor
    · intro hfile
      exact absurd (d.file_lt name' d.next hfile) (Nat.lt_irrefl _)
    · intro hname
      exact absurd hname heq

theorem frame_createNew (h : d.createNew name = some d') (hi : i < d.next) : d.Frame d' i := by
  obtain ⟨hfree, hentry, hcontent, -⟩ := createNew_eq_some h
  have hne : i ≠ d.next := Nat.ne_of_lt hi
  refine ⟨?_, ?_⟩
  · intro name'
    rw [hentry]
    by_cases heq : name' = name
    · rw [heq, Function.update_self, hfree]
      simp [Ne.symm hne]
    · rw [Function.update_of_ne heq]
  · rw [hcontent, Function.update_of_ne hne]

/-- A link succeeds on a free name and gives it to the file. -/
theorem hardLink_eq_ok (h : d.hardLink source target = .ok d') :
    ∃ i, d.entry source = .file i ∧ d.entry target = .absent ∧
      d'.entry = Function.update d.entry target (.file i) ∧ d'.content = d.content ∧
      d'.next = d.next := by
  unfold Dir.hardLink at h
  split at h
  · next i hsource =>
      split at h
      · next hfree =>
          obtain rfl := Except.ok.inj h
          exact ⟨i, hsource, hfree, rfl, rfl, rfl⟩
      · cases h
  · cases h

/-- A file is linked to a free name. -/
theorem hardLink_of_free (hsource : d.entry source = .file i) (hfree : d.entry target = .absent) :
    ∃ d', d.hardLink source target = .ok d' := by
  unfold Dir.hardLink
  split
  · rw [if_pos hfree]
    exact ⟨_, rfl⟩
  · next hne => exact absurd hsource (hne i)

theorem createNew_of_free (hfree : d.entry name = .absent) :
    ∃ d', d.createNew name = some d' := by
  unfold Dir.createNew
  rw [if_pos hfree]
  exact ⟨_, rfl⟩

theorem createNew_of_taken (htaken : d.entry name ≠ .absent) : d.createNew name = none :=
  if_neg htaken

/-- Linking adds one name to those of the file. -/
theorem links_hardLink {names : Set ν} (h : d.hardLink source target = .ok d')
    (hsource : d.entry source = .file i) (hlinks : d.Links i names) :
    d'.Links i (insert target names) := by
  obtain ⟨i', hi', -, hentry, -, -⟩ := hardLink_eq_ok h
  obtain rfl : i = i' := Entry.file.inj (hsource.symm.trans hi')
  intro name
  rw [hentry, Set.mem_insert_iff]
  by_cases heq : name = target
  · simp [heq]
  · rw [Function.update_of_ne heq, hlinks name]
    simp [heq]

theorem frame_hardLink (h : d.hardLink source target = .ok d')
    (hsource : d.entry source = .file j) (hne : i ≠ j) : d.Frame d' i := by
  obtain ⟨i', hi', hfree, hentry, hcontent, -⟩ := hardLink_eq_ok h
  obtain rfl : j = i' := Entry.file.inj (hsource.symm.trans hi')
  refine ⟨?_, by rw [hcontent]⟩
  intro name
  rw [hentry]
  by_cases heq : name = target
  · rw [heq, Function.update_self, hfree]
    simp [Ne.symm hne]
  · rw [Function.update_of_ne heq]

/-- Unlinking takes one name from those of the file. -/
theorem links_unlink {names : Set ν} (hlinks : d.Links i names) (name : ν) :
    (d.unlink name).Links i (names \ {name}) := by
  intro name'
  show Function.update d.entry name .absent name' = .file i ↔ _
  rw [Set.mem_sdiff, Set.mem_singleton_iff]
  by_cases heq : name' = name
  · simp [heq]
  · rw [Function.update_of_ne heq, hlinks name']
    simp [heq]

theorem frame_unlink (hne : d.entry name ≠ .file i) : d.Frame (d.unlink name) i := by
  refine ⟨?_, rfl⟩
  intro name'
  show Function.update d.entry name .absent name' = .file i ↔ _
  by_cases heq : name' = name
  · rw [heq, Function.update_self]
    simp [hne]
  · rw [Function.update_of_ne heq]

end Operations

end Directory
