/-
IrohBeam/IdentityFile.lean

The identity file (`native/iroh_beam_nif/src/identity.rs`):
`identity_load_or_create`, `create_identity` and `read_key`, run by any
number of calls in any number of processes on one path.

Every file-system operation is one step of its call; between any two of
them other calls may act, an operation may fail, and a call may crash.  The
new key is written to a temporary file and published with a hard link, so
that the first call to link wins and the others read what it published.

The argument follows the files, not the names.  A call owns the file it has
created until it returns; `CallInv` says at each stage which names lead to
that file and what it holds, `StepFacts` what one step of one call does to
everything else.  From these, `IdentityState.Inv` holds in every reachable
state.

Left out: a symbolic link at the path that leads to a temporary name.
-/
import IrohBeam.Run
import IrohBeam.Term
import IrohBeam.Directory

namespace IrohBeam

open Bytes Directory Transition

/-! ### The call -/

/-- The names in the directory: the identity path, and the temporary names
`.{name}.{pid}.{sequence}.tmp` beside it. -/
inductive FileName where
  | path
  | temp (pid sequence : ℕ)
  deriving DecidableEq, Repr

/-- The directory of the identity file. -/
abbrev IdentityDir := Dir FileName UInt8

/-- The path argument, with what `Path::parent` and `Path::file_name` find in it. -/
structure IdentityPath where
  text : Binary
  hasParent : Bool
  hasFileName : Bool

/-- `KEY_SIZE`. -/
def keySize : ℕ := 32

/-- `io_error`. -/
def ioError (message : String) : Error := ⟨.io, .identityLoad, message⟩

/-- `invalid(atoms::identity_load(), message)`. -/
def invalidIdentity (message : String) : Error := ⟨.invalidArgument, .identityLoad, message⟩

/-- What `hard_link` answered. -/
inductive Publication where
  | published | alreadyExists | failed
  deriving DecidableEq, Repr

/-- Where a call is: the operation it does next. -/
inductive LoadStage where
  | start
  | lookup
  | createDirAll
  | generate
  | createTemp (key : Binary) (temp : FileName)
  | write (key : Binary) (temp : FileName) (inode written : ℕ)
  | sync (key : Binary) (temp : FileName)
  | discardTemp (temp : FileName)
  | hardLink (key : Binary) (temp : FileName)
  | removeTemp (key : Binary) (temp : FileName) (publication : Publication)
  | metadata
  | read
  | done (result : Except Error Binary)
  | crashed

/-- A call.  `made` records the key it has generated and the file it has
created for it; the code does not read it. -/
structure LoadCall where
  stage : LoadStage
  made : Option (Binary × ℕ)

/-- One operation of a call.  A flag says whether the system lets it
succeed. -/
inductive LoadAction where
  | check
  | lookup (ok : Bool)
  | createDirAll (ok : Bool)
  | generate (key : Binary)
  | createTemp (ok : Bool)
  | write (count : ℕ)
  | writeFails
  | sync (ok : Bool)
  | discardTemp
  | hardLink (ok : Bool)
  | removeTemp
  | metadata (ok : Bool)
  | read (ok : Bool)
  | crash

/-- The call moves on. -/
def LoadCall.to (call : LoadCall) (stage : LoadStage) : LoadCall := { call with stage }

/-- The call returns. -/
def LoadCall.finish (call : LoadCall) (result : Except Error Binary) : LoadCall :=
  call.to (.done result)

/-- `fs::metadata(path)` in `read_key`. -/
def readMetadata (dir : IdentityDir) (ok : Bool) (call : LoadCall) : LoadCall :=
  match ok, dir.entry .path with
  | true, .file i =>
      if (dir.content i).length ≠ keySize then
        call.finish (.error (invalidIdentity "identity file has an invalid format"))
      else call.to .read
  | true, .directory =>
      call.finish (.error (invalidIdentity "identity file has an invalid format"))
  | _, _ => call.finish (.error (ioError "identity file could not be read"))

/-- `fs::read(path)` in `read_key`. -/
def readBytes (dir : IdentityDir) (ok : Bool) (call : LoadCall) : LoadCall :=
  match ok, dir.entry .path with
  | true, .file i =>
      if (dir.content i).length = keySize then call.finish (.ok (dir.content i))
      else call.finish (.error (invalidIdentity "identity file has an invalid format"))
  | _, _ => call.finish (.error (ioError "identity file could not be read"))

/-- `hard_link(&temp, path)`. -/
def publish (dir : IdentityDir) (ok : Bool) (temp : FileName) : IdentityDir × Publication :=
  if ok then
    match dir.hardLink temp .path with
    | .ok dir' => (dir', .published)
    | .error .alreadyExists => (dir, .alreadyExists)
    | .error .other => (dir, .failed)
  else (dir, .failed)

/-- One operation of `identity_load_or_create` in a process with the given
OS process identifier, on the directory and the process's `TEMP_COUNTER`. -/
def loadStep (path : IdentityPath) (pid : ℕ) (dir : IdentityDir) (counter : ℕ)
    (call : LoadCall) (action : LoadAction) : Option (IdentityDir × ℕ × LoadCall) :=
  match action, call.stage with
  | .check, .start =>
      if path.text = [] ∨ 32 * 1024 < path.text.length then
        some (dir, counter, call.finish (.error (invalidIdentity "identity path is invalid")))
      else some (dir, counter, call.to .lookup)
  | .lookup ok, .lookup =>
      -- `path.exists()` takes an error for absence
      match ok, dir.entry .path with
      | true, .file _ | true, .directory => some (dir, counter, call.to .metadata)
      | _, _ => some (dir, counter, call.to .createDirAll)
  | .createDirAll ok, .createDirAll =>
      if path.hasParent = false then
        some (dir, counter,
          call.finish (.error (invalidIdentity "identity path has no parent directory")))
      else if ok then some (dir, counter, call.to .generate)
      else some (dir, counter,
        call.finish (.error (ioError "identity directory could not be created")))
  | .generate key, .generate =>
      if key.length = keySize then
        if path.hasFileName = false then
          some (dir, counter, call.finish (.error (invalidIdentity "identity path is invalid")))
        else
          some (dir, (counter + 1) % 2 ^ 64, call.to (.createTemp key (.temp pid counter)))
      else none
  | .createTemp ok, .createTemp key temp =>
      match ok, dir.createNew temp with
      | true, some dir' =>
          some (dir', counter, ⟨.write key temp dir.next 0, some (key, dir.next)⟩)
      | _, _ => some (dir, counter, call.finish (.error (ioError "identity temporary file failed")))
  | .write count, .write key temp i written =>
      if 0 < count ∧ written + count ≤ keySize then
        let dir' := dir.append i ((key.drop written).take count)
        if written + count = keySize then some (dir', counter, call.to (.sync key temp))
        else some (dir', counter, call.to (.write key temp i (written + count)))
      else none
  | .writeFails, .write _ temp _ _ => some (dir, counter, call.to (.discardTemp temp))
  | .sync ok, .sync key temp =>
      if ok then some (dir, counter, call.to (.hardLink key temp))
      else some (dir, counter, call.to (.discardTemp temp))
  | .discardTemp, .discardTemp temp =>
      some (dir.unlink temp, counter,
        call.finish (.error (ioError "identity temporary file could not be written")))
  | .hardLink ok, .hardLink key temp =>
      some ((publish dir ok temp).1, counter,
        call.to (.removeTemp key temp (publish dir ok temp).2))
  | .removeTemp, .removeTemp key temp publication =>
      match publication with
      | .published => some (dir.unlink temp, counter, call.finish (.ok key))
      | .alreadyExists => some (dir.unlink temp, counter, call.to .metadata)
      | .failed => some (dir.unlink temp, counter,
          call.finish (.error (ioError "identity file could not be published")))
  | .metadata ok, .metadata => some (dir, counter, readMetadata dir ok call)
  | .read ok, .read => some (dir, counter, readBytes dir ok call)
  | .crash, .done _ | .crash, .crashed => none
  | .crash, _ => some (dir, counter, call.to .crashed)
  | _, _ => none

/-- Every step of a call, with the stage it is taken at. -/
inductive LoadMove (path : IdentityPath) (pid : ℕ) (dir : IdentityDir) (counter : ℕ)
    (call : LoadCall) : LoadAction → LoadStage → IdentityDir → ℕ → LoadCall → Prop
  | invalid : path.text = [] ∨ 32 * 1024 < path.text.length →
      LoadMove path pid dir counter call .check .start dir counter
        (call.finish (.error (invalidIdentity "identity path is invalid")))
  | check : ¬ (path.text = [] ∨ 32 * 1024 < path.text.length) →
      LoadMove path pid dir counter call .check .start dir counter (call.to .lookup)
  | found : dir.entry .path ≠ .absent →
      LoadMove path pid dir counter call (.lookup true) .lookup dir counter (call.to .metadata)
  | missing {ok} : (∀ i, ok = true → dir.entry .path ≠ .file i) →
      LoadMove path pid dir counter call (.lookup ok) .lookup dir counter (call.to .createDirAll)
  | noParent {ok} : path.hasParent = false →
      LoadMove path pid dir counter call (.createDirAll ok) .createDirAll dir counter
        (call.finish (.error (invalidIdentity "identity path has no parent directory")))
  | createDirAll : LoadMove path pid dir counter call (.createDirAll true) .createDirAll dir counter
      (call.to .generate)
  | dirFails : LoadMove path pid dir counter call (.createDirAll false) .createDirAll dir counter
      (call.finish (.error (ioError "identity directory could not be created")))
  | noFileName {key} : path.hasFileName = false →
      LoadMove path pid dir counter call (.generate key) .generate dir counter
        (call.finish (.error (invalidIdentity "identity path is invalid")))
  | generate {key} : key.length = keySize →
      LoadMove path pid dir counter call (.generate key) .generate dir ((counter + 1) % 2 ^ 64)
        (call.to (.createTemp key (.temp pid counter)))
  | createTemp {key temp dir'} : dir.createNew temp = some dir' →
      LoadMove path pid dir counter call (.createTemp true) (.createTemp key temp) dir' counter
        ⟨.write key temp dir.next 0, some (key, dir.next)⟩
  | tempFails {ok key temp} : (ok = true → dir.createNew temp = none) →
      LoadMove path pid dir counter call (.createTemp ok) (.createTemp key temp) dir counter
        (call.finish (.error (ioError "identity temporary file failed")))
  | writeLast {count key temp i written} : 0 < count → written + count = keySize →
      LoadMove path pid dir counter call (.write count) (.write key temp i written)
        (dir.append i ((key.drop written).take count)) counter (call.to (.sync key temp))
  | write {count key temp i written} : 0 < count → written + count < keySize →
      LoadMove path pid dir counter call (.write count) (.write key temp i written)
        (dir.append i ((key.drop written).take count)) counter
        (call.to (.write key temp i (written + count)))
  | writeFails {key temp i written} :
      LoadMove path pid dir counter call .writeFails (.write key temp i written) dir counter
        (call.to (.discardTemp temp))
  | sync {key temp} : LoadMove path pid dir counter call (.sync true) (.sync key temp) dir counter
      (call.to (.hardLink key temp))
  | syncFails {key temp} :
      LoadMove path pid dir counter call (.sync false) (.sync key temp) dir counter
        (call.to (.discardTemp temp))
  | discardTemp {temp} :
      LoadMove path pid dir counter call .discardTemp (.discardTemp temp) (dir.unlink temp) counter
        (call.finish (.error (ioError "identity temporary file could not be written")))
  | hardLink {ok key temp} :
      LoadMove path pid dir counter call (.hardLink ok) (.hardLink key temp)
        (publish dir ok temp).1 counter (call.to (.removeTemp key temp (publish dir ok temp).2))
  | removeTemp {key temp} :
      LoadMove path pid dir counter call .removeTemp (.removeTemp key temp .published)
        (dir.unlink temp) counter (call.finish (.ok key))
  | lost {key temp} :
      LoadMove path pid dir counter call .removeTemp (.removeTemp key temp .alreadyExists)
        (dir.unlink temp) counter (call.to .metadata)
  | linkFails {key temp} :
      LoadMove path pid dir counter call .removeTemp (.removeTemp key temp .failed)
        (dir.unlink temp) counter
        (call.finish (.error (ioError "identity file could not be published")))
  | metadata {ok} : LoadMove path pid dir counter call (.metadata ok) .metadata dir counter
      (readMetadata dir ok call)
  | read {ok} : LoadMove path pid dir counter call (.read ok) .read dir counter
      (readBytes dir ok call)
  | crash {stage} : (∀ result, stage ≠ .done result) → stage ≠ .crashed →
      LoadMove path pid dir counter call .crash stage dir counter (call.to .crashed)

theorem loadStep_move {path : IdentityPath} {pid counter : ℕ} {dir : IdentityDir} {call : LoadCall}
    {action : LoadAction} {r : IdentityDir × ℕ × LoadCall}
    (h : loadStep path pid dir counter call action = some r) :
    LoadMove path pid dir counter call action call.stage r.1 r.2.1 r.2.2 := by
  unfold loadStep at h
  split at h
  -- check
  · next hs =>
      rw [hs]
      split at h
      · next hinvalid => exact Option.some.inj h ▸ .invalid hinvalid
      · next hvalid => exact Option.some.inj h ▸ .check hvalid
  -- lookup
  · next hs =>
      rw [hs]
      split at h
      · next hfile => exact Option.some.inj h ▸ .found (by simp [hfile])
      · next hdirectory => exact Option.some.inj h ▸ .found (by simp [hdirectory])
      · next hnofile _ => exact Option.some.inj h ▸ .missing hnofile
  -- createDirAll
  · next ok hs =>
      rw [hs]
      split at h
      · next hparent => exact Option.some.inj h ▸ .noParent hparent
      · cases ok with
        | true => exact Option.some.inj h ▸ .createDirAll
        | false => exact Option.some.inj h ▸ .dirFails
  -- generate
  · next hs =>
      rw [hs]
      split at h
      · next hkey =>
          split at h
          · next hname => exact Option.some.inj h ▸ .noFileName hname
          · exact Option.some.inj h ▸ .generate hkey
      · cases h
  -- createTemp
  · next ok key temp hs =>
      rw [hs]
      split at h
      · next hnew => exact Option.some.inj h ▸ .createTemp hnew
      · next hfails =>
          refine Option.some.inj h ▸ .tempFails ?_
          intro hok
          exact Option.eq_none_iff_forall_ne_some.mpr fun dir' => hfails dir' hok
  -- write
  · next hs =>
      rw [hs]
      split at h
      · next hcount =>
          split at h
          · next hlast => exact Option.some.inj h ▸ .writeLast hcount.1 hlast
          · next hmore =>
              exact Option.some.inj h ▸ .write hcount.1 (Nat.lt_of_le_of_ne hcount.2 hmore)
      · cases h
  · next hs => exact hs ▸ Option.some.inj h ▸ .writeFails
  -- sync
  · next ok _ _ hs =>
      rw [hs]
      cases ok with
      | true => exact Option.some.inj h ▸ .sync
      | false => exact Option.some.inj h ▸ .syncFails
  · next hs => exact hs ▸ Option.some.inj h ▸ .discardTemp
  · next hs => exact hs ▸ Option.some.inj h ▸ .hardLink
  -- removeTemp
  · next hs =>
      rw [hs]
      split at h
      · exact Option.some.inj h ▸ .removeTemp
      · exact Option.some.inj h ▸ .lost
      · exact Option.some.inj h ▸ .linkFails
  · next hs => exact hs ▸ Option.some.inj h ▸ .metadata
  · next hs => exact hs ▸ Option.some.inj h ▸ .read
  -- crash
  · cases h
  · cases h
  · next hdone hcrashed => exact Option.some.inj h ▸ .crash hdone hcrashed
  · cases h

/-! ### Any number of calls -/

/-- Where the calls run: the process of each call and the identifier of each
process.  Identifiers may repeat, since processes may share a file system and
no process table. -/
structure LoadSetting where
  path : IdentityPath
  process : ℕ → ℕ
  pid : ℕ → ℕ

/-- The directory, the counter of each process and the calls. -/
structure IdentityState where
  dir : IdentityDir
  counter : ℕ → ℕ
  calls : ℕ → LoadCall

/-- No call has started. -/
def IdentityState.init (dir : IdentityDir) (counter : ℕ → ℕ) : IdentityState :=
  { dir, counter, calls := fun _ => ⟨.start, none⟩ }

/-- Call `c` does one operation. -/
def identityStep (setting : LoadSetting) (s : IdentityState) (a : ℕ × LoadAction) :
    Option IdentityState :=
  (loadStep setting.path (setting.pid (setting.process a.1)) s.dir
      (s.counter (setting.process a.1)) (s.calls a.1) a.2).map fun r =>
    { dir := r.1
      counter := Function.update s.counter (setting.process a.1) r.2.1
      calls := Function.update s.calls a.1 r.2.2 }

/-! ### One call -/

/-- What a call knows of its own file and, once it has returned a key, of the
file at the path. -/
def StageInv (dir : IdentityDir) (made : Option (Binary × ℕ)) : LoadStage → Prop
  | .start | .lookup | .createDirAll | .generate => made = none
  | .createTemp key temp => made = none ∧ key.length = keySize ∧ temp ≠ .path
  | .write key temp i written =>
      made = some (key, i) ∧ key.length = keySize ∧ temp ≠ .path ∧ dir.Links i {temp} ∧
        dir.content i = key.take written
  | .sync key temp | .hardLink key temp =>
      ∃ i, made = some (key, i) ∧ key.length = keySize ∧ temp ≠ .path ∧ dir.Links i {temp} ∧
        dir.content i = key
  | .discardTemp temp =>
      ∃ key i, made = some (key, i) ∧ temp ≠ .path ∧ dir.Links i {temp}
  | .removeTemp key temp .published =>
      ∃ i, made = some (key, i) ∧ key.length = keySize ∧ temp ≠ .path ∧
        dir.Links i {.path, temp} ∧ dir.content i = key
  | .removeTemp key temp _ =>
      ∃ i, made = some (key, i) ∧ temp ≠ .path ∧ dir.Links i {temp}
  | .metadata | .read => ∀ key i, made = some (key, i) → dir.Links i ∅
  | .done result =>
      (∀ key i, made = some (key, i) → ∀ pid sequence, dir.entry (.temp pid sequence) ≠ .file i) ∧
        ∀ key, result = .ok key →
          key.length = keySize ∧ ∃ i, dir.entry .path = .file i ∧ dir.content i = key
  | .crashed => True

/-- The invariant of a call. -/
structure CallInv (dir : IdentityDir) (call : LoadCall) : Prop where
  stage : StageInv dir call.made call.stage
  made_lt : ∀ key i, call.made = some (key, i) → i < dir.next

/-- The file at the path is as it was. -/
def PathKept (dir dir' : IdentityDir) : Prop :=
  dir.entry .path ≠ .absent → dir'.entry .path = dir.entry .path ∧
    ∀ i, dir.entry .path = .file i → dir'.content i = dir.content i

theorem PathKept.refl (dir : IdentityDir) : PathKept dir dir := fun _ => ⟨rfl, fun _ _ => rfl⟩

theorem PathKept.trans {d₁ d₂ d₃ : IdentityDir} (h₁ : PathKept d₁ d₂) (h₂ : PathKept d₂ d₃) :
    PathKept d₁ d₃ := by
  intro hne
  obtain ⟨hentry, hcontent⟩ := h₁ hne
  obtain ⟨hentry', hcontent'⟩ := h₂ (by rw [hentry]; exact hne)
  refine ⟨hentry'.trans hentry, ?_⟩
  intro i hi
  rw [hcontent' i (by rw [hentry, hi]), hcontent i hi]

/-- The file a call has made as the other steps leave it. -/
theorem StageInv.frame {dir dir' : IdentityDir} {made : Option (Binary × ℕ)} {stage : LoadStage}
    (h : StageInv dir made stage) (hframe : ∀ key i, made = some (key, i) → dir.Frame dir' i)
    (hpath : PathKept dir dir') : StageInv dir' made stage := by
  cases stage with
  | start | lookup | createDirAll | generate => exact h
  | createTemp key temp => exact h
  | write key temp i written =>
      obtain ⟨hmade, hkey, htemp, hlinks, hcontent⟩ := h
      have hf := hframe key i hmade
      exact ⟨hmade, hkey, htemp, hf.links hlinks, hf.content.trans hcontent⟩
  | sync key temp | hardLink key temp =>
      obtain ⟨i, hmade, hkey, htemp, hlinks, hcontent⟩ := h
      have hf := hframe key i hmade
      exact ⟨i, hmade, hkey, htemp, hf.links hlinks, hf.content.trans hcontent⟩
  | discardTemp temp =>
      obtain ⟨key, i, hmade, htemp, hlinks⟩ := h
      exact ⟨key, i, hmade, htemp, (hframe key i hmade).links hlinks⟩
  | removeTemp key temp publication =>
      cases publication with
      | published =>
          obtain ⟨i, hmade, hkey, htemp, hlinks, hcontent⟩ := h
          have hf := hframe key i hmade
          exact ⟨i, hmade, hkey, htemp, hf.links hlinks, hf.content.trans hcontent⟩
      | alreadyExists | failed =>
          obtain ⟨i, hmade, htemp, hlinks⟩ := h
          exact ⟨i, hmade, htemp, (hframe key i hmade).links hlinks⟩
  | metadata | read =>
      intro key i hmade
      exact (hframe key i hmade).links (h key i hmade)
  | done result =>
      obtain ⟨hgone, hresult⟩ := h
      refine ⟨?_, ?_⟩
      · intro key i hmade pid sequence hentry
        exact hgone key i hmade pid sequence (((hframe key i hmade).entry _).mp hentry)
      · intro key hok
        obtain ⟨hkey, i, hentry, hcontent⟩ := hresult key hok
        obtain ⟨hentry', hcontent'⟩ := hpath (by rw [hentry]; simp)
        exact ⟨hkey, i, by rw [hentry', hentry], by rw [hcontent' i hentry, hcontent]⟩
  | crashed => trivial

/-- What one step of a call does to its own invariant and to all else. -/
structure StepFacts (dir dir' : IdentityDir) (call call' : LoadCall) : Prop where
  inv : CallInv dir' call'
  made : call'.made = call.made ∨ ∃ key, call.made = none ∧ call'.made = some (key, dir.next)
  next_le : dir.next ≤ dir'.next
  frame : ∀ i, i < dir.next → (∀ key, call.made ≠ some (key, i)) → dir.Frame dir' i
  path : PathKept dir dir'
  published : ∀ i, dir'.entry .path = .file i → dir.entry .path = .file i ∨
    ∃ key, call'.made = some (key, i) ∧ dir'.content i = key ∧ key.length = keySize

/-- A step that leaves the directory alone. -/
theorem StepFacts.stay {dir : IdentityDir} {call : LoadCall} {stage : LoadStage}
    (h : CallInv dir call) (hstage : StageInv dir call.made stage) :
    StepFacts dir dir call (call.to stage) where
  inv := ⟨hstage, h.made_lt⟩
  made := Or.inl rfl
  next_le := Nat.le_refl _
  frame i _ _ := Dir.Frame.refl dir i
  path := PathKept.refl dir
  published _ hi := Or.inl hi

section Step

variable {dir dir' : IdentityDir} {call : LoadCall} {key : Binary} {temp : FileName} {i : ℕ}

/-- Creating the temporary file. -/
theorem StepFacts.createTemp (hnone : call.made = none) (hkey : key.length = keySize)
    (htemp : temp ≠ .path) (h : dir.createNew temp = some dir') :
    StepFacts dir dir' call ⟨.write key temp dir.next 0, some (key, dir.next)⟩ := by
  obtain ⟨hfree, hentry, hcontent, hnext⟩ := createNew_eq_some h
  have hpath : dir'.entry .path = dir.entry .path := by
    rw [hentry, Function.update_of_ne (Ne.symm htemp)]
  refine ⟨⟨⟨rfl, hkey, htemp, links_createNew h, ?_⟩, ?_⟩, Or.inr ⟨key, hnone, rfl⟩, ?_, ?_, ?_, ?_⟩
  · rw [hcontent, Function.update_self, List.take_zero]
  · intro key' j hj
    obtain ⟨-, rfl⟩ := Prod.mk.injEq .. ▸ Option.some.inj hj
    omega
  · omega
  · intro j hj _
    exact frame_createNew h hj
  · intro _
    refine ⟨hpath, ?_⟩
    intro j hj
    exact (frame_createNew h (dir.file_lt .path j hj)).content
  · intro j hj
    exact Or.inl (hpath ▸ hj)

/-- Writing to the temporary file. -/
theorem StepFacts.append {bytes : Binary} {stage : LoadStage} (hcall : CallInv dir call)
    (hmade : call.made = some (key, i)) (htemp : temp ≠ .path) (hlinks : dir.Links i {temp})
    (hstage : StageInv (dir.append i bytes) call.made stage) :
    StepFacts dir (dir.append i bytes) call (call.to stage) := by
  refine ⟨⟨hstage, hcall.made_lt⟩, Or.inl rfl, Nat.le_refl _, ?_, ?_, ?_⟩
  · intro j _ hj
    exact frame_append bytes fun heq => hj key (heq ▸ hmade)
  · intro _
    refine ⟨rfl, ?_⟩
    intro j hj
    -- the path does not lead to a file that is still written
    have hne : j ≠ i := by
      rintro rfl
      exact htemp ((hlinks .path).mp hj).symm
    exact (frame_append bytes hne).content
  · intro j hj
    exact Or.inl hj

/-- Removing the temporary name. -/
theorem StepFacts.unlink {names : Set FileName} {stage : LoadStage} (hcall : CallInv dir call)
    (hmade : call.made = some (key, i)) (htemp : temp ≠ .path) (hlinks : dir.Links i names)
    (hmem : temp ∈ names) (hstage : StageInv (dir.unlink temp) call.made stage) :
    StepFacts dir (dir.unlink temp) call (call.to stage) := by
  have hpath : (dir.unlink temp).entry .path = dir.entry .path :=
    Function.update_of_ne (Ne.symm htemp) ..
  refine ⟨⟨hstage, hcall.made_lt⟩, Or.inl rfl, Nat.le_refl _, ?_, ?_, ?_⟩
  · intro j _ hj
    apply frame_unlink
    exact hlinks.ne hmem fun heq => hj key (heq ▸ hmade)
  · intro _
    exact ⟨hpath, fun _ _ => rfl⟩
  · intro j hj
    exact Or.inl (hpath ▸ hj)

/-- Publishing by a hard link: the path was free and leads to the complete
file now, or nothing has changed. -/
theorem StepFacts.publish (hcall : CallInv dir call) (hmade : call.made = some (key, i))
    (hkey : key.length = keySize) (htemp : temp ≠ .path) (hlinks : dir.Links i {temp})
    (hcontent : dir.content i = key) (ok : Bool) :
    StepFacts dir (publish dir ok temp).1 call
      (call.to (.removeTemp key temp (publish dir ok temp).2)) := by
  have hstay : ∀ publication, publication ≠ .published →
      StepFacts dir dir call (call.to (.removeTemp key temp publication)) := by
    intro publication hne
    apply StepFacts.stay hcall
    cases publication with
    | published => exact absurd rfl hne
    | alreadyExists | failed => exact ⟨i, hmade, htemp, hlinks⟩
  unfold IrohBeam.publish
  cases ok with
  | false => exact hstay .failed (by decide)
  | true =>
      have hsource : dir.entry temp = .file i := (hlinks temp).mpr rfl
      simp only [if_true]
      split
      · next dir' h =>
          obtain ⟨j, hj, hfree, hentry, hsame, hnext⟩ := hardLink_eq_ok h
          obtain rfl : i = j := Entry.file.inj (hsource.symm.trans hj)
          have hlinks' : dir'.Links i {.path, temp} := links_hardLink h hsource hlinks
          have hcontent' : dir'.content i = key := by rw [hsame, hcontent]
          refine ⟨⟨⟨i, hmade, hkey, htemp, hlinks', hcontent'⟩, ?_⟩, Or.inl rfl,
            Nat.le_of_eq hnext.symm, ?_, ?_, ?_⟩
          · intro key' j hj
            rw [hnext]
            exact hcall.made_lt key' j hj
          · intro j _ hj
            exact frame_hardLink h hsource fun heq => hj key (heq ▸ hmade)
          · intro htaken
            exact absurd hfree htaken
          · intro j hj
            rw [hentry, Function.update_self] at hj
            obtain rfl := Entry.file.inj hj
            exact Or.inr ⟨key, hmade, hcontent', hkey⟩
      · exact hstay .alreadyExists (by decide)
      · exact hstay .failed (by decide)

/-- A call that has nothing in the directory may return an error. -/
theorem stageInv_error {made : Option (Binary × ℕ)} (error : Error)
    (h : ∀ key i, made = some (key, i) → ∀ pid sequence, dir.entry (.temp pid sequence) ≠ .file i) :
    StageInv dir made (.done (.error error)) :=
  ⟨h, fun _ hok => by cases hok⟩

theorem stageInv_metadata (h : StageInv dir call.made .metadata) (ok : Bool) :
    ∃ stage, readMetadata dir ok call = call.to stage ∧ StageInv dir call.made stage := by
  have herror : ∀ error, StageInv dir call.made (.done (.error error)) := by
    intro error
    apply stageInv_error
    intro key i hmade pid sequence hentry
    exact (h key i hmade _).mp hentry
  unfold readMetadata
  split
  · split
    · exact ⟨_, rfl, herror _⟩
    · exact ⟨_, rfl, h⟩
  · exact ⟨_, rfl, herror _⟩
  · exact ⟨_, rfl, herror _⟩

theorem stageInv_read (h : StageInv dir call.made .read) (ok : Bool) :
    ∃ stage, readBytes dir ok call = call.to stage ∧ StageInv dir call.made stage := by
  have hgone : ∀ key i, call.made = some (key, i) →
      ∀ pid sequence, dir.entry (.temp pid sequence) ≠ .file i := by
    intro key i hmade pid sequence hentry
    exact (h key i hmade _).mp hentry
  unfold readBytes
  split
  · next i hentry =>
      split
      · next hlength =>
          refine ⟨_, rfl, hgone, ?_⟩
          intro key hok
          obtain rfl := Except.ok.inj hok
          exact ⟨hlength, i, hentry, rfl⟩
      · exact ⟨_, rfl, stageInv_error _ hgone⟩
  · exact ⟨_, rfl, stageInv_error _ hgone⟩

/-- Without a file of its own a call may return any error. -/
theorem stageInv_error_of_none {made : Option (Binary × ℕ)} (hnone : made = none) (error : Error) :
    StageInv dir made (.done (.error error)) := by
  apply stageInv_error
  intro key i hmade
  rw [hnone] at hmade
  cases hmade

/-- After its temporary name is removed, a file that had only this name has
none. -/
theorem links_unlink_temp (hlinks : dir.Links i {temp}) : (dir.unlink temp).Links i ∅ := by
  have h := links_unlink hlinks temp
  rwa [Set.sdiff_self] at h

/-- A file without names is not among the temporary ones. -/
theorem gone_of_links {made : Option (Binary × ℕ)} (hmade : made = some (key, i))
    (hlinks : dir.Links i ∅) : ∀ key' j, made = some (key', j) →
      ∀ pid sequence, dir.entry (.temp pid sequence) ≠ .file j := by
  intro key' j hj pid sequence hentry
  obtain ⟨-, rfl⟩ := Prod.mk.injEq .. ▸ Option.some.inj (hmade.symm.trans hj)
  exact (hlinks _).mp hentry

/-- The winner returns its own key, which the path leads to. -/
theorem stageInv_published {made : Option (Binary × ℕ)} (hmade : made = some (key, i))
    (hkey : key.length = keySize) (htemp : temp ≠ .path) (hlinks : dir.Links i {.path, temp})
    (hcontent : dir.content i = key) :
    StageInv (dir.unlink temp) made (.done (.ok key)) := by
  have hlinks' := links_unlink hlinks temp
  refine ⟨?_, ?_⟩
  · intro key' j hj pid sequence hentry
    obtain ⟨-, rfl⟩ := Prod.mk.injEq .. ▸ Option.some.inj (hmade.symm.trans hj)
    have hmem := (hlinks' _).mp hentry
    simp at hmem
  · intro key' hok
    obtain rfl := Except.ok.inj hok
    exact ⟨hkey, i, (hlinks' .path).mpr (by simp [Ne.symm htemp]), hcontent⟩

theorem content_written {count written : ℕ} (hcontent : dir.content i = key.take written) :
    (dir.append i ((key.drop written).take count)).content i = key.take (written + count) := by
  rw [content_append, hcontent, List.take_add]

/-- Every step of a call has its facts. -/
theorem loadStep_facts {path : IdentityPath} {pid counter : ℕ} {action : LoadAction}
    {result : IdentityDir × ℕ × LoadCall} (hcall : CallInv dir call)
    (h : loadStep path pid dir counter call action = some result) :
    StepFacts dir result.1 call result.2.2 := by
  have hstage := hcall.stage
  obtain ⟨dir', counter', call'⟩ := result
  have hmove : LoadMove path pid dir counter call action call.stage dir' counter' call' :=
    loadStep_move h
  generalize call.stage = stage at hstage hmove
  cases hmove with
  | invalid _ | noParent _ | dirFails | noFileName _ =>
      exact .stay hcall (stageInv_error_of_none hstage _)
  | check _ | missing _ | createDirAll => exact .stay hcall hstage
  | found _ =>
      apply StepFacts.stay hcall
      intro key i hmade
      rw [hstage] at hmade
      cases hmade
  | generate hkey => exact .stay hcall ⟨hstage, hkey, by simp⟩
  | createTemp hcreate =>
      obtain ⟨hnone, hkey, htemp⟩ := hstage
      exact .createTemp hnone hkey htemp hcreate
  | tempFails _ => exact .stay hcall (stageInv_error_of_none hstage.1 _)
  | @writeLast count key temp i written _ hfull =>
      obtain ⟨hmade, hkey, htemp, hlinks, hcontent⟩ := hstage
      refine .append hcall hmade htemp hlinks ⟨i, hmade, hkey, htemp, hlinks, ?_⟩
      rw [content_written hcontent, hfull, ← hkey, List.take_length]
  | write _ _ =>
      obtain ⟨hmade, hkey, htemp, hlinks, hcontent⟩ := hstage
      exact .append hcall hmade htemp hlinks ⟨hmade, hkey, htemp, hlinks, content_written hcontent⟩
  | @writeFails key temp i _ =>
      obtain ⟨hmade, hkey, htemp, hlinks, hcontent⟩ := hstage
      exact .stay hcall ⟨key, i, hmade, htemp, hlinks⟩
  | sync => exact .stay hcall hstage
  | @syncFails key temp =>
      obtain ⟨i, hmade, hkey, htemp, hlinks, hcontent⟩ := hstage
      exact .stay hcall ⟨key, i, hmade, htemp, hlinks⟩
  | discardTemp =>
      obtain ⟨key, i, hmade, htemp, hlinks⟩ := hstage
      exact .unlink hcall hmade htemp hlinks rfl
        (stageInv_error _ (gone_of_links hmade (links_unlink_temp hlinks)))
  | @hardLink ok key temp =>
      obtain ⟨i, hmade, hkey, htemp, hlinks, hcontent⟩ := hstage
      exact .publish hcall hmade hkey htemp hlinks hcontent ok
  | removeTemp =>
      obtain ⟨i, hmade, hkey, htemp, hlinks, hcontent⟩ := hstage
      exact .unlink hcall hmade htemp hlinks (by simp)
        (stageInv_published hmade hkey htemp hlinks hcontent)
  | lost =>
      obtain ⟨i, hmade, htemp, hlinks⟩ := hstage
      refine .unlink hcall hmade htemp hlinks rfl ?_
      intro key' j hj
      obtain ⟨-, rfl⟩ := Prod.mk.injEq .. ▸ Option.some.inj (hmade.symm.trans hj)
      exact links_unlink_temp hlinks
  | linkFails =>
      obtain ⟨i, hmade, htemp, hlinks⟩ := hstage
      exact .unlink hcall hmade htemp hlinks rfl
        (stageInv_error _ (gone_of_links hmade (links_unlink_temp hlinks)))
  | @metadata ok =>
      obtain ⟨stage, hread, hinv⟩ := stageInv_metadata hstage ok
      simp only [hread]
      exact .stay hcall hinv
  | @read ok =>
      obtain ⟨stage, hread, hinv⟩ := stageInv_read hstage ok
      simp only [hread]
      exact .stay hcall hinv
  | crash _ _ => exact .stay hcall trivial

end Step

/-! ### All calls -/

/-- The invariant of every reachable state, relative to the directory the
calls found. -/
structure IdentityState.Inv (dir₀ : IdentityDir) (s : IdentityState) : Prop where
  calls : ∀ c, CallInv s.dir (s.calls c)
  distinct : ∀ c c' key key' i, (s.calls c).made = some (key, i) →
    (s.calls c').made = some (key', i) → c = c'
  path : PathKept dir₀ s.dir
  published : ∀ i, s.dir.entry .path = .file i → dir₀.entry .path = .file i ∨
    ∃ c key, (s.calls c).made = some (key, i) ∧ s.dir.content i = key ∧ key.length = keySize

theorem IdentityState.inv_init (dir : IdentityDir) (counter : ℕ → ℕ) :
    (IdentityState.init dir counter).Inv dir where
  calls c := ⟨rfl, fun _ _ hmade => by cases hmade⟩
  distinct c c' key key' i hmade := by cases hmade
  path := PathKept.refl dir
  published i hi := Or.inl hi

variable {setting : LoadSetting} {dir₀ : IdentityDir} {s s' : IdentityState} {a : ℕ × LoadAction}

/-- A step of the system is a step of one call. -/
theorem identityStep_facts (h : identityStep setting s a = some s')
    (hcall : CallInv s.dir (s.calls a.1)) :
    ∃ call', s'.calls = Function.update s.calls a.1 call' ∧
      StepFacts s.dir s'.dir (s.calls a.1) call' := by
  obtain ⟨r, hr, rfl⟩ := Option.map_eq_some_iff.mp h
  exact ⟨r.2.2, rfl, loadStep_facts hcall hr⟩

theorem StepFacts.made_mono {dir dir' : IdentityDir} {call call' : LoadCall}
    (h : StepFacts dir dir' call call') {m : Binary × ℕ} (hmade : call.made = some m) :
    call'.made = some m := by
  rcases h.made with heq | ⟨key, hnone, -⟩
  · rw [heq, hmade]
  · rw [hnone] at hmade
    cases hmade

/-- What a call has made is old or new. -/
theorem StepFacts.made_of {dir dir' : IdentityDir} {call call' : LoadCall}
    (h : StepFacts dir dir' call call') {key : Binary} {i : ℕ}
    (hmade : call'.made = some (key, i)) : call.made = some (key, i) ∨ i = dir.next := by
  rcases h.made with heq | ⟨key', -, hnew⟩
  · exact Or.inl (heq ▸ hmade)
  · obtain ⟨-, rfl⟩ := Prod.mk.injEq .. ▸ Option.some.inj (hnew.symm.trans hmade)
    exact Or.inr rfl

theorem IdentityState.Inv.step (hinv : s.Inv dir₀) (h : identityStep setting s a = some s') :
    s'.Inv dir₀ ∧ PathKept s.dir s'.dir := by
  obtain ⟨call', hcalls, hfacts⟩ := identityStep_facts h (hinv.calls a.1)
  have hself : s'.calls a.1 = call' := by rw [hcalls, Function.update_self]
  have hother : ∀ c, c ≠ a.1 → s'.calls c = s.calls c := by
    intro c hc
    rw [hcalls, Function.update_of_ne hc]
  refine ⟨⟨?_, ?_, hinv.path.trans hfacts.path, ?_⟩, hfacts.path⟩
  · intro c
    by_cases hc : c = a.1
    · rw [hc, hself]
      exact hfacts.inv
    · rw [hother c hc]
      have hold := hinv.calls c
      refine ⟨hold.stage.frame ?_ hfacts.path, ?_⟩
      · intro key i hmade
        apply hfacts.frame i (hold.made_lt key i hmade)
        intro key' hmade'
        exact hc (hinv.distinct c a.1 key key' i hmade hmade')
      · intro key i hmade
        exact Nat.lt_of_lt_of_le (hold.made_lt key i hmade) hfacts.next_le
  · -- a new file has a number no call has
    have hfresh : ∀ c key, (s.calls c).made ≠ some (key, s.dir.next) := by
      intro c key hmade
      exact Nat.lt_irrefl _ ((hinv.calls c).made_lt key _ hmade)
    have hold : ∀ c, c ≠ a.1 → ∀ key key' i, (s.calls c).made = some (key, i) →
        call'.made = some (key', i) → False := by
      intro c hc key key' i hmade hmade'
      rcases hfacts.made_of hmade' with hmade' | rfl
      · exact hc (hinv.distinct c a.1 key key' i hmade hmade')
      · exact hfresh c key hmade
    intro c c' key key' i hmade hmade'
    by_cases hc : c = a.1
    · by_cases hc' : c' = a.1
      · rw [hc, hc']
      · rw [hc, hself] at hmade
        rw [hother c' hc'] at hmade'
        exact (hold c' hc' key' key i hmade' hmade).elim
    · rw [hother c hc] at hmade
      by_cases hc' : c' = a.1
      · rw [hc', hself] at hmade'
        exact (hold c hc key key' i hmade hmade').elim
      · rw [hother c' hc'] at hmade'
        exact hinv.distinct c c' key key' i hmade hmade'
  · intro i hi
    rcases hfacts.published i hi with hi | ⟨key, hmade, hcontent, hkey⟩
    · rcases hinv.published i hi with hfirst | ⟨c, key, hmade, hcontent, hkey⟩
      · exact Or.inl hfirst
      · refine Or.inr ⟨c, key, ?_, ?_, hkey⟩
        · by_cases hc : c = a.1
          · rw [hc, hself]
            exact hfacts.made_mono (hc ▸ hmade)
          · rw [hother c hc, hmade]
        · rw [(hfacts.path (by rw [hi]; simp)).2 i hi, hcontent]
    · exact Or.inr ⟨a.1, key, by rw [hself, hmade], hcontent, hkey⟩

/-- The invariant holds along every run, and the run keeps the file at the
path. -/
theorem IdentityState.Inv.run {as : List (ℕ × LoadAction)} (hinv : s.Inv dir₀)
    (h : run (identityStep setting) s as = some s') : s'.Inv dir₀ ∧ PathKept s.dir s'.dir := by
  apply run_invariant (P := fun t => t.Inv dir₀ ∧ PathKept s.dir t.dir) ?_ h
    ⟨hinv, PathKept.refl s.dir⟩
  rintro t a t' ⟨ht, hkept⟩ hstep
  obtain ⟨ht', hkept'⟩ := ht.step hstep
  exact ⟨ht', hkept.trans hkept'⟩

/-! ### One identity per file -/

/-- Call `c` has returned. -/
def IdentityState.Returned (s : IdentityState) (c : ℕ) (result : Except Error Binary) : Prop :=
  (s.calls c).stage = .done result

/-- What holds in a state `s` of a run that began with `dir₀`, and in every
state `s'` after it. -/
structure OneIdentity (setting : LoadSetting) (dir₀ : IdentityDir) (s s' : IdentityState) :
    Prop where
  /-- A file at the path stays, with its content. -/
  kept : ∀ i, s.dir.entry .path = .file i →
    s'.dir.entry .path = .file i ∧ s'.dir.content i = s.dir.content i
  /-- A malformed file lets no call succeed. -/
  malformed : ∀ i, s.dir.entry .path = .file i → (s.dir.content i).length ≠ keySize →
    ∀ c key, ¬ s'.Returned c (.ok key)
  /-- A call that starts on a malformed file says so and touches nothing. -/
  refused : ∀ i, s.dir.entry .path = .file i → (s.dir.content i).length ≠ keySize →
    ∀ c, (s.calls c).stage = .start → setting.path.text ≠ [] →
    setting.path.text.length ≤ 32 * 1024 →
    ∃ t, run (identityStep setting) s [(c, .check), (c, .lookup true), (c, .metadata true)] =
        some t ∧ t.dir = s.dir ∧
      t.Returned c (.error (invalidIdentity "identity file has an invalid format"))
  /-- A file that was not there at first holds the key of a call. -/
  complete : ∀ i, s.dir.entry .path = .file i → dir₀.entry .path ≠ .file i →
    (s.dir.content i).length = keySize ∧
      ∃ c, (s.calls c).made = some (s.dir.content i, i)
  /-- A call that succeeds returns the content of the file. -/
  content : ∀ c key, s.Returned c (.ok key) →
    ∃ i, s.dir.entry .path = .file i ∧ s.dir.content i = key
  /-- All calls that succeed return the same key. -/
  agree : ∀ c c' key key', s.Returned c (.ok key) → s'.Returned c' (.ok key') → key = key'
  /-- A call that returns leaves no temporary name of its file. -/
  temp_gone : ∀ c result key i, s.Returned c result → (s.calls c).made = some (key, i) →
    ∀ pid sequence, s.dir.entry (.temp pid sequence) ≠ .file i

theorem IdentityState.Inv.returned (hinv : s.Inv dir₀) {c : ℕ} {result : Except Error Binary}
    (h : s.Returned c result) : StageInv s.dir (s.calls c).made (.done result) := by
  have hstage := (hinv.calls c).stage
  rwa [show (s.calls c).stage = .done result from h] at hstage

theorem IdentityState.Inv.content (hinv : s.Inv dir₀) {c : ℕ} {key : Binary}
    (h : s.Returned c (.ok key)) :
    key.length = keySize ∧ ∃ i, s.dir.entry .path = .file i ∧ s.dir.content i = key :=
  (hinv.returned h).2 key rfl

/-- A step of call `c` that leaves the directory alone and moves `c` on. -/
theorem identityStep_stay {c counter : ℕ} {action : LoadAction} {stage : LoadStage}
    (h : loadStep setting.path (setting.pid (setting.process c)) s.dir
      (s.counter (setting.process c)) (s.calls c) action =
        some (s.dir, counter, (s.calls c).to stage)) :
    ∃ t, identityStep setting s (c, action) = some t ∧ t.dir = s.dir ∧
      (t.calls c).stage = stage := by
  refine ⟨_, Option.map_eq_some_iff.mpr ⟨_, h, rfl⟩, rfl, ?_⟩
  show (Function.update s.calls c _ c).stage = stage
  rw [Function.update_self]
  rfl

theorem malformed_refused {i c : ℕ} (hi : s.dir.entry .path = .file i)
    (hlength : (s.dir.content i).length ≠ keySize) (hstart : (s.calls c).stage = .start)
    (hempty : setting.path.text ≠ []) (hlong : setting.path.text.length ≤ 32 * 1024) :
    ∃ t, run (identityStep setting) s [(c, .check), (c, .lookup true), (c, .metadata true)] =
        some t ∧ t.dir = s.dir ∧
      t.Returned c (.error (invalidIdentity "identity file has an invalid format")) := by
  have hok : ¬ (setting.path.text = [] ∨ 32 * 1024 < setting.path.text.length) := by
    rintro (h | h)
    · exact hempty h
    · exact absurd h (Nat.not_lt.mpr hlong)
  have hcheck : ∀ pid n, loadStep setting.path pid s.dir n (s.calls c) .check =
      some (s.dir, n, (s.calls c).to .lookup) := by
    intro pid n
    simp only [loadStep, hstart, if_neg hok]
  obtain ⟨t₁, h₁, hdir₁, hstage₁⟩ := identityStep_stay (hcheck _ _)
  have hlookup : ∀ pid n, loadStep setting.path pid t₁.dir n (t₁.calls c) (.lookup true) =
      some (t₁.dir, n, (t₁.calls c).to .metadata) := by
    intro pid n
    simp only [loadStep, hstage₁, hdir₁, hi]
  obtain ⟨t₂, h₂, hdir₂, hstage₂⟩ := identityStep_stay (hlookup _ _)
  have hmetadata : ∀ pid n, loadStep setting.path pid t₂.dir n (t₂.calls c) (.metadata true) =
      some (t₂.dir, n, (t₂.calls c).to
        (.done (.error (invalidIdentity "identity file has an invalid format")))) := by
    intro pid n
    simp only [loadStep, readMetadata, hstage₂, hdir₂, hdir₁, hi, if_pos hlength]
    rfl
  obtain ⟨t₃, h₃, hdir₃, hstage₃⟩ := identityStep_stay (hmetadata _ _)
  refine ⟨t₃, ?_, by rw [hdir₃, hdir₂, hdir₁], hstage₃⟩
  rw [run_cons_of_step _ h₁, run_cons_of_step _ h₂, run_cons_of_step _ h₃, run_nil]

/-- However the calls interleave, fail and crash, they agree on one identity. -/
theorem one_identity_per_file {counter : ℕ → ℕ} {as bs : List (ℕ × LoadAction)}
    (h : run (identityStep setting) (IdentityState.init dir₀ counter) as = some s)
    (h' : run (identityStep setting) s bs = some s') : OneIdentity setting dir₀ s s' := by
  obtain ⟨hinv, -⟩ := (IdentityState.inv_init dir₀ counter).run h
  obtain ⟨hinv', hkept⟩ := hinv.run h'
  have hfile : ∀ i, s.dir.entry .path = .file i →
      s'.dir.entry .path = .file i ∧ s'.dir.content i = s.dir.content i := by
    intro i hi
    obtain ⟨hentry, hcontent⟩ := hkept (by rw [hi]; simp)
    exact ⟨hentry.trans hi, hcontent i hi⟩
  refine ⟨hfile, ?_, fun i hi hlength c => malformed_refused hi hlength, ?_, ?_, ?_, ?_⟩
  · intro i hi hlength c key hok
    obtain ⟨hkey, j, hj, hcontent⟩ := hinv'.content hok
    obtain ⟨hi', hsame⟩ := hfile i hi
    obtain rfl : i = j := Entry.file.inj (hi'.symm.trans hj)
    rw [← hsame, hcontent] at hlength
    exact hlength hkey
  · intro i hi hnew
    rcases hinv.published i hi with hold | ⟨c, key, hmade, hcontent, hkey⟩
    · exact absurd hold hnew
    · rw [hcontent]
      exact ⟨hkey, c, hmade⟩
  · intro c key hok
    exact (hinv.content hok).2
  · intro c c' key key' hok hok'
    obtain ⟨-, i, hi, hcontent⟩ := hinv.content hok
    obtain ⟨-, j, hj, hcontent'⟩ := hinv'.content hok'
    obtain ⟨hi', hsame⟩ := hfile i hi
    obtain rfl : i = j := Entry.file.inj (hi'.symm.trans hj)
    rw [← hcontent, ← hcontent', hsame]
  · intro c result key i hdone hmade
    exact (hinv.returned hdone).1 key i hmade

/-! ### Two calls racing -/

/-- An empty directory. -/
def emptyDir : IdentityDir where
  entry _ := .absent
  content _ := []
  next := 0
  file_lt _ _ h := by cases h

/-- Every call in one process. -/
def sampleSetting : LoadSetting where
  path := ⟨ascii "/h/id", true, true⟩
  process _ := 0
  pid _ := 7

/-- A key of equal bytes. -/
def sampleKey (byte : UInt8) : Binary := List.replicate 32 byte

/-- Call `c` looks, finds nothing, and writes its key to a temporary file. -/
def prepareKey (c : ℕ) : List (ℕ × LoadAction) :=
  [(c, .check), (c, .lookup true), (c, .createDirAll true),
    (c, .generate (sampleKey (UInt8.ofNat c))), (c, .createTemp true), (c, .write 32),
    (c, .sync true)]

/-- Both calls prepare a key, call 2 links first, and call 1 reads what call 2
has published. -/
def racingCalls : List (ℕ × LoadAction) :=
  prepareKey 1 ++ prepareKey 2 ++
    [(2, .hardLink true), (1, .hardLink true), (2, .removeTemp), (1, .removeTemp),
      (1, .metadata true), (1, .read true)]

theorem one_identity_racing :
    ∃ s, run (identityStep sampleSetting) (IdentityState.init emptyDir fun _ => 0) racingCalls =
        some s ∧ s.Returned 1 (.ok (sampleKey 2)) ∧ s.Returned 2 (.ok (sampleKey 2)) ∧
      OneIdentity sampleSetting emptyDir s s := by
  refine ⟨_, rfl, rfl, rfl, ?_⟩
  exact one_identity_per_file
    (show run (identityStep sampleSetting) (IdentityState.init emptyDir fun _ => 0) racingCalls =
      some _ from rfl) (run_nil _)

end IrohBeam
