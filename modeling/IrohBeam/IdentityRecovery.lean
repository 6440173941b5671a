/-
IrohBeam/IdentityRecovery.lean

The identity file after a crash.

Calls of `identity_load_or_create` run in any number of processes
(`IrohBeam/IdentityFile.lean`) until, after any of their steps, nothing is left
of them but the directory.  A later process, with any identifier, makes its first
call for this path, alone, and no operation of it fails but for what it finds in
the directory.  `TEMP_COUNTER` is one counter for all paths: it starts at zero with
the process, and stands at some number when this call is made.

`LaterStage` says at each stage what that call has found and done.  It returns
the identity if one has been published; otherwise it comes to create a temporary
file, and the name of that file is taken if a process of the same identifier left
one behind under the same number.
-/
import IrohBeam.IdentityFile

namespace IrohBeam

open Bytes Directory Transition

/-! ### The later call -/

/-- The system lets the operation succeed, and the process does not crash. -/
def LoadAction.Unfailing : LoadAction → Prop
  | .lookup ok | .createDirAll ok | .createTemp ok | .sync ok | .hardLink ok | .metadata ok
  | .read ok => ok = true
  | .writeFails | .crash => False
  | .check | .generate _ | .write _ | .discardTemp | .removeTemp => True

/-- The same path in another process. -/
def LoadSetting.later (setting : LoadSetting) (pid : ℕ) : LoadSetting where
  path := setting.path
  process _ := 0
  pid _ := pid

/-- In the directory `dir` the first call of the process `pid`, with its
`TEMP_COUNTER` at `n` after calls for other paths, does `bs` and arrives at `u`. -/
structure LaterRun (setting : LoadSetting) (pid n : ℕ) (dir : IdentityDir) (bs : List LoadAction)
    (u : IdentityState) : Prop where
  run : run (identityStep (setting.later pid)) (IdentityState.init dir fun _ => n)
    (bs.map fun b => (0, b)) = some u
  unfailing : ∀ b ∈ bs, b.Unfailing

/-- The first call of the process `pid` recovers: it comes to an end, with the
key that has been published, if any. -/
structure Recovers (setting : LoadSetting) (pid n : ℕ) (dir : IdentityDir) : Prop where
  result : ∀ bs u result, LaterRun setting pid n dir bs u → u.Returned 0 result →
    ∃ key, result = .ok key ∧ ∀ i, dir.entry .path = .file i → dir.content i = key
  ends : ∀ bs u, LaterRun setting pid n dir bs u → bs.length ≤ 43 ∧
    ((∃ result, u.Returned 0 result) ∨
      ∃ b t, b.Unfailing ∧ identityStep (setting.later pid) u (0, b) = some t)

/-- `identity_load_or_create` refuses no such path. -/
structure IdentityPath.Accepted (path : IdentityPath) : Prop where
  text : path.text ≠ []
  length_le : path.text.length ≤ 32 * 1024
  parent : path.hasParent = true
  fileName : path.hasFileName = true

theorem IdentityPath.Accepted.valid {path : IdentityPath} (h : path.Accepted) :
    ¬ (path.text = [] ∨ 32 * 1024 < path.text.length) := by
  rintro (hempty | hlong)
  · exact h.text hempty
  · exact absurd hlong (Nat.not_lt.mpr h.length_le)

/-- There is nothing at the identity path, or an identity. -/
def HoldsIdentity (dir : IdentityDir) : Prop :=
  dir.entry .path = .absent ∨
    ∃ i, dir.entry .path = .file i ∧ (dir.content i).length = keySize

/-! ### What one step leaves -/

/-- How many operations a call has left, at most. -/
def LoadStage.rank : LoadStage → ℕ
  | .start => 43
  | .lookup => 42
  | .createDirAll => 41
  | .generate => 40
  | .createTemp _ _ => 39
  | .write _ _ _ written => 6 + (keySize - written)
  | .sync _ _ => 5
  | .hardLink _ _ => 4
  | .removeTemp _ _ _ => 3
  | .metadata => 2
  | .read | .discardTemp _ => 1
  | .done _ | .crashed => 0

/-- A name that leads to a file or nowhere. -/
def Plain (dir : IdentityDir) (name : FileName) : Prop :=
  dir.entry name = .absent ∨ ∃ i, dir.entry name = .file i

section Plain

variable {dir dir' : IdentityDir} {name source target : FileName}

theorem plain_update {entry : FileName → Entry} {e : Entry} (h : Plain dir name)
    (he : e = .absent ∨ ∃ i, e = .file i) (hentry : entry = Function.update dir.entry target e) :
    entry name = .absent ∨ ∃ i, entry name = .file i := by
  rw [hentry, Function.update_apply]
  split
  · exact he
  · exact h

theorem plain_createNew (h : Plain dir name) (hnew : dir.createNew target = some dir') :
    Plain dir' name :=
  plain_update h (.inr ⟨dir.next, rfl⟩) (createNew_eq_some hnew).2.1

theorem plain_unlink (h : Plain dir name) (target : FileName) : Plain (dir.unlink target) name :=
  have hentry : (dir.unlink target).entry = Function.update dir.entry target .absent := rfl
  plain_update h (.inl rfl) hentry

theorem plain_publish (h : Plain dir name) (ok : Bool) (temp : FileName) :
    Plain (publish dir ok temp).1 name := by
  unfold publish
  split
  · split
    · next dir' hlink =>
        obtain ⟨i, -, -, hentry, -⟩ := hardLink_eq_ok hlink
        exact plain_update h (.inr ⟨i, rfl⟩) hentry
    · exact h
    · exact h
  · exact h

end Plain

section Step

variable {path : IdentityPath} {pid counter : ℕ} {dir : IdentityDir} {call : LoadCall}
  {action : LoadAction} {r : IdentityDir × ℕ × LoadCall}

theorem rank_finish (call : LoadCall) (result : Except Error Binary) :
    (call.finish result).stage.rank = 0 := rfl

theorem rank_readMetadata (dir : IdentityDir) (ok : Bool) (call : LoadCall) :
    (readMetadata dir ok call).stage.rank < 2 := by
  unfold readMetadata
  split
  · split
    · rw [rank_finish]
      decide
    · exact Nat.lt_succ_self 1
  · rw [rank_finish]
    decide
  · rw [rank_finish]
    decide

theorem rank_readBytes (dir : IdentityDir) (ok : Bool) (call : LoadCall) :
    (readBytes dir ok call).stage.rank < 1 := by
  unfold readBytes
  split
  · split
    · exact Nat.zero_lt_one
    · exact Nat.zero_lt_one
  · exact Nat.zero_lt_one

/-- A step brings a call closer to its end, and makes no entry but one that
leads to a file. -/
structure Advances (dir dir' : IdentityDir) (call call' : LoadCall) : Prop where
  rank : call'.stage.rank < call.stage.rank
  plain : ∀ name, Plain dir name → Plain dir' name

theorem loadStep_advances (h : loadStep path pid dir counter call action = some r) :
    Advances dir r.1 call r.2.2 := by
  obtain ⟨dir', counter', call'⟩ := r
  have hmove : LoadMove path pid dir counter call action call.stage dir' counter' call' :=
    loadStep_move h
  suffices hadvances : call'.stage.rank < call.stage.rank ∧
      ∀ name, Plain dir name → Plain dir' name from ⟨hadvances.1, hadvances.2⟩
  generalize call.stage = stage at hmove
  cases hmove with
  | createTemp hnew =>
      exact ⟨by simp [LoadStage.rank, keySize], fun _ hname => plain_createNew hname hnew⟩
  | writeLast _ _ =>
      refine ⟨?_, fun _ hname => hname⟩
      exact Nat.lt_of_lt_of_le (by decide : 5 < 6) (Nat.le_add_right 6 _)
  | @write count key temp i written hcount hmore =>
      refine ⟨?_, fun _ hname => hname⟩
      -- a write that is not the last one still writes something
      show 6 + (keySize - (written + count)) < 6 + (keySize - written)
      omega
  | writeFails =>
      refine ⟨?_, fun _ hname => hname⟩
      exact Nat.lt_of_lt_of_le (by decide : 1 < 6) (Nat.le_add_right 6 _)
  | discardTemp | removeTemp | lost | linkFails =>
      exact ⟨by simp [LoadStage.rank, LoadCall.finish, LoadCall.to],
        fun _ hname => plain_unlink hname _⟩
  | hardLink =>
      exact ⟨by simp [LoadStage.rank, LoadCall.to], fun _ hname => plain_publish hname _ _⟩
  | metadata => exact ⟨rank_readMetadata _ _ _, fun _ hname => hname⟩
  | read => exact ⟨rank_readBytes _ _ _, fun _ hname => hname⟩
  | crash hdone hcrashed =>
      refine ⟨?_, fun _ hname => hname⟩
      show 0 < stage.rank
      cases stage with
      | done result => exact absurd rfl (hdone result)
      | crashed => exact absurd rfl hcrashed
      | write => exact Nat.lt_of_lt_of_le (by decide) (Nat.le_add_right 6 _)
      | _ => simp [LoadStage.rank]
  | _ =>
      exact ⟨by simp [LoadStage.rank, LoadCall.finish, LoadCall.to], fun _ hname => hname⟩

end Step

/-- A call that is alone: the directory, the counter of its process and itself. -/
def soloStep (path : IdentityPath) (pid : ℕ) (s : IdentityDir × ℕ × LoadCall)
    (action : LoadAction) : Option (IdentityDir × ℕ × LoadCall) :=
  loadStep path pid s.1 s.2.1 s.2.2 action

/-! ### The stages of the later call -/

/-- Where the later call is, `dir₀` being the directory it found. -/
def LaterStage (pid n : ℕ) (dir₀ dir : IdentityDir) (counter : ℕ) : LoadStage → Prop
  | .start | .lookup => dir = dir₀ ∧ counter = n
  | .createDirAll | .generate => dir = dir₀ ∧ counter = n ∧ dir₀.entry .path = .absent
  | .createTemp _ temp => dir = dir₀ ∧ dir₀.entry .path = .absent ∧ temp = .temp pid n
  | .write _ temp _ written =>
      dir₀.entry .path = .absent ∧ dir.entry .path = .absent ∧
        (∃ i, dir.entry temp = .file i) ∧ written < keySize
  | .sync _ temp | .hardLink _ temp =>
      dir₀.entry .path = .absent ∧ dir.entry .path = .absent ∧ ∃ i, dir.entry temp = .file i
  | .removeTemp _ _ publication => dir₀.entry .path = .absent ∧ publication = .published
  | .metadata | .read =>
      dir = dir₀ ∧ ∃ i, dir₀.entry .path = .file i ∧ (dir₀.content i).length = keySize
  | .done result =>
      ∃ key, result = .ok key ∧ ∀ i, dir₀.entry .path = .file i → dir₀.content i = key
  | .discardTemp _ | .crashed => False

section Later

variable {path : IdentityPath} {pid n counter : ℕ} {dir₀ dir : IdentityDir} {call : LoadCall}
  {action : LoadAction} {r : IdentityDir × ℕ × LoadCall}

/-- The later call publishes, since nothing is at the path. -/
theorem publish_of_free {temp : FileName} {i : ℕ} (htemp : dir.entry temp = .file i)
    (hfree : dir.entry .path = .absent) : (publish dir true temp).2 = .published := by
  obtain ⟨dir', hlink⟩ := hardLink_of_free htemp hfree
  simp only [publish, if_true, hlink]

theorem laterStage_step (hpath : path.Accepted) (hholds : HoldsIdentity dir₀)
    (hrecover : dir₀.entry .path ≠ .absent ∨ dir₀.entry (.temp pid n) = .absent)
    (hlater : LaterStage pid n dir₀ dir counter call.stage) (hok : action.Unfailing)
    (h : loadStep path pid dir counter call action = some r) :
    LaterStage pid n dir₀ r.1 r.2.1 r.2.2.stage := by
  obtain ⟨dir', counter', call'⟩ := r
  have hmove : LoadMove path pid dir counter call action call.stage dir' counter' call' :=
    loadStep_move h
  generalize call.stage = stage at hlater hmove
  cases hmove with
  | invalid hinvalid => exact absurd hinvalid hpath.valid
  | check _ => exact hlater
  | found hpresent =>
      -- the first process got as far as publishing
      obtain ⟨rfl, -⟩ := hlater
      obtain ⟨i, hi, hlength⟩ := hholds.resolve_left hpresent
      exact ⟨rfl, i, hi, hlength⟩
  | missing hnofile =>
      obtain ⟨rfl, hcounter⟩ := hlater
      rcases hholds with habsent | ⟨i, hi, -⟩
      · exact ⟨rfl, hcounter, habsent⟩
      · exact absurd hi (hnofile i hok)
  | noParent hparent =>
      rw [hpath.parent] at hparent
      cases hparent
  | createDirAll => exact hlater
  | noFileName hname =>
      rw [hpath.fileName] at hname
      cases hname
  | generate _ =>
      obtain ⟨hdir, rfl, habsent⟩ := hlater
      exact ⟨hdir, habsent, rfl⟩
  | createTemp hnew =>
      obtain ⟨rfl, habsent, rfl⟩ := hlater
      obtain ⟨-, hentry, -, -⟩ := createNew_eq_some hnew
      refine ⟨habsent, ?_, ⟨dir.next, ?_⟩, by decide⟩
      · rw [hentry, Function.update_of_ne (by simp), habsent]
      · rw [hentry, Function.update_self]
  | tempFails hfails =>
      -- nothing is at the path, so the name is free
      obtain ⟨rfl, habsent, rfl⟩ := hlater
      obtain ⟨dir', hnew⟩ := createNew_of_free (hrecover.resolve_left (not_not_intro habsent))
      rw [hfails hok] at hnew
      cases hnew
  | writeLast _ _ =>
      obtain ⟨habsent, hfree, hfile, -⟩ := hlater
      exact ⟨habsent, hfree, hfile⟩
  | write _ hmore =>
      obtain ⟨habsent, hfree, hfile, -⟩ := hlater
      exact ⟨habsent, hfree, hfile, hmore⟩
  | sync => exact hlater
  | discardTemp => exact hlater.elim
  | hardLink =>
      obtain ⟨habsent, hfree, i, hi⟩ := hlater
      obtain rfl := hok
      exact ⟨habsent, publish_of_free hi hfree⟩
  | @removeTemp key temp =>
      -- a new identity is returned only where none was before
      refine ⟨key, rfl, ?_⟩
      intro i hi
      rw [hlater.1] at hi
      cases hi
  | lost => cases hlater.2
  | linkFails => cases hlater.2
  | metadata =>
      obtain ⟨rfl, i, hi, hlength⟩ := hlater
      obtain rfl := hok
      simp only [readMetadata, hi, if_neg (not_not_intro hlength)]
      exact ⟨rfl, i, hi, hlength⟩
  | read =>
      obtain ⟨rfl, i, hi, hlength⟩ := hlater
      obtain rfl := hok
      simp only [readBytes, hi, if_pos hlength]
      refine ⟨dir.content i, rfl, ?_⟩
      intro j hj
      obtain rfl := Entry.file.inj (hi.symm.trans hj)
      rfl
  | dirFails | syncFails => cases hok
  | writeFails | crash => exact hok.elim

/-- Before it has returned the later call can go on. -/
theorem exists_loadStep (path : IdentityPath) (hlater : LaterStage pid n dir₀ dir counter call.stage)
    (hrunning : ∀ result, call.stage ≠ .done result) :
    ∃ action, action.Unfailing ∧ (loadStep path pid dir counter call action).isSome := by
  have hgenerated : (List.replicate keySize 0 : Binary).length = keySize := List.length_replicate
  cases hs : call.stage with
  | start =>
      refine ⟨.check, trivial, ?_⟩
      simp only [loadStep, hs]
      split <;> rfl
  | lookup =>
      refine ⟨.lookup true, rfl, ?_⟩
      simp only [loadStep, hs]
      split <;> rfl
  | createDirAll =>
      refine ⟨.createDirAll true, rfl, ?_⟩
      simp only [loadStep, hs]
      split <;> rfl
  | generate =>
      refine ⟨.generate (List.replicate keySize 0), trivial, ?_⟩
      simp only [loadStep, hs, if_pos hgenerated]
      split <;> rfl
  | createTemp key temp =>
      refine ⟨.createTemp true, rfl, ?_⟩
      simp only [loadStep, hs]
      split <;> rfl
  | write key temp i written =>
      rw [hs] at hlater
      have hmore : 0 < 1 ∧ written + 1 ≤ keySize := ⟨Nat.one_pos, hlater.2.2.2⟩
      refine ⟨.write 1, trivial, ?_⟩
      simp only [loadStep, hs, if_pos hmore]
      split <;> rfl
  | sync key temp =>
      refine ⟨.sync true, rfl, ?_⟩
      simp only [loadStep, hs]
      rfl
  | hardLink key temp =>
      refine ⟨.hardLink true, rfl, ?_⟩
      simp only [loadStep, hs]
      rfl
  | removeTemp key temp publication =>
      refine ⟨.removeTemp, trivial, ?_⟩
      simp only [loadStep, hs]
      split <;> rfl
  | metadata =>
      refine ⟨.metadata true, rfl, ?_⟩
      simp only [loadStep, hs]
      rfl
  | read =>
      refine ⟨.read true, rfl, ?_⟩
      simp only [loadStep, hs]
      rfl
  | done result => exact absurd hs (hrunning result)
  | discardTemp temp =>
      rw [hs] at hlater
      exact hlater.elim
  | crashed =>
      rw [hs] at hlater
      exact hlater.elim

/-- A call that has given up on its temporary file, the number `n` taken. -/
def gaveUp (dir : IdentityDir) (n : ℕ) : IdentityDir × ℕ × LoadCall :=
  (dir, (n + 1) % 2 ^ 64, ⟨.done (.error (ioError "identity temporary file failed")), none⟩)

/-- The first operation of a call whose temporary name is taken that fails: it
comes to create the file and gives up. -/
theorem run_taken (hpath : path.Accepted) (habsent : dir.entry .path = .absent)
    (htaken : dir.entry (.temp pid n) ≠ .absent) :
    run (soloStep path pid) (dir, n, ⟨.start, none⟩)
        [.check, .lookup true, .createDirAll true, .generate (List.replicate keySize 0),
          .createTemp true] =
      some (gaveUp dir n) := by
  have hnew : dir.createNew (.temp pid n) = none := createNew_of_taken htaken
  have hgenerated : (List.replicate keySize 0 : Binary).length = keySize := List.length_replicate
  have hcheck : soloStep path pid (dir, n, ⟨.start, none⟩) .check =
      some (dir, n, ⟨.lookup, none⟩) := if_neg hpath.valid
  have hlookup : soloStep path pid (dir, n, ⟨.lookup, none⟩) (.lookup true) =
      some (dir, n, ⟨.createDirAll, none⟩) := by
    simp only [soloStep, loadStep, habsent]
    rfl
  have hparent : soloStep path pid (dir, n, ⟨.createDirAll, none⟩) (.createDirAll true) =
      some (dir, n, ⟨.generate, none⟩) := by
    simp only [soloStep, loadStep, hpath.parent]
    rfl
  have hgenerate : soloStep path pid (dir, n, ⟨.generate, none⟩)
      (.generate (List.replicate keySize 0)) =
      some (dir, (n + 1) % 2 ^ 64,
        ⟨.createTemp (List.replicate keySize 0) (.temp pid n), none⟩) := by
    simp only [soloStep, loadStep, if_pos hgenerated, hpath.fileName]
    rfl
  have hcreate : soloStep path pid
      (dir, (n + 1) % 2 ^ 64, ⟨.createTemp (List.replicate keySize 0) (.temp pid n), none⟩)
      (.createTemp true) = some (gaveUp dir n) := by
    simp only [soloStep, loadStep, hnew]
    rfl
  rw [run_cons_of_step _ hcheck, run_cons_of_step _ hlookup, run_cons_of_step _ hparent,
    run_cons_of_step _ hgenerate, run_cons_of_step _ hcreate, run_nil]

end Later

/-! ### The later process -/

section Process

variable {setting : LoadSetting} {pid n : ℕ} {u t : IdentityState} {bs : List LoadAction}

/-- What the first call of a process sees of the state. -/
def IdentityState.solo (u : IdentityState) : IdentityDir × ℕ × LoadCall :=
  (u.dir, u.counter 0, u.calls 0)

/-- The first call of a process has moved to `r`. -/
def IdentityState.withSolo (u : IdentityState) (r : IdentityDir × ℕ × LoadCall) :
    IdentityState where
  dir := r.1
  counter := Function.update u.counter 0 r.2.1
  calls := Function.update u.calls 0 r.2.2

@[simp] theorem solo_withSolo (u : IdentityState) (r : IdentityDir × ℕ × LoadCall) :
    (u.withSolo r).solo = r := by
  simp [IdentityState.solo, IdentityState.withSolo]

theorem withSolo_solo (u : IdentityState) : u.withSolo u.solo = u := by
  simp [IdentityState.solo, IdentityState.withSolo]

theorem withSolo_withSolo (u : IdentityState) (r r' : IdentityDir × ℕ × LoadCall) :
    (u.withSolo r).withSolo r' = u.withSolo r' := by
  simp [IdentityState.withSolo]

theorem identityStep_later (u : IdentityState) (b : LoadAction) :
    identityStep (setting.later pid) u (0, b) =
      (soloStep setting.path pid u.solo b).map u.withSolo := rfl

/-- A call that is alone runs as `soloStep` does. -/
theorem run_later (u : IdentityState) (bs : List LoadAction) :
    run (identityStep (setting.later pid)) u (bs.map fun b => (0, b)) =
      (run (soloStep setting.path pid) u.solo bs).map u.withSolo := by
  induction bs generalizing u with
  | nil => exact congrArg some (withSolo_solo u).symm
  | cons b bs ih =>
      rw [List.map_cons, run_cons, run_cons, identityStep_later]
      cases soloStep setting.path pid u.solo b with
      | none => rfl
      | some r =>
          show run (identityStep (setting.later pid)) (u.withSolo r) (bs.map fun b => (0, b)) =
            (run (soloStep setting.path pid) r bs).map u.withSolo
          rw [ih, solo_withSolo]
          congr 1
          funext r'
          exact withSolo_withSolo u r r'

variable {dir₀ dir : IdentityDir} {r r' : IdentityDir × ℕ × LoadCall}

/-- **Run lemma.** -/
theorem laterStage_run {path : IdentityPath} (hpath : path.Accepted) (hholds : HoldsIdentity dir₀)
    (hrecover : dir₀.entry .path ≠ .absent ∨ dir₀.entry (.temp pid n) = .absent)
    (hrun : run (soloStep path pid) r bs = some r') (hok : ∀ b ∈ bs, b.Unfailing)
    (hlater : LaterStage pid n dir₀ r.1 r.2.1 r.2.2.stage) :
    LaterStage pid n dir₀ r'.1 r'.2.1 r'.2.2.stage ∧
      bs.length + r'.2.2.stage.rank ≤ r.2.2.stage.rank := by
  induction bs generalizing r with
  | nil =>
      obtain rfl := Option.some.inj hrun
      exact ⟨hlater, by simp⟩
  | cons b bs ih =>
      obtain ⟨q, hq, hrest⟩ := run_cons_eq_some hrun
      have hstep := laterStage_step hpath hholds hrecover hlater (hok b List.mem_cons_self) hq
      have hrank := (loadStep_advances hq).rank
      obtain ⟨hlater', hlength⟩ := ih hrest (fun b hb => hok b (List.mem_cons_of_mem _ hb)) hstep
      refine ⟨hlater', ?_⟩
      rw [List.length_cons]
      omega

theorem LaterRun.inv (h : LaterRun setting pid n dir bs u) (hpath : setting.path.Accepted)
    (hholds : HoldsIdentity dir)
    (hrecover : dir.entry .path ≠ .absent ∨ dir.entry (.temp pid n) = .absent) :
    LaterStage pid n dir u.solo.1 u.solo.2.1 u.solo.2.2.stage ∧
      bs.length + u.solo.2.2.stage.rank ≤ 43 := by
  have hrun := h.run
  rw [run_later] at hrun
  obtain ⟨r, hr, rfl⟩ := Option.map_eq_some_iff.mp hrun
  have hstart : LaterStage pid n dir dir n .start := ⟨rfl, rfl⟩
  rw [solo_withSolo]
  exact laterStage_run hpath hholds hrecover hr h.unfailing hstart

/-- **The call recovers exactly from these directories.** -/
theorem recovers_iff (hpath : setting.path.Accepted) (hholds : HoldsIdentity dir) :
    Recovers setting pid n dir ↔
      dir.entry .path ≠ .absent ∨ dir.entry (.temp pid n) = .absent := by
  constructor
  · intro h
    by_contra hnot
    obtain ⟨hpresent, htaken⟩ := not_or.mp hnot
    have hrun := run_taken hpath (not_not.mp hpresent) htaken
    have hlater : LaterRun setting pid n dir [.check, .lookup true, .createDirAll true,
        .generate (List.replicate keySize 0), .createTemp true]
        ((IdentityState.init dir fun _ => n).withSolo (gaveUp dir n)) := by
      refine ⟨?_, by simp [LoadAction.Unfailing]⟩
      rw [run_later]
      exact congrArg (Option.map _) hrun
    have hreturned :
        ((IdentityState.init dir fun _ => n).withSolo (gaveUp dir n)).solo.2.2.stage =
          .done (.error (ioError "identity temporary file failed")) := by
      rw [solo_withSolo]
      rfl
    obtain ⟨key, hkey, -⟩ := h.result _ _ _ hlater hreturned
    cases hkey
  · intro hrecover
    refine ⟨?_, ?_⟩
    · intro bs u result hrun hreturned
      have hstage := (hrun.inv hpath hholds hrecover).1
      rwa [show u.solo.2.2.stage = .done result from hreturned] at hstage
    · intro bs u hrun
      obtain ⟨hstage, hlength⟩ := hrun.inv hpath hholds hrecover
      refine ⟨by omega, ?_⟩
      by_cases hreturned : ∃ result, u.Returned 0 result
      · exact Or.inl hreturned
      · obtain ⟨b, hok, hb⟩ := exists_loadStep setting.path hstage
          fun result hdone => hreturned ⟨result, hdone⟩
        obtain ⟨r, hr⟩ := Option.isSome_iff_exists.mp hb
        refine Or.inr ⟨b, u.withSolo r, hok, ?_⟩
        rw [identityStep_later]
        exact congrArg (Option.map _) hr

end Process

/-! ### The directory a crash leaves -/

section Crash

variable {setting : LoadSetting} {dir₀ : IdentityDir} {counter : ℕ → ℕ} {s s' t : IdentityState}
  {a : ℕ × LoadAction} {as : List (ℕ × LoadAction)}

theorem identityStep_plain {name : FileName} (h : identityStep setting s a = some s')
    (hplain : Plain s.dir name) : Plain s'.dir name := by
  obtain ⟨r, hr, rfl⟩ := Option.map_eq_some_iff.mp h
  exact (loadStep_advances hr).plain name hplain

/-- What is at the path is an identity, at every step. -/
theorem holdsIdentity_run (hholds : HoldsIdentity dir₀)
    (h : run (identityStep setting) (IdentityState.init dir₀ counter) as = some t) :
    HoldsIdentity t.dir := by
  obtain ⟨hinv, -⟩ := (IdentityState.inv_init dir₀ counter).run h
  have hplain : Plain t.dir .path := by
    apply run_invariant (P := fun s : IdentityState => Plain s.dir .path) ?_ h
    · rcases hholds with habsent | ⟨i, hi, -⟩
      · exact Or.inl habsent
      · exact Or.inr ⟨i, hi⟩
    · intro s a s' hs hstep
      exact identityStep_plain hstep hs
  rcases hplain with habsent | ⟨i, hi⟩
  · exact Or.inl habsent
  · refine Or.inr ⟨i, hi, ?_⟩
    rcases hinv.published i hi with hold | ⟨c, key, -, hcontent, hkey⟩
    · -- the file was there before, and it has been kept
      obtain ⟨-, hcontent⟩ := hinv.path (by rw [hold]; simp)
      rcases hholds with habsent | ⟨j, hj, hlength⟩
      · rw [habsent] at hold
        cases hold
      · obtain rfl := Entry.file.inj (hold.symm.trans hj)
        rw [hcontent i hold]
        exact hlength
    · rw [hcontent]
      exact hkey

/-- **After a crash at any step** the first call of a later process recovers if
and only if the identity had been published or the temporary name with the process's
identifier and the number the call takes is free. -/
theorem load_or_create_recovers (hpath : setting.path.Accepted) (hholds : HoldsIdentity dir₀)
    (h : run (identityStep setting) (IdentityState.init dir₀ counter) as = some t) (pid n : ℕ) :
    Recovers setting pid n t.dir ↔
      t.dir.entry .path ≠ .absent ∨ t.dir.entry (.temp pid n) = .absent :=
  recovers_iff hpath (holdsIdentity_run hholds h)

end Crash

/-- Call 0 crashes with its key linked to the path and its temporary name still
there. -/
def crashAfterLink : List (ℕ × LoadAction) :=
  prepareKey 0 ++ [(0, .hardLink true), (0, .crash)]

/-- Call 0 crashes with its key in the temporary file only. -/
def crashBeforeLink : List (ℕ × LoadAction) := prepareKey 0 ++ [(0, .crash)]

/-- A process with the identifier of the crashed one reads what that has published;
and where nothing was published it recovers with its second number, if a call for
another path has taken the first one. -/
theorem load_or_create_recovers_sample :
    (∃ t, run (identityStep sampleSetting) (IdentityState.init emptyDir fun _ => 0)
        crashAfterLink = some t ∧
      t.dir.entry (.temp 7 0) ≠ .absent ∧ Recovers sampleSetting 7 0 t.dir) ∧
    ∃ t, run (identityStep sampleSetting) (IdentityState.init emptyDir fun _ => 0)
        crashBeforeLink = some t ∧
      t.dir.entry (.temp 7 0) ≠ .absent ∧ Recovers sampleSetting 7 1 t.dir := by
  have hpath : sampleSetting.path.Accepted := ⟨by decide, by decide, rfl, rfl⟩
  have hafter : ∃ t, run (identityStep sampleSetting) (IdentityState.init emptyDir fun _ => 0)
      crashAfterLink = some t ∧ t.dir.entry (.temp 7 0) ≠ .absent ∧
        t.dir.entry .path ≠ .absent :=
    ⟨_, rfl, by decide, by decide⟩
  have hbefore : ∃ t, run (identityStep sampleSetting) (IdentityState.init emptyDir fun _ => 0)
      crashBeforeLink = some t ∧ t.dir.entry (.temp 7 0) ≠ .absent ∧
        t.dir.entry (.temp 7 1) = .absent :=
    ⟨_, rfl, by decide, by decide⟩
  obtain ⟨t, ht, htemp, hpublished⟩ := hafter
  obtain ⟨u, hu, htaken, hfree⟩ := hbefore
  exact ⟨⟨t, ht, htemp, (load_or_create_recovers hpath (.inl rfl) ht 7 0).mpr (.inl hpublished)⟩,
    u, hu, htaken, (load_or_create_recovers hpath (.inl rfl) hu 7 1).mpr (.inr hfree)⟩

/-- The first call of a later process, up to its temporary file. -/
def laterCall : List LoadAction :=
  [.check, .lookup true, .createDirAll true, .generate (sampleKey 1), .createTemp true]

/-- A process with the identifier of the crashed one finds the name of its first
temporary file taken. -/
theorem load_or_create_stuck :
    ∃ t, run (identityStep sampleSetting) (IdentityState.init emptyDir fun _ => 0) crashBeforeLink =
        some t ∧
      (∃ u, LaterRun sampleSetting 7 0 t.dir laterCall u ∧
        u.Returned 0 (.error (ioError "identity temporary file failed"))) ∧
      ¬ Recovers sampleSetting 7 0 t.dir := by
  have hlater : ∃ t, run (identityStep sampleSetting) (IdentityState.init emptyDir fun _ => 0)
      crashBeforeLink = some t ∧ ∃ u, LaterRun sampleSetting 7 0 t.dir laterCall u ∧
        u.Returned 0 (.error (ioError "identity temporary file failed")) :=
    ⟨_, rfl, _, ⟨rfl, by simp [laterCall, LoadAction.Unfailing]⟩, rfl⟩
  obtain ⟨t, hrun, u, hu, hreturned⟩ := hlater
  refine ⟨t, hrun, ⟨u, hu, hreturned⟩, ?_⟩
  intro hrecovers
  obtain ⟨key, hkey, -⟩ := hrecovers.result _ _ _ hu hreturned
  cases hkey

end IrohBeam
