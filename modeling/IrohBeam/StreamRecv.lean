/-
IrohBeam/StreamRecv.lean

Successive `Stream.recv/3` calls of one process on one receive half:
`stream_recv_start`, `take_recv` and `RecvLease` of
`native/iroh_beam_nif/src/stream.rs` under the operation protocol, awaited by
`recv/3` of `lib/iroh_beam/stream.ex`.

Every call that gets the half starts an operation whose task holds a lease on
it: the task reads, and when it ends or is dropped the lease clears the busy
flag and puts the half back.  `recvOpStep` has one action for each of these and
`recvStep` interleaves them with the caller's own steps, with more bytes coming
in and with the half being stopped.  `IrohBeam/RecvHalf.lean` relates these to the
steps of the half itself.

Bytes that a read has taken are gone from the stream, so a call that times out
loses them (`recv_skips_bytes`).  The calls together return a prefix of what
the peer sent in every run in which no read takes bytes for a call whose
timeout fires (`recv_prefix_of_sent`).
-/
import IrohBeam.Operation
import IrohBeam.Stream

namespace IrohBeam

open Bytes Transition

/-! ### Leases and operations -/

/-- What `read_chunk` gives. -/
inductive ReadResult where
  | eof
  | data (bytes : Binary)
  deriving DecidableEq, Repr

/-- Where the lease of an operation is: its task waits in `read_chunk`; the
future has ended, with a result or by being dropped, and the busy flag is still
set; the flag is cleared and the half not yet back; the half is back. -/
inductive Lease where
  | reading
  | dropping (result : Option (TaskResult ReadResult))
  | storing (result : Option (TaskResult ReadResult))
  | returned

/-- One receive operation, with the bytes its read has taken. -/
structure RecvOp where
  op : Operation ReadResult
  maxBytes : ℕ
  lease : Lease
  consumed : Binary

/-- The receive half of a stream resource. -/
structure Half where
  unread : Binary
  slot : Bool
  busy : Bool
  closed : Bool

/-- The bytes in a task's result. -/
def TaskResult.bytes : TaskResult ReadResult → Binary
  | .value (.data b) => b
  | _ => []

/-- A step of an operation: its read returns `k` bytes, or ends without any; its
future is dropped where it waits; its lease is returned in two steps; its
supervisor moves. -/
inductive RecvOpAction where
  | read (k : ℕ)
  | endRead (result : TaskResult ReadResult)
  | drop
  | clearBusy
  | store
  | supervise (action : OpAction ReadResult)

/-- The steps of the supervising task.  It can join the task only when the
task, and with it the lease, is gone. -/
def Lease.allows : Lease → OpAction ReadResult → Bool
  | .returned, .join => true
  | _, .join => false
  | _, .selectTask | _, .selectCancelled | _, .complete => true
  | _, .send _ | _, .demonitor | _, .release => true
  | _, _ => false

/-- One step of an operation on the half. -/
def recvOpStep (half : Half) (o : RecvOp) : RecvOpAction → Option (Half × RecvOp)
  | .read k =>
      match o.lease with
      | .reading =>
          if 1 ≤ k ∧ k ≤ o.maxBytes ∧ k ≤ half.unread.length then
            some ({ half with unread := half.unread.drop k },
              { o with
                lease := .dropping (some (.value (.data (half.unread.take k))))
                consumed := half.unread.take k })
          else none
      | _ => none
  | .endRead result =>
      match o.lease with
      | .reading =>
          if result.bytes = [] then some (half, { o with lease := .dropping (some result) })
          else none
      | _ => none
  | .drop =>
      match o.lease, o.op.phase with
      | .reading, .aborting => some (half, { o with lease := .dropping none })
      | _, _ => none
  | .clearBusy =>
      match o.lease with
      | .dropping result => some ({ half with busy := false }, { o with lease := .storing result })
      | _ => none
  | .store =>
      let half' := if half.closed then half else { half with slot := true }
      match o.lease with
      | .storing none => some (half', { o with lease := .returned })
      | .storing (some result) =>
          (opStep o.op (.finish result)).map fun op =>
            (half', { o with op := op, lease := .returned })
      | _ => none
  | .supervise a =>
      if o.lease.allows a then (opStep o.op a).map fun op => (half, { o with op := op }) else none

/-! ### The caller -/

/-- Where the calling process is: between calls, in `take_recv` after it has
claimed the half, or in `await_operation/4` on its latest operation. -/
inductive RecvCaller where
  | idle
  | claiming (maxBytes : ℕ)
  | receiving (i : ℕ)
  | cancelling (i : ℕ)
  | notifying (i : ℕ)
  deriving DecidableEq

/-- The half, the operations started on it in order, the caller, what its
calls have returned, and all bytes the peer has sent. -/
structure Receiver where
  half : Half
  ops : List RecvOp
  caller : RecvCaller
  results : List RecvResult
  arrived : Binary

def Receiver.start : Receiver := ⟨⟨[], true, false, false⟩, [], .idle, [], []⟩

/-- A step of the whole. -/
inductive RecvAction where
  | arrive (bytes : Binary)
  | stop
  | op (i : ℕ) (action : RecvOpAction)
  | call (maxBytes : ℕ)
  | take
  | receive
  | timeout
  | cancel
  | notify

/-- A `stream_recv` error. -/
def recvError (category : Category) (message : String) : RecvResult :=
  .error ⟨category, .streamRecv, message⟩

/-- What `recv/3` makes of the operation's message. -/
def RecvResult.ofMessage : Except Error ReadResult → RecvResult
  | .ok .eof => .eof
  | .ok (.data b) => .data b
  | .error e => .error e

/-- A call returns. -/
def Receiver.return (s : Receiver) (result : RecvResult) : Receiver :=
  { s with caller := .idle, results := s.results ++ [result] }

/-- The error of a call that timed out. -/
def timeoutError : RecvResult := recvError .timeout "operation timed out"

/-- One step. -/
def recvStep (s : Receiver) : RecvAction → Option Receiver
  | .arrive bytes =>
      some { s with
        arrived := s.arrived ++ bytes
        half := { s.half with unread := s.half.unread ++ bytes } }
  | .stop => some { s with half := { s.half with closed := true, slot := false } }
  | .op i a =>
      match s.ops[i]? with
      | some o =>
          (recvOpStep s.half o a).map fun next =>
            { s with half := next.1, ops := s.ops.set i next.2 }
      | none => none
  | .call maxBytes =>
      match s.caller with
      | .idle =>
          if maxBytes = 0 ∨ 16 * 1024 * 1024 < maxBytes then
            some (s.return (recvError .invalidArgument
              "receive limit must be between 1 and 16777216 bytes"))
          else if s.half.closed then
            some (s.return (recvError .closed "receive half is closed"))
          else if s.half.busy then
            some (s.return (recvError .busy "receive half is busy"))
          else some { s with half := { s.half with busy := true }, caller := .claiming maxBytes }
      | _ => none
  | .take =>
      match s.caller with
      | .claiming maxBytes =>
          if s.half.slot then
            some { s with
              half := { s.half with slot := false }
              ops := s.ops ++ [⟨.start (.endpoint .streamRecv), maxBytes, .reading, []⟩]
              caller := .receiving s.ops.length }
          else
            some ({ s with half := { s.half with busy := false } }.return
              (recvError .closed "receive half is unavailable"))
      | _ => none
  | .receive =>
      match s.caller with
      | .receiving i =>
          match s.ops[i]? with
          | some o =>
              match o.op.sent with
              | m :: _ => some (s.return (.ofMessage m))
              | [] => none
          | none => none
      | _ => none
  | .timeout =>
      match s.caller with
      | .receiving i =>
          match s.ops[i]? with
          | some o =>
              match o.op.sent with
              | [] => some { s with caller := .cancelling i }
              | _ => none
          | none => none
      | _ => none
  | .cancel =>
      match s.caller with
      | .cancelling i =>
          match s.ops[i]? with
          | some o =>
              let s' := { s with ops := s.ops.set i { o with op := o.op.cancel } }
              if o.op.state = .running then some { s' with caller := .notifying i }
              else some (s'.return timeoutError)
          | none => none
      | _ => none
  | .notify =>
      match s.caller with
      | .notifying i =>
          match s.ops[i]? with
          | some o =>
              (opStep o.op .notify).map fun op =>
                { s with ops := s.ops.set i { o with op := op } }.return timeoutError
          | none => none
      | _ => none

/-- The bytes a call has returned. -/
def RecvResult.bytes : RecvResult → Binary
  | .data b => b
  | _ => []

/-- The binaries returned by the successful calls, one after the other. -/
def Receiver.received (s : Receiver) : Binary := (s.results.map RecvResult.bytes).flatten

/-! ### One operation -/

/-- The bytes in a message. -/
def messageBytes : Except Error ReadResult → Binary
  | .ok (.data b) => b
  | _ => []

/-- The bytes in the result a lease is returned with. -/
def Lease.bytes : Lease → Binary
  | .dropping (some result) | .storing (some result) => result.bytes
  | _ => []

/-- The result a supervisor has in hand. -/
def Phase.result : Phase ReadResult → Option (TaskResult ReadResult)
  | .deciding result | .sending result => result
  | _ => none

/-- Whatever an operation has in hand, wherever it has it, carries the bytes
its read has taken; while its lease is out it has nothing but the lease. -/
structure RecvOp.Inv (o : RecvOp) : Prop where
  op : o.op.Inv
  kind : o.op.kind = .endpoint .streamRecv
  leased : o.lease ≠ .returned → o.op.task = .running ∧
    (o.op.phase = .selecting ∨ o.op.phase = .aborting) ∧ o.op.sent = [] ∧
    o.consumed = o.lease.bytes
  task : ∀ result, o.op.task = .finished result → o.consumed = result.bytes
  phase : ∀ result, o.op.phase.result = some result → o.consumed = result.bytes
  sent : ∀ m ∈ o.op.sent, messageBytes m = o.consumed

theorem RecvOp.start_inv (maxBytes : ℕ) :
    RecvOp.Inv ⟨.start (.endpoint .streamRecv), maxBytes, .reading, []⟩ where
  op := .start _
  kind := rfl
  leased := fun _ => ⟨rfl, .inl rfl, rfl, rfl⟩
  task := fun result h => by cases h
  phase := fun result h => by cases h
  sent := fun m hm => by cases hm

/-- A supervisor that holds no result. -/
theorem phase_result_none {p : Phase ReadResult} (h : p = .selecting ∨ p = .aborting) :
    p.result = none := by
  rcases h with rfl | rfl <;> rfl

/-- While the lease is out it may change hands and grow, together with the
bytes taken. -/
theorem RecvOp.Inv.relet {o : RecvOp} (h : o.Inv) (hout : o.lease ≠ .returned) {lease : Lease}
    {consumed : Binary} (hbytes : consumed = lease.bytes) :
    RecvOp.Inv { o with lease := lease, consumed := consumed } := by
  obtain ⟨htask, hphase, hsent, -⟩ := h.leased hout
  refine ⟨h.op, h.kind, fun _ => ⟨htask, hphase, hsent, hbytes⟩, ?_, ?_, ?_⟩
  · intro result hfinished
    rw [htask] at hfinished
    cases hfinished
  · intro result hresult
    rw [phase_result_none hphase] at hresult
    cases hresult
  · intro m hm
    rw [hsent] at hm
    cases hm

/-- The message sent for a result carries its bytes. -/
theorem messageBytes_operationResult (name : OperationName) (result : TaskResult ReadResult)
    (ownerAlive : Bool) :
    messageBytes (operationResult (.endpoint name) (some result) ownerAlive) = result.bytes := by
  rcases result with (- | b) | e | - <;> rfl

/-- A step that leaves task, supervisor and messages alone keeps the
invariant. -/
theorem RecvOp.Inv.frame {o : RecvOp} (h : o.Inv) {op : Operation ReadResult} (hop : op.Inv)
    (hkind : op.kind = o.op.kind) (htask : op.task = o.op.task) (hphase : op.phase = o.op.phase)
    (hsent : op.sent = o.op.sent) : RecvOp.Inv { o with op := op } where
  op := hop
  kind := hkind.trans h.kind
  leased := by
    show o.lease ≠ .returned → op.task = .running ∧ _ ∧ op.sent = [] ∧ _
    rw [htask, hphase, hsent]
    exact h.leased
  task := by
    show ∀ result, op.task = _ → _
    rw [htask]
    exact h.task
  phase := by
    show ∀ result, op.phase.result = _ → _
    rw [hphase]
    exact h.phase
  sent := by
    show ∀ m ∈ op.sent, _
    rw [hsent]
    exact h.sent

/-- The supervisor moves on when the lease is back, and keeps what is in hand. -/
theorem RecvOp.Inv.advance {o : RecvOp} (h : o.Inv) (hback : o.lease = .returned)
    {op : Operation ReadResult} (hop : op.Inv) (hkind : op.kind = o.op.kind)
    (htask : ∀ result, op.task = .finished result → o.op.task = .finished result)
    (hphase : ∀ result, op.phase.result = some result → o.consumed = result.bytes)
    (hsent : ∀ m ∈ op.sent, messageBytes m = o.consumed) : RecvOp.Inv { o with op := op } where
  op := hop
  kind := hkind.trans h.kind
  leased := fun hout => absurd hback hout
  task := fun result hfinished => h.task result (htask result hfinished)
  phase := hphase
  sent := hsent

/-- A supervisor past its `select` has the lease back. -/
theorem RecvOp.Inv.lease_returned {o : RecvOp} (h : o.Inv) (hsel : o.op.phase ≠ .selecting)
    (habort : o.op.phase ≠ .aborting) : o.lease = .returned := by
  by_contra hout
  rcases (h.leased hout).2.1 with hphase | hphase
  · exact hsel hphase
  · exact habort hphase

/-- The supervisor does not end the task, and does not see the caller go down. -/
theorem Lease.allows_finish (l : Lease) (result : TaskResult ReadResult) :
    l.allows (.finish result) = false := by
  cases l <;> rfl

theorem Lease.allows_down (l : Lease) : l.allows .down = false := by
  cases l <;> rfl

theorem Lease.allows_join {l : Lease} (h : l.allows .join = true) : l = .returned := by
  cases l with
  | returned => rfl
  | _ => cases h

/-- A step of the protocol that does not end the task keeps what the operation
has in hand. -/
theorem RecvOp.Inv.supervise {o : RecvOp} (h : o.Inv) {a : OpAction ReadResult}
    {op : Operation ReadResult} (hallow : o.lease.allows a = true ∨ a = .cancel ∨ a = .notify)
    (hop : opStep o.op a = some op) : RecvOp.Inv { o with op := op } := by
  have hinv := opStep_inv h.op hop
  cases opStep_cases hop with
  | finish _ => simp [Lease.allows_finish] at hallow
  | cancel =>
      obtain ⟨hkind, htask, hphase⟩ := o.op.cancel_frame
      exact h.frame hinv hkind htask hphase o.op.cancel_sent
  | down _ => simp [Lease.allows_down] at hallow
  | notify _ => exact h.frame hinv rfl rfl rfl rfl
  | @selectTask result hphase htask =>
      have hback : o.lease = .returned := by
        by_contra hout
        rw [(h.leased hout).1] at htask
        cases htask
      refine h.advance hback hinv rfl (fun _ => id) ?_ h.sent
      intro result' hresult
      obtain rfl := Option.some.inj hresult
      exact h.task result htask
  | selectCancelled hphase _ =>
      -- the task is still to be joined, so the lease may be out
      have hspawns : o.op.kind.spawns = true := by rw [h.kind]; rfl
      simp only [hspawns, if_true] at hinv ⊢
      refine ⟨hinv, h.kind, ?_, h.task, ?_, h.sent⟩
      · intro hout
        obtain ⟨htask, -, hsent, hbytes⟩ := h.leased hout
        exact ⟨htask, .inr rfl, hsent, hbytes⟩
      · intro result hresult
        cases hresult
  | join hphase =>
      have hback : o.lease = .returned := by
        rcases hallow with hallow | heq | heq
        · exact Lease.allows_join hallow
        · cases heq
        · cases heq
      refine h.advance hback hinv rfl ?_ ?_ h.sent
      · intro result hfinished
        cases htask : o.op.task with
        | running => simp [TaskState.abort, htask] at hfinished
        | finished r => simpa [TaskState.abort, htask] using hfinished
        | aborted => simp [TaskState.abort, htask] at hfinished
      · intro result hresult
        cases hresult
  | complete hphase _ =>
      have hback := h.lease_returned (by simp [hphase]) (by simp [hphase])
      refine h.advance hback hinv rfl (fun _ => id) ?_ h.sent
      intro result hresult
      exact h.phase result (by rw [hphase]; exact hresult)
  | giveUp hphase _ =>
      have hback := h.lease_returned (by simp [hphase]) (by simp [hphase])
      refine h.advance hback hinv rfl (fun _ => id) ?_ h.sent
      intro result hresult
      cases hresult
  | @send result ownerAlive hphase =>
      have hback := h.lease_returned (by simp [hphase]) (by simp [hphase])
      refine h.advance hback hinv rfl (fun _ => id) ?_ ?_
      · intro result hresult
        cases hresult
      · intro m hm
        rcases List.mem_append.mp hm with hm | hm
        · exact h.sent m hm
        · cases result with
          | none => exact absurd hphase h.op.decided.no_result_sent
          | some r =>
              -- the message carries the bytes the read has taken
              rw [List.mem_singleton.mp hm, h.kind, messageBytes_operationResult]
              exact (h.phase r (by rw [hphase]; rfl)).symm
  | demonitor hphase =>
      have hback := h.lease_returned (by simp [hphase]) (by simp [hphase])
      refine h.advance hback hinv rfl (fun _ => id) ?_ h.sent
      intro result hresult
      cases hresult
  | release hphase =>
      have hback := h.lease_returned (by simp [hphase]) (by simp [hphase])
      refine h.advance hback hinv rfl (fun _ => id) ?_ h.sent
      intro result hresult
      cases hresult

/-- Bytes are taken only while the lease is with a reading task. -/
theorem RecvOp.Inv.consumed_nil {o : RecvOp} (h : o.Inv) (hlease : o.lease = .reading) :
    o.consumed = [] := by
  rw [(h.leased (by simp [hlease])).2.2.2, hlease]
  rfl

/-- The lease comes back without a result, or with the task's result. -/
theorem RecvOp.Inv.settle {o : RecvOp} (h : o.Inv) : RecvOp.Inv { o with lease := .returned } :=
  ⟨h.op, h.kind, fun hout => absurd rfl hout, h.task, h.phase, h.sent⟩

theorem RecvOp.Inv.finish {o : RecvOp} (h : o.Inv) {result : TaskResult ReadResult}
    (hlease : o.lease = .storing (some result)) {op : Operation ReadResult}
    (hop : opStep o.op (.finish result) = some op) :
    RecvOp.Inv { o with op := op, lease := .returned } := by
  have hinv := opStep_inv h.op hop
  have hbytes : o.consumed = result.bytes := by
    rw [(h.leased (by simp [hlease])).2.2.2, hlease]
    rfl
  cases opStep_cases hop with
  | finish _ =>
      refine ⟨hinv, h.kind, fun hout => absurd rfl hout, ?_, h.phase, h.sent⟩
      intro result' hfinished
      obtain rfl := TaskState.finished.inj hfinished
      exact hbytes

/-- What a step of an operation does to the half: it takes bytes off the front
only in a read, which needs the lease, and it puts the half back only by giving
up the lease. -/
structure RecvOpSpec (half : Half) (o : RecvOp) (a : RecvOpAction) (half' : Half) (o' : RecvOp) :
    Prop where
  inv : o'.Inv
  bytes : ∃ new, o'.consumed = o.consumed ++ new ∧ half.unread = new ++ half'.unread ∧
    (new ≠ [] → o.lease ≠ .returned ∧ ∃ k, a = .read k)
  lease : o'.lease ≠ .returned → o.lease ≠ .returned
  slot : half'.slot = half.slot ∨ o.lease ≠ .returned ∧ o'.lease = .returned

theorem recvOpStep_spec {half half' : Half} {o o' : RecvOp} {a : RecvOpAction} (h : o.Inv)
    (hstep : recvOpStep half o a = some (half', o')) : RecvOpSpec half o a half' o' := by
  have hnone : ∃ new, o.consumed = o.consumed ++ new ∧ half.unread = new ++ half.unread ∧
      (new ≠ [] → o.lease ≠ .returned ∧ ∃ k, a = .read k) :=
    ⟨[], (List.append_nil _).symm, rfl, fun hne => absurd rfl hne⟩
  cases a with
  | read k =>
      simp only [recvOpStep] at hstep
      split at hstep
      · next hlease =>
          split at hstep
          · obtain ⟨rfl, rfl⟩ := Prod.mk.inj (Option.some.inj hstep)
            have hout : o.lease ≠ .returned := by simp [hlease]
            refine ⟨h.relet hout rfl, ⟨half.unread.take k, ?_, ?_, ?_⟩, fun _ => hout, .inl rfl⟩
            · rw [h.consumed_nil hlease, List.nil_append]
            · exact (List.take_append_drop _ _).symm
            · exact fun _ => ⟨hout, k, rfl⟩
          · cases hstep
      · cases hstep
  | endRead result =>
      simp only [recvOpStep] at hstep
      split at hstep
      · next hlease =>
          split at hstep
          · next hbytes =>
              obtain ⟨rfl, rfl⟩ := Prod.mk.inj (Option.some.inj hstep)
              have hout : o.lease ≠ .returned := by simp [hlease]
              have hnil := h.consumed_nil hlease
              exact ⟨h.relet hout (hnil.trans hbytes.symm), hnone, fun _ => hout, .inl rfl⟩
          · cases hstep
      · cases hstep
  | drop =>
      simp only [recvOpStep] at hstep
      split at hstep
      · next hlease _ =>
          obtain ⟨rfl, rfl⟩ := Prod.mk.inj (Option.some.inj hstep)
          have hout : o.lease ≠ .returned := by simp [hlease]
          exact ⟨h.relet hout (h.consumed_nil hlease), hnone, fun _ => hout, .inl rfl⟩
      · cases hstep
  | clearBusy =>
      simp only [recvOpStep] at hstep
      split at hstep
      · next result hlease =>
          obtain ⟨rfl, rfl⟩ := Prod.mk.inj (Option.some.inj hstep)
          have hout : o.lease ≠ .returned := by simp [hlease]
          have hbytes : o.consumed = (Lease.storing result).bytes := by
            rw [(h.leased hout).2.2.2, hlease]
            cases result <;> rfl
          exact ⟨h.relet hout hbytes, hnone, fun _ => hout, .inl rfl⟩
      · cases hstep
  | store =>
      have hunread : (if half.closed then half else { half with slot := true }).unread =
          half.unread := by
        split <;> rfl
      simp only [recvOpStep] at hstep
      split at hstep
      · next hlease =>
          obtain ⟨rfl, rfl⟩ := Prod.mk.inj (Option.some.inj hstep)
          have hout : o.lease ≠ .returned := by simp [hlease]
          exact ⟨h.settle, by rw [hunread]; exact hnone, fun _ => hout, .inr ⟨hout, rfl⟩⟩
      · next result hlease =>
          obtain ⟨op, hop, heq⟩ := Option.map_eq_some_iff.mp hstep
          obtain ⟨rfl, rfl⟩ := Prod.mk.inj heq
          have hout : o.lease ≠ .returned := by simp [hlease]
          exact ⟨h.finish hlease hop, by rw [hunread]; exact hnone, fun _ => hout,
            .inr ⟨hout, rfl⟩⟩
      · cases hstep
  | supervise a =>
      simp only [recvOpStep] at hstep
      split at hstep
      · next hallow =>
          obtain ⟨op, hop, heq⟩ := Option.map_eq_some_iff.mp hstep
          obtain ⟨rfl, rfl⟩ := Prod.mk.inj heq
          exact ⟨h.supervise (.inl hallow) hop, hnone, id, .inl rfl⟩
      · cases hstep

/-! ### All calls -/

/-- The operation the caller is waiting for. -/
def RecvCaller.awaits : RecvCaller → Option ℕ
  | .receiving i | .cancelling i | .notifying i => some i
  | _ => none

/-- The bytes taken by each operation, in order. -/
def Receiver.consumed (s : Receiver) : List Binary := s.ops.map RecvOp.consumed

/-- How many operations the caller is done with. -/
def Receiver.settled (s : Receiver) : ℕ := s.caller.awaits.getD s.ops.length

/-- The side condition: a read takes bytes only for a call that is still
waiting for it, and the timeout of a call does not fire once its read has. -/
def ReadsInTime (s : Receiver) : RecvAction → Prop
  | .op i (.read _) => s.caller = .receiving i
  | .timeout => ∀ i o, s.caller = .receiving i → s.ops[i]? = some o → o.consumed = []
  | _ => True

/-- Only the latest operation can have the half, or be waited for; what has
arrived is what the operations have taken and what is unread; and what the
calls have returned is what the operations they are done with have taken. -/
structure Receiver.Inv (s : Receiver) : Prop where
  each : ∀ o ∈ s.ops, o.Inv
  holder : ∀ i o, s.ops[i]? = some o → o.lease ≠ .returned →
    i + 1 = s.ops.length ∧ s.half.slot = false
  awaited : ∀ i, s.caller.awaits = some i → i + 1 = s.ops.length
  arrived : s.arrived = s.consumed.flatten ++ s.half.unread
  quiet : ∀ i o, s.caller = .cancelling i ∨ s.caller = .notifying i → s.ops[i]? = some o →
    o.consumed = []
  received : s.received = (s.consumed.take s.settled).flatten

theorem Receiver.start_inv : Receiver.start.Inv where
  each := fun o ho => by cases ho
  holder := fun i o ho => by cases ho
  awaited := fun i hi => by cases hi
  arrived := rfl
  quiet := fun i o _ ho => by cases ho
  received := rfl

/-- The bytes of the latest operation come last. -/
theorem Receiver.consumed_last {s : Receiver} {i : ℕ} {o : RecvOp} (ho : s.ops[i]? = some o)
    (hlast : i + 1 = s.ops.length) : s.consumed = s.consumed.take i ++ [o.consumed] := by
  apply Ledger.take_append_last
  · rw [Receiver.consumed, List.getElem?_map, ho, Option.map_some]
  · rw [Receiver.consumed, List.length_map, hlast]

namespace Receiver.Inv

variable {s : Receiver} {i : ℕ} {o o' : RecvOp} {result : RecvResult}

/-- A call whose operation has taken nothing goes on to give it up. -/
theorem give_up (h : s.Inv) (hawaits : s.caller.awaits = some i) {caller : RecvCaller}
    (hcaller : caller.awaits = some i)
    (hquiet : ∀ p : RecvOp, s.ops[i]? = some p → p.consumed = []) :
    Receiver.Inv { s with caller := caller } := by
  refine ⟨h.each, h.holder, ?_, h.arrived, ?_, ?_⟩
  · intro j hj
    rw [hcaller] at hj
    exact h.awaited j (hawaits.trans hj)
  · intro j p hj hp
    have hij : caller.awaits = some j := by
      change caller = _ ∨ caller = _ at hj
      rcases hj with rfl | rfl <;> rfl
    rw [hcaller] at hij
    obtain rfl := Option.some.inj hij
    exact hquiet p hp
  · have hbefore := h.received
    rw [Receiver.settled, hawaits] at hbefore
    rw [Receiver.settled, hcaller]
    exact hbefore

/-- A call that has no operation returns no bytes. -/
theorem return_idle (h : s.Inv) (hawaits : s.caller.awaits = none) (hresult : result.bytes = []) :
    (s.return result).Inv := by
  refine ⟨h.each, h.holder, fun j hj => (by cases hj), h.arrived, ?_, ?_⟩
  · intro j p hcaller
    rcases hcaller with hc | hc <;> cases hc
  · have hbefore := h.received
    rw [Receiver.settled, hawaits, Option.getD_none] at hbefore
    show ((s.results ++ [result]).map RecvResult.bytes).flatten =
      (s.consumed.take s.ops.length).flatten
    rw [List.map_append, List.flatten_append, ← hbefore]
    simp [Receiver.received, hresult]

/-- A call that returns the bytes its operation has taken settles it. -/
theorem return_await (h : s.Inv) (hawaits : s.caller.awaits = some i) (ho : s.ops[i]? = some o)
    (hresult : result.bytes = o.consumed) : (s.return result).Inv := by
  have hlast := h.awaited i hawaits
  refine ⟨h.each, h.holder, fun j hj => (by cases hj), h.arrived, ?_, ?_⟩
  · intro j p hcaller
    rcases hcaller with hc | hc <;> cases hc
  · have hbefore := h.received
    rw [Receiver.settled, hawaits, Option.getD_some] at hbefore
    have hall : s.consumed.take s.ops.length = s.consumed :=
      List.take_of_length_le (by rw [Receiver.consumed, List.length_map])
    show ((s.results ++ [result]).map RecvResult.bytes).flatten =
      (s.consumed.take s.ops.length).flatten
    rw [hall, Receiver.consumed_last ho hlast, List.flatten_append, List.map_append,
      List.flatten_append, ← hbefore]
    simp [Receiver.received, hresult]

/-- The flags of the half may change, as long as it is not put back. -/
theorem rehalf (h : s.Inv) (half : Half) (hunread : half.unread = s.half.unread)
    (hslot : s.half.slot = false → half.slot = false) :
    Receiver.Inv { s with half := half } := by
  refine ⟨h.each, ?_, h.awaited, ?_, h.quiet, h.received⟩
  · intro j p hp hout
    obtain ⟨hlast, hempty⟩ := h.holder j p hp hout
    exact ⟨hlast, hslot hempty⟩
  · show s.arrived = s.consumed.flatten ++ half.unread
    rw [hunread]
    exact h.arrived

/-- More bytes of the peer arrive. -/
theorem arrive (h : s.Inv) (bytes : Binary) :
    Receiver.Inv { s with
      arrived := s.arrived ++ bytes
      half := { s.half with unread := s.half.unread ++ bytes } } := by
  refine ⟨h.each, h.holder, h.awaited, ?_, h.quiet, h.received⟩
  show s.arrived ++ bytes = s.consumed.flatten ++ (s.half.unread ++ bytes)
  rw [h.arrived, List.append_assoc]

/-- A call claims the half. -/
theorem claim (h : s.Inv) (hidle : s.caller = .idle) (maxBytes : ℕ) :
    Receiver.Inv { s with caller := .claiming maxBytes } := by
  refine ⟨h.each, h.holder, fun j hj => (by cases hj), h.arrived, ?_, ?_⟩
  · intro j p hcaller
    rcases hcaller with hc | hc <;> cases hc
  · have hbefore := h.received
    rw [Receiver.settled, hidle] at hbefore
    exact hbefore

/-- A call that takes the half out of its slot starts the latest operation: no
other has the half. -/
theorem take (h : s.Inv) (hawaits : s.caller.awaits = none) (hslot : s.half.slot = true)
    (maxBytes : ℕ) :
    Receiver.Inv { s with
      half := { s.half with slot := false }
      ops := s.ops ++ [⟨.start (.endpoint .streamRecv), maxBytes, .reading, []⟩]
      caller := .receiving s.ops.length } := by
  refine ⟨Ledger.forall_append h.each (RecvOp.start_inv maxBytes), ?_, ?_, ?_, ?_, ?_⟩
  · intro j p hp hout
    rcases Nat.lt_or_ge j s.ops.length with hj | hj
    · rw [List.getElem?_append_left hj] at hp
      have hempty := (h.holder j p hp hout).2
      rw [hslot] at hempty
      cases hempty
    · have hle : j < (s.ops ++ [_]).length := (List.getElem?_eq_some_iff.mp hp).1
      rw [List.length_append, List.length_singleton] at hle ⊢
      exact ⟨by omega, rfl⟩
  · intro j hj
    obtain rfl := Option.some.inj hj
    rw [List.length_append, List.length_singleton]
  · show s.arrived = ((s.ops ++ [_]).map RecvOp.consumed).flatten ++ s.half.unread
    rw [h.arrived, List.map_append, List.flatten_append]
    simp [Receiver.consumed]
  · intro j p hcaller
    rcases hcaller with hc | hc <;> cases hc
  · have hbefore := h.received
    rw [Receiver.settled, hawaits, Option.getD_none] at hbefore
    show s.received = (((s.ops ++ [_]).map RecvOp.consumed).take s.ops.length).flatten
    rw [hbefore, List.map_append, Receiver.consumed, List.take_append_of_le_length (by simp)]

/-- Only the holder of the half moves it, so the latest operation stays the
only one that can have it. -/
theorem op_holder (h : s.Inv) (ho : s.ops[i]? = some o) {a : RecvOpAction} {half' : Half}
    (hspec : RecvOpSpec s.half o a half' o') :
    ∀ (j : ℕ) (p : RecvOp), (s.ops.set i o')[j]? = some p → p.lease ≠ .returned →
      j + 1 = s.ops.length ∧ half'.slot = false := by
  intro j p hp hout
  by_cases hij : i = j
  · subst hij
    rw [List.getElem?_set_self (List.getElem?_eq_some_iff.mp ho).1] at hp
    obtain rfl := Option.some.inj hp
    obtain ⟨hlast, hempty⟩ := h.holder i o ho (hspec.lease hout)
    rcases hspec.slot with hslot | ⟨-, hback⟩
    · exact ⟨hlast, hslot.trans hempty⟩
    · exact absurd hback hout
  · rw [List.getElem?_set_ne hij] at hp
    obtain ⟨hlast, hempty⟩ := h.holder j p hp hout
    rcases hspec.slot with hslot | ⟨hheld, -⟩
    · exact ⟨hlast, hslot.trans hempty⟩
    · -- two holders would both be the latest operation
      have hi := (h.holder i o ho hheld).1
      omega

/-- A step of an operation that takes no bytes. -/
theorem op_idle (h : s.Inv) (ho : s.ops[i]? = some o) {a : RecvOpAction} {half' : Half}
    (hspec : RecvOpSpec s.half o a half' o') (hbytes : o'.consumed = o.consumed)
    (hunread : half'.unread = s.half.unread) :
    Receiver.Inv { s with half := half', ops := s.ops.set i o' } := by
  have hconsumed : (s.ops.set i o').map RecvOp.consumed = s.consumed :=
    Ledger.map_set_of_eq ho hbytes
  refine ⟨Ledger.forall_set h.each hspec.inv, ?_, ?_, ?_, ?_, ?_⟩
  · intro j p hp hout
    rw [List.length_set]
    exact h.op_holder ho hspec j p hp hout
  · intro j hj
    rw [List.length_set]
    exact h.awaited j hj
  · show s.arrived = ((s.ops.set i o').map RecvOp.consumed).flatten ++ half'.unread
    rw [hconsumed, hunread]
    exact h.arrived
  · intro j p hcaller hp
    by_cases hij : i = j
    · subst hij
      rw [List.getElem?_set_self (List.getElem?_eq_some_iff.mp ho).1] at hp
      obtain rfl := Option.some.inj hp
      rw [hbytes]
      exact h.quiet i o hcaller ho
    · rw [List.getElem?_set_ne hij] at hp
      exact h.quiet j p hcaller hp
  · show s.received = (((s.ops.set i o').map RecvOp.consumed).take
      (s.caller.awaits.getD (s.ops.set i o').length)).flatten
    rw [hconsumed, List.length_set]
    exact h.received

/-- An operation may be replaced by one with the same lease and bytes. -/
theorem replace (h : s.Inv) (ho : s.ops[i]? = some o) (hinv : o'.Inv) (hlease : o'.lease = o.lease)
    (hbytes : o'.consumed = o.consumed) : Receiver.Inv { s with ops := s.ops.set i o' } := by
  have hspec : RecvOpSpec s.half o .store s.half o' := by
    refine ⟨hinv, ⟨[], ?_, rfl, fun hne => absurd rfl hne⟩, ?_, .inl rfl⟩
    · rw [hbytes, List.append_nil]
    · rw [hlease]
      exact id
  exact h.op_idle ho hspec hbytes rfl

/-- A read for the call that waits for it: the bytes go from the front of the
stream to the operation, which is the latest. -/
theorem op_read (h : s.Inv) (ho : s.ops[i]? = some o) {a : RecvOpAction} {half' : Half}
    (hspec : RecvOpSpec s.half o a half' o') (hcaller : s.caller = .receiving i) {new : Binary}
    (hbytes : o'.consumed = o.consumed ++ new) (hunread : s.half.unread = new ++ half'.unread) :
    Receiver.Inv { s with half := half', ops := s.ops.set i o' } := by
  have hlast : i + 1 = s.ops.length := h.awaited i (by rw [hcaller]; rfl)
  have hlen : s.consumed.length = i + 1 := by rw [Receiver.consumed, List.length_map, hlast]
  have hset : (s.ops.set i o').map RecvOp.consumed = s.consumed.take i ++ [o'.consumed] := by
    rw [List.map_set]
    show s.consumed.set i o'.consumed = _
    rw [Receiver.consumed_last ho hlast, List.take_append_of_le_length (by simp [hlen])]
    simp [hlen]
  refine ⟨Ledger.forall_set h.each hspec.inv, ?_, ?_, ?_, ?_, ?_⟩
  · intro j p hp hout
    rw [List.length_set]
    exact h.op_holder ho hspec j p hp hout
  · intro j hj
    rw [List.length_set]
    exact h.awaited j hj
  · show s.arrived = ((s.ops.set i o').map RecvOp.consumed).flatten ++ half'.unread
    have hflat : s.consumed.flatten = (s.consumed.take i).flatten ++ o.consumed := by
      conv_lhs => rw [Receiver.consumed_last ho hlast, List.flatten_append]
      rw [List.flatten_singleton]
    rw [hset, h.arrived, hflat, hbytes, hunread]
    simp
  · intro j p hj
    rw [hcaller] at hj
    rcases hj with hc | hc <;> cases hc
  · have hbefore := h.received
    rw [Receiver.settled, hcaller] at hbefore
    show s.received = (((s.ops.set i o').map RecvOp.consumed).take (s.caller.awaits.getD _)).flatten
    rw [hset, hcaller, hbefore]
    show _ = ((s.consumed.take i ++ [o'.consumed]).take i).flatten
    rw [List.take_append_of_le_length (by simp [hlen]), List.take_take, Nat.min_self]
    rfl

end Receiver.Inv

/-- What `recv/3` returns for a message carries the message's bytes. -/
theorem RecvResult.bytes_ofMessage (m : Except Error ReadResult) :
    (RecvResult.ofMessage m).bytes = messageBytes m := by
  rcases m with e | (- | b) <;> rfl

/-- A step of an operation in time. -/
theorem recvStep_op {s s' : Receiver} {i : ℕ} {a : RecvOpAction} (h : s.Inv)
    (hG : ReadsInTime s (.op i a)) (hstep : recvStep s (.op i a) = some s') : s'.Inv := by
  simp only [recvStep] at hstep
  split at hstep
  · next o ho =>
      obtain ⟨⟨half', o'⟩, hop, rfl⟩ := Option.map_eq_some_iff.mp hstep
      have hspec := recvOpStep_spec (h.each o (List.mem_of_getElem? ho)) hop
      obtain ⟨new, hbytes, hunread, hread⟩ := hspec.bytes
      by_cases hnew : new = []
      · subst hnew
        -- nothing leaves the stream, whoever moves
        exact h.op_idle ho hspec (by rw [hbytes, List.append_nil]) hunread.symm
      · obtain ⟨-, k, rfl⟩ := hread hnew
        exact h.op_read ho hspec hG hbytes hunread
  · cases hstep

/-- A call's first checks. -/
theorem recvStep_call {s s' : Receiver} {maxBytes : ℕ} (h : s.Inv)
    (hstep : recvStep s (.call maxBytes) = some s') : s'.Inv := by
  simp only [recvStep] at hstep
  split at hstep
  · next hidle =>
      have hawaits : s.caller.awaits = none := by rw [hidle]; rfl
      split at hstep
      · obtain rfl := Option.some.inj hstep
        exact h.return_idle hawaits rfl
      · split at hstep
        · obtain rfl := Option.some.inj hstep
          exact h.return_idle hawaits rfl
        · split at hstep
          · obtain rfl := Option.some.inj hstep
            exact h.return_idle hawaits rfl
          · obtain rfl := Option.some.inj hstep
            exact (h.rehalf { s.half with busy := true } rfl id).claim hidle maxBytes
  · cases hstep

/-- A call takes the half, or finds its slot empty. -/
theorem recvStep_take {s s' : Receiver} (h : s.Inv) (hstep : recvStep s .take = some s') :
    s'.Inv := by
  simp only [recvStep] at hstep
  split at hstep
  · next maxBytes hclaiming =>
      have hawaits : s.caller.awaits = none := by rw [hclaiming]; rfl
      split at hstep
      · next hslot =>
          obtain rfl := Option.some.inj hstep
          exact h.take hawaits hslot maxBytes
      · obtain rfl := Option.some.inj hstep
        exact (h.rehalf { s.half with busy := false } rfl id).return_idle hawaits rfl
  · cases hstep

/-- A call returns its operation's message. -/
theorem recvStep_receive {s s' : Receiver} (h : s.Inv) (hstep : recvStep s .receive = some s') :
    s'.Inv := by
  simp only [recvStep] at hstep
  split at hstep
  · next i hreceiving =>
      split at hstep
      · next o ho =>
          split at hstep
          · next m rest hsent =>
              obtain rfl := Option.some.inj hstep
              have hm : m ∈ o.op.sent := by rw [hsent]; exact List.mem_cons_self
              have hbytes := (h.each o (List.mem_of_getElem? ho)).sent m hm
              refine h.return_await (i := i) (by rw [hreceiving]; rfl) ho ?_
              rw [RecvResult.bytes_ofMessage, hbytes]
          · cases hstep
      · cases hstep
  · cases hstep

/-- A timeout that fires before the read has taken anything. -/
theorem recvStep_timeout {s s' : Receiver} (h : s.Inv) (hG : ReadsInTime s .timeout)
    (hstep : recvStep s .timeout = some s') : s'.Inv := by
  simp only [recvStep] at hstep
  split at hstep
  · next i hreceiving =>
      split at hstep
      · next o ho =>
          split at hstep
          · obtain rfl := Option.some.inj hstep
            exact h.give_up (by rw [hreceiving]; rfl) rfl fun p hp => hG i p hreceiving hp
          · cases hstep
      · cases hstep
  · cases hstep

/-- The caller cancels its operation, which has taken nothing. -/
theorem recvStep_cancel {s s' : Receiver} (h : s.Inv) (hstep : recvStep s .cancel = some s') :
    s'.Inv := by
  simp only [recvStep] at hstep
  split at hstep
  · next i hcancelling =>
      split at hstep
      · next o ho =>
          have hquiet := h.quiet i o (.inl hcancelling) ho
          have hop := (h.each o (List.mem_of_getElem? ho)).supervise (.inr (.inl rfl))
            (show opStep o.op .cancel = some o.op.cancel from rfl)
          have hset := h.replace ho hop rfl rfl
          have hget : (s.ops.set i { o with op := o.op.cancel })[i]? =
              some { o with op := o.op.cancel } :=
            List.getElem?_set_self (List.getElem?_eq_some_iff.mp ho).1
          split at hstep
          · obtain rfl := Option.some.inj hstep
            refine hset.give_up (by rw [hcancelling]; rfl) rfl ?_
            intro p hp
            rw [hget] at hp
            obtain rfl := Option.some.inj hp
            exact hquiet
          · -- the operation is decided already; `recv/3` returns the timeout all the same
            obtain rfl := Option.some.inj hstep
            exact hset.return_await (i := i) (by rw [hcancelling]; rfl) hget hquiet.symm
      · cases hstep
  · cases hstep

/-- The cancelled operation is notified and the call returns the timeout. -/
theorem recvStep_notify {s s' : Receiver} (h : s.Inv) (hstep : recvStep s .notify = some s') :
    s'.Inv := by
  simp only [recvStep] at hstep
  split at hstep
  · next i hnotifying =>
      split at hstep
      · next o ho =>
          obtain ⟨op, hop, rfl⟩ := Option.map_eq_some_iff.mp hstep
          have hquiet := h.quiet i o (.inr hnotifying) ho
          have hinv := (h.each o (List.mem_of_getElem? ho)).supervise (.inr (.inr rfl)) hop
          have hset := h.replace ho hinv rfl rfl
          exact hset.return_await (i := i) (by rw [hnotifying]; rfl)
            (List.getElem?_set_self (List.getElem?_eq_some_iff.mp ho).1) hquiet.symm
      · cases hstep
  · cases hstep

/-- Every step in time keeps the invariant. -/
theorem recvStep_inv {s s' : Receiver} {a : RecvAction} (h : s.Inv) (hG : ReadsInTime s a)
    (hstep : recvStep s a = some s') : s'.Inv := by
  cases a with
  | arrive bytes =>
      obtain rfl := Option.some.inj hstep
      exact h.arrive bytes
  | stop =>
      obtain rfl := Option.some.inj hstep
      exact h.rehalf { s.half with closed := true, slot := false } rfl fun _ => rfl
  | op i a => exact recvStep_op h hG hstep
  | call maxBytes => exact recvStep_call h hstep
  | take => exact recvStep_take h hstep
  | receive => exact recvStep_receive h hstep
  | timeout => exact recvStep_timeout h hG hstep
  | cancel => exact recvStep_cancel h hstep
  | notify => exact recvStep_notify h hstep

/-- **Stream continuity**: in every run in which no read takes bytes for a call
whose timeout fires, the binaries that the successful calls have returned are,
one after the other, a prefix of what the peer has sent. -/
theorem recv_prefix_of_sent (as : List RecvAction) (s : Receiver)
    (hG : Meets recvStep ReadsInTime .start as) (hrun : run recvStep .start as = some s) :
    s.received <+: s.arrived := by
  have h : s.Inv := run_invariant_of_meets (fun _ _ _ => recvStep_inv) hG hrun Receiver.start_inv
  rw [h.received, h.arrived]
  exact ((List.take_prefix _ _).flatten).trans (List.prefix_append _ _)

/-- The first call times out with its read still waiting, and the second gets
the half and the bytes. -/
theorem recv_prefix_of_sent_sample :
    ∃ s : Receiver,
      run recvStep .start
        [.arrive [1, 2, 3], .call 2, .take, .timeout, .cancel, .notify,
         .op 0 (.supervise .selectCancelled), .op 0 .drop, .op 0 .clearBusy, .op 0 .store,
         .call 2, .take, .op 1 (.read 2), .op 1 .clearBusy, .op 1 .store,
         .op 1 (.supervise .selectTask), .op 1 (.supervise .complete),
         .op 1 (.supervise (.send true)), .receive] = some s ∧
      s.results = [timeoutError, .data [1, 2]] ∧ s.received <+: s.arrived := by
  refine ⟨_, rfl, rfl, recv_prefix_of_sent
    [.arrive [1, 2, 3], .call 2, .take, .timeout, .cancel, .notify,
     .op 0 (.supervise .selectCancelled), .op 0 .drop, .op 0 .clearBusy, .op 0 .store,
     .call 2, .take, .op 1 (.read 2), .op 1 .clearBusy, .op 1 .store,
     .op 1 (.supervise .selectTask), .op 1 (.supervise .complete),
     .op 1 (.supervise (.send true)), .receive] _ ?_ rfl⟩
  have hquiet : ReadsInTime
      { Receiver.start with
        half := ⟨[1, 2, 3], false, true, false⟩
        ops := [⟨.start (.endpoint .streamRecv), 2, .reading, []⟩]
        caller := .receiving 0
        arrived := [1, 2, 3] } .timeout := by
    intro i o hcaller ho
    obtain rfl := RecvCaller.receiving.inj hcaller
    obtain rfl := Option.some.inj ho
    rfl
  exact meets_cons trivial rfl <| meets_cons trivial rfl <| meets_cons trivial rfl <|
    meets_cons hquiet rfl <| meets_cons trivial rfl <| meets_cons trivial rfl <|
    meets_cons trivial rfl <| meets_cons trivial rfl <| meets_cons trivial rfl <|
    meets_cons trivial rfl <| meets_cons trivial rfl <| meets_cons trivial rfl <|
    meets_cons (show RecvCaller.receiving 1 = .receiving 1 from rfl) rfl <|
    meets_cons trivial rfl <| meets_cons trivial rfl <| meets_cons trivial rfl <|
    meets_cons trivial rfl <| meets_cons trivial rfl <| meets_cons trivial rfl (meets_nil _)

/-- The peer sends two bytes; the read of the first call takes one of them, the
call times out and returns nothing, and the second call returns the other. -/
theorem recv_skips_bytes :
    ¬ ∀ (as : List RecvAction) (s : Receiver), run recvStep .start as = some s →
      s.received <+: s.arrived := by
  intro hclaim
  have hprefix := hclaim
    [.arrive [1, 2], .call 1, .take, .op 0 (.read 1), .timeout, .cancel, .notify,
     .op 0 .clearBusy, .op 0 .store, .call 1, .take, .op 1 (.read 1), .op 1 .clearBusy,
     .op 1 .store, .op 1 (.supervise .selectTask), .op 1 (.supervise .complete),
     .op 1 (.supervise (.send true)), .receive] _ rfl
  have hskip : ¬ ([2] : Binary) <+: [1, 2] := by decide
  exact hskip hprefix

end IrohBeam
