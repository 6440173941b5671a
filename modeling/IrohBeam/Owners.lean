/-
IrohBeam/Owners.lean

The owners of endpoints, connections and streams.

The process of an endpoint owns all that is opened through it: `init/1` binds
the endpoint with `self()`, `Endpoint.connect/4` and `Endpoint.accept/2` pass it
on as the owner of a connection, and `Stream.open/3` and `Stream.accept/3` take
the owner of the connection for the stream.  Each resource is made and then
monitors its owner (`endpoint_bind_start`, `wrap_connection` and `wrap_stream` in
`native/iroh_beam_nif/src`); a monitor that is refused closes it at once, and the
`down` of a monitor closes it later.

On top of the steps of `IrohBeam/Accounting.lean` the state has the monitors
(`IrohBeam/Monitors.lean`) and who owns what.  An owner may die at any point of
any call, also while its endpoint is being bound.

* `Holdings.Guarded` — whatever is open is watched while its owner is alive, or a
  call has just made it and is about to put up its monitor.  Once the owner is dead
  there is a message about it under way, or that monitor will be refused.
* `owner_leaves_nothing` — when the messages have arrived and the calls in
  flight have ended, nothing that the owner had is open, and nothing of it ever
  opens again; its connection slots are free when the closes have ended.
-/
import IrohBeam.Accounting
import IrohBeam.Monitors

namespace IrohBeam

open Transition Monitors

/-! ### Things with an owner -/

/-- A resource that monitors its owner. -/
inductive Handle where
  | endpoint (e : ℕ)
  | connection (c : ℕ)
  | stream (t : ℕ)
  deriving DecidableEq, Repr

/-- What its `down` begins with: `abort` takes the endpoint, `close` swaps. -/
def Handle.close : Handle → AccountAction
  | .endpoint e => .takeEndpoint e
  | .connection c => .closeConnection c
  | .stream t => .closeStream t

/-- The resource that a call has made and is about to monitor the owner of. -/
def Stage.watching : Stage → Option Handle
  | .monitoring c => some (.connection c)
  | .monitoringStream t => some (.stream t)
  | _ => none

namespace Accounts

/-- The resource is not closed. -/
def Open (s : Accounts) : Handle → Prop
  | .endpoint e => s.endpointOpen e = true
  | .connection c => s.connectionOpen c = true
  | .stream t => s.streams[t]? = some .unreleased

/-- The connection on which a step opens a stream. -/
def opens (s : Accounts) : AccountAction → List ℕ
  | .call i .wrap =>
      match (s.calls[i]?).map Call.nif with
      | some (.streamOpen c) => [c]
      | _ => []
  | _ => []

end Accounts

/-! ### Steps -/

/-- The resources and calls, with the connection of each stream, the endpoints
that are yet to monitor their owner, and the monitors.  The process that binds
endpoint `e` has the number `e`. -/
structure Holdings where
  accounts : Accounts
  streamOf : List ℕ
  binding : List ℕ
  watch : Watch Handle ℕ

def Holdings.start : Holdings := ⟨.start, [], [], .start⟩

/-- The owner. -/
def Holdings.owner (s : Holdings) : Handle → Option ℕ
  | .endpoint e => some e
  | .connection c => (s.accounts.connections[c]?).map ConnectionCell.endpoint
  | .stream t =>
      (s.streamOf[t]?).bind fun c => (s.accounts.connections[c]?).map ConnectionCell.endpoint

inductive HoldingsAction where
  | account (a : AccountAction)
  | monitor (i : ℕ)
  | monitorEndpoint (e : ℕ)
  | die (e : ℕ)
  | down (h : Handle)
  deriving DecidableEq, Repr

/-- One step.  A monitor is refused exactly if the owner is dead. -/
def holdingsStep (s : Holdings) : HoldingsAction → Option Holdings
  | .account (.call _ (.monitor _)) => none
  | .account (.bind maxConnections maxPendingAccepts) =>
      (accountStep s.accounts (.bind maxConnections maxPendingAccepts)).map fun accounts =>
        { s with accounts, binding := s.accounts.endpoints.length :: s.binding }
  | .account a =>
      (accountStep s.accounts a).map fun accounts =>
        { s with accounts, streamOf := s.streamOf ++ s.accounts.opens a }
  | .monitor i => do
      let call ← s.accounts.calls[i]?
      let h ← call.stage.watching
      let e ← s.owner h
      if e ∈ s.watch.dead then
        let accounts ← accountStep s.accounts (.call i (.monitor false))
        return { s with accounts }
      else
        let accounts ← accountStep s.accounts (.call i (.monitor true))
        return { s with accounts, watch := s.watch.add h }
  | .monitorEndpoint e =>
      if e ∈ s.binding then
        if e ∈ s.watch.dead then
          (accountStep s.accounts (.takeEndpoint e)).map fun accounts =>
            { s with accounts, binding := s.binding.filter (· ≠ e) }
        else
          some { s with
            binding := s.binding.filter (· ≠ e)
            watch := s.watch.add (.endpoint e) }
      else none
  | .die e =>
      if e ∈ s.watch.dead then none else some { s with watch := s.watch.die s.owner e }
  | .down h =>
      if h ∈ s.watch.fired then
        (accountStep s.accounts h.close).map fun accounts =>
          { s with accounts, watch := s.watch.deliver h }
      else none

/-! ### What a step makes and closes -/

namespace Accounts

variable {s : Accounts}

theorem open_endpoint {e : ℕ} :
    s.Open (.endpoint e) ↔ ∃ cell, s.endpoints[e]? = some cell ∧ cell.slot = true := by
  simp only [Open, endpointOpen]
  cases s.endpoints[e]? with
  | none => exact ⟨nofun, nofun⟩
  | some cell => exact ⟨fun h => ⟨cell, rfl, h⟩, fun ⟨_, heq, h⟩ => Option.some.inj heq ▸ h⟩

theorem open_connection {c : ℕ} :
    s.Open (.connection c) ↔ ∃ cell, s.connections[c]? = some cell ∧ cell.phase = .unreleased := by
  simp only [Open, connectionOpen]
  cases s.connections[c]? with
  | none => exact ⟨nofun, nofun⟩
  | some cell =>
      refine ⟨fun h => ⟨cell, rfl, beq_iff_eq.mp h⟩, fun ⟨_, heq, h⟩ => ?_⟩
      obtain rfl := Option.some.inj heq
      exact beq_iff_eq.mpr h

end Accounts

@[simp] theorem Accounts.open_setCall {s : Accounts} {i : ℕ} {call : Call} {h : Handle} :
    (s.setCall i call).Open h ↔ s.Open h := by
  cases h <;> exact Iff.rfl

/-- No resource is opened again, none changes its owner, and `new` is what may
have been made. -/
structure Ages (s s' : Accounts) (new : Option Handle) : Prop where
  opened : ∀ h, s'.Open h → s.Open h ∨ new = some h
  bound : s.endpoints.length ≤ s'.endpoints.length
  owners : s.connections.map ConnectionCell.endpoint <+: s'.connections.map ConnectionCell.endpoint

namespace Ages

variable {s s' : Accounts} {new : Option Handle}

theorem refl (s : Accounts) : Ages s s new := ⟨fun _ => .inl, le_rfl, List.prefix_rfl⟩

/-- A step of the counters alone. -/
theorem counters (hendpoints : s'.endpoints = s.endpoints)
    (hconnections : s'.connections = s.connections) (hstreams : s'.streams = s.streams) :
    Ages s s' new where
  opened h hopen := by
    left
    cases h with
    | endpoint e => simpa only [Accounts.Open, Accounts.endpointOpen, hendpoints] using hopen
    | connection c => simpa only [Accounts.Open, Accounts.connectionOpen, hconnections] using hopen
    | stream t => simpa only [Accounts.Open, hstreams] using hopen
  bound := by rw [hendpoints]
  owners := by rw [hconnections]

theorem setCall (h : Ages s s' new) (i : ℕ) (call : Call) : Ages s (s'.setCall i call) new :=
  ⟨fun handle hopen => h.opened handle (Accounts.open_setCall.mp hopen), h.bound, h.owners⟩

theorem setEndpoint {e : ℕ} {cell cell' : EndpointCell} (hcell : s.endpoints[e]? = some cell)
    (hslot : cell'.slot = true → cell.slot = true) : Ages s (s.setEndpoint e cell') new where
  opened h hopen := by
    left
    cases h with
    | endpoint e' =>
        obtain ⟨x, hx, hxslot⟩ := Accounts.open_endpoint.mp hopen
        rcases Ledger.getElem?_set_cases hx with ⟨rfl, rfl⟩ | hx
        · exact Accounts.open_endpoint.mpr ⟨cell, hcell, hslot hxslot⟩
        · exact Accounts.open_endpoint.mpr ⟨x, hx, hxslot⟩
    | connection c => exact hopen
    | stream t => exact hopen
  bound := (List.length_set).ge
  owners := List.prefix_rfl

theorem setConnection {c : ℕ} {cell cell' : ConnectionCell} (hcell : s.connections[c]? = some cell)
    (hendpoint : cell'.endpoint = cell.endpoint)
    (hphase : cell'.phase = .unreleased → cell.phase = .unreleased) :
    Ages s (s.setConnection c cell') new where
  opened h hopen := by
    left
    cases h with
    | endpoint e => exact hopen
    | connection c' =>
        obtain ⟨x, hx, hxphase⟩ := Accounts.open_connection.mp hopen
        rcases Ledger.getElem?_set_cases hx with ⟨rfl, rfl⟩ | hx
        · exact Accounts.open_connection.mpr ⟨cell, hcell, hphase hxphase⟩
        · exact Accounts.open_connection.mpr ⟨x, hx, hxphase⟩
    | stream t => exact hopen
  bound := le_rfl
  owners := by
    rw [Accounts.setConnection, Ledger.map_set_of_eq hcell hendpoint]

theorem setStream {t : ℕ} {phase phase' : StreamPhase} (hphase : s.streams[t]? = some phase)
    (hclosed : phase' = .unreleased → phase = .unreleased) :
    Ages s { s with streams := s.streams.set t phase' } new where
  opened h hopen := by
    left
    cases h with
    | endpoint e => exact hopen
    | connection c => exact hopen
    | stream t' =>
        rcases Ledger.getElem?_set_cases hopen with ⟨rfl, hnew⟩ | hold
        · exact hphase.trans (congrArg some (hclosed hnew.symm))
        · exact hold
  bound := le_rfl
  owners := List.prefix_rfl

theorem addConnection (e : ℕ) :
    Ages s (s.addConnection e) (some (.connection s.connections.length)) where
  opened h hopen := by
    cases h with
    | endpoint e => exact .inl hopen
    | connection c =>
        obtain ⟨x, hx, hphase⟩ := Accounts.open_connection.mp hopen
        rcases Ledger.getElem?_concat_cases hx with hx | rfl
        · exact .inl (Accounts.open_connection.mpr ⟨x, hx, hphase⟩)
        · exact .inr rfl
    | stream t => exact .inl hopen
  bound := le_rfl
  owners := by
    rw [Accounts.addConnection, List.map_append]
    exact List.prefix_append _ _

theorem addStream : Ages s s.addStream (some (.stream s.streams.length)) where
  opened h hopen := by
    cases h with
    | endpoint e => exact .inl hopen
    | connection c => exact .inl hopen
    | stream t =>
        rcases Ledger.getElem?_concat_cases hopen with hold | rfl
        · exact .inl hold
        · exact .inr rfl
  bound := le_rfl
  owners := List.prefix_rfl

theorem bind (maxConnections maxPendingAccepts : ℕ) :
    Ages s { s with
      endpoints := s.endpoints ++ [⟨true, 0, maxPendingAccepts, 0, maxConnections⟩] }
      (some (.endpoint s.endpoints.length)) where
  opened h hopen := by
    cases h with
    | endpoint e =>
        obtain ⟨x, hx, hslot⟩ := Accounts.open_endpoint.mp hopen
        rcases Ledger.getElem?_concat_cases hx with hx | rfl
        · exact .inl (Accounts.open_endpoint.mpr ⟨x, hx, hslot⟩)
        · exact .inr rfl
    | connection c => exact .inl hopen
    | stream t => exact .inl hopen
  bound := by
    rw [List.length_append]
    exact Nat.le_add_right _ _
  owners := List.prefix_rfl

end Ages

/-! ### Steps that make nothing -/

/-- Nothing is made, and the calls are the same. -/
structure Still (s s' : Accounts) : Prop where
  ages : Ages s s' none
  calls : s'.calls = s.calls
  streams : s'.streams.length = s.streams.length

theorem Still.refl (s : Accounts) : Still s s := ⟨.refl s, rfl, rfl⟩

theorem Still.opened {s s' : Accounts} (h : Still s s') {handle : Handle}
    (hopen : s'.Open handle) : s.Open handle :=
  (h.ages.opened handle hopen).resolve_right nofun

theorem Still.trans {s s' s'' : Accounts} (h : Still s s') (h' : Still s' s'') : Still s s'' where
  ages := ⟨fun _ hopen => .inl (h.opened (h'.opened hopen)), h.ages.bound.trans h'.ages.bound,
    h.ages.owners.trans h'.ages.owners⟩
  calls := h'.calls.trans h.calls
  streams := h'.streams.trans h.streams

/-- The swap of a connection's `close`. -/
theorem swapConnection_still {s s' : Accounts} {c : ℕ} (h : s.swapConnection c = some s') :
    Still s s' ∧ ¬ s'.Open (.connection c) := by
  obtain ⟨cell, hcell, rfl⟩ := Option.map_eq_some_iff.mp h
  have hswap : cell.swap.endpoint = cell.endpoint ∧ cell.swap.phase ≠ .unreleased := by
    rcases cell with ⟨e, phase, send, recv⟩
    cases phase <;> exact ⟨rfl, nofun⟩
  refine ⟨⟨.setConnection hcell hswap.1 fun hphase => absurd hphase hswap.2, rfl, rfl⟩,
    fun hopen => ?_⟩
  obtain ⟨x, hx, hphase⟩ := Accounts.open_connection.mp hopen
  rw [Accounts.setConnection, List.getElem?_set_self (List.getElem?_eq_some_iff.mp hcell).1] at hx
  obtain rfl := Option.some.inj hx
  exact hswap.2 hphase

/-- The swap of a stream's `close`. -/
theorem swapStream_still {s s' : Accounts} {t : ℕ} (h : s.swapStream t = some s') :
    Still s s' ∧ ¬ s'.Open (.stream t) := by
  obtain ⟨phase, hphase, rfl⟩ := Option.map_eq_some_iff.mp h
  have hswap : phase.swap ≠ .unreleased := by cases phase <;> exact nofun
  refine ⟨⟨.setStream hphase fun hnew => absurd hnew hswap, rfl, List.length_set⟩,
    fun hopen => ?_⟩
  rw [Accounts.Open, List.getElem?_set_self (List.getElem?_eq_some_iff.mp hphase).1] at hopen
  exact hswap (Option.some.inj hopen)

/-- The endpoint is taken out of its slot. -/
theorem takeEndpoint_still {s s' : Accounts} {e : ℕ}
    (h : accountStep s (.takeEndpoint e) = some s') : Still s s' ∧ ¬ s'.Open (.endpoint e) := by
  obtain ⟨cell, hcell, rfl⟩ := Option.map_eq_some_iff.mp h
  refine ⟨⟨.setEndpoint hcell nofun, rfl, rfl⟩, fun hopen => ?_⟩
  obtain ⟨x, hx, hslot⟩ := Accounts.open_endpoint.mp hopen
  rw [Accounts.setEndpoint, List.getElem?_set_self (List.getElem?_eq_some_iff.mp hcell).1] at hx
  obtain rfl := Option.some.inj hx
  cases hslot

/-- What a `down` begins with closes the resource. -/
theorem close_still {s s' : Accounts} {h : Handle} (hstep : accountStep s h.close = some s') :
    Still s s' ∧ ¬ s'.Open h := by
  cases h with
  | endpoint e => exact takeEndpoint_still hstep
  | connection c => exact swapConnection_still hstep
  | stream t => exact swapStream_still hstep

theorem beginPermit_still {s s' : Accounts} {p : Permit} (h : s.beginPermit p = some s') :
    Still s s' := by
  cases p with
  | accept e =>
      obtain ⟨cell, hcell, h⟩ := Option.bind_eq_some_iff.mp h
      obtain ⟨cell', hbegin, h⟩ := Option.bind_eq_some_iff.mp h
      obtain rfl := Option.some.inj h
      refine ⟨.setEndpoint hcell fun hslot => ?_, rfl, rfl⟩
      unfold EndpointCell.beginAccept at hbegin
      split at hbegin
      · obtain rfl := Option.some.inj hbegin
        exact hslot
      · cases hbegin
  | datagramSend c =>
      obtain ⟨cell, hcell, h⟩ := Option.bind_eq_some_iff.mp h
      obtain ⟨cell', hbegin, h⟩ := Option.bind_eq_some_iff.mp h
      obtain rfl := Option.some.inj h
      unfold ConnectionCell.beginDatagramSend at hbegin
      split at hbegin
      · cases hbegin
      · obtain rfl := Option.some.inj hbegin
        exact ⟨.setConnection hcell rfl id, rfl, rfl⟩
  | datagramRecv c =>
      obtain ⟨cell, hcell, h⟩ := Option.bind_eq_some_iff.mp h
      obtain ⟨cell', hbegin, h⟩ := Option.bind_eq_some_iff.mp h
      obtain rfl := Option.some.inj h
      unfold ConnectionCell.beginDatagramRecv at hbegin
      split at hbegin
      · cases hbegin
      · obtain rfl := Option.some.inj hbegin
        exact ⟨.setConnection hcell rfl id, rfl, rfl⟩

theorem finishPermit_still {s s' : Accounts} {p : Permit} (h : s.finishPermit p = some s') :
    Still s s' := by
  cases p with
  | accept e =>
      obtain ⟨cell, hcell, rfl⟩ := Option.map_eq_some_iff.mp h
      refine ⟨.setEndpoint hcell fun hslot => ?_, rfl, rfl⟩
      unfold EndpointCell.finishAccept at hslot
      split at hslot <;> exact hslot
  | datagramSend c =>
      obtain ⟨cell, hcell, rfl⟩ := Option.map_eq_some_iff.mp h
      exact ⟨.setConnection hcell rfl id, rfl, rfl⟩
  | datagramRecv c =>
      obtain ⟨cell, hcell, rfl⟩ := Option.map_eq_some_iff.mp h
      exact ⟨.setConnection hcell rfl id, rfl, rfl⟩

/-! ### Steps of a call -/

/-- A stage in which a call has not just claimed or made a resource. -/
def Stage.plain : Stage → Bool
  | .claimed _ | .monitoring _ | .monitoringStream _ => false
  | _ => true

theorem Stage.watching_of_plain {stage : Stage} (h : stage.plain = true) :
    stage.watching = none := by
  cases stage <;> first | rfl | cases h

/-- The NIF is one that makes a connection of the endpoint. -/
def Nif.Connects (nif : Nif) (e : ℕ) : Prop :=
  nif = .connectionConnect e ∨ nif = .connectionAccept e

/-- What a call has made in a step. -/
inductive Makes (s s' : Accounts) (call : Call) (a : AccountAction) : Handle → Prop
  | connection {e} : call.stage = .claimed e →
      s'.connections.map ConnectionCell.endpoint =
        s.connections.map ConnectionCell.endpoint ++ [e] →
      Makes s s' call a (.connection s.connections.length)
  | stream {c} : call.nif = .streamOpen c → s.opens a = [c] →
      Makes s s' call a (.stream s.streams.length)

/-- What a step of call `i` does that is not its monitor. -/
structure CallMoves (s : Accounts) (i : ℕ) (call : Call) (a : CallAction) (s' : Accounts)
    (call' : Call) : Prop where
  calls : s'.calls = s.calls.set i call'
  nif : call'.nif = call.nif
  ages : Ages s s' call'.stage.watching
  streams : s'.streams.length = s.streams.length + (s.opens (.call i a)).length
  before : call.stage.watching = none
  claimed : ∀ e, call'.stage = .claimed e → call.nif.Connects e
  made : ∀ h, call'.stage.watching = some h → Makes s s' call (.call i a) h

section Calls

variable {s s' : Accounts} {i : ℕ} {call : Call} {a : CallAction}

/-- A step of the stage and the guards. -/
theorem Still.moves {call' : Call} (hstill : Still s s') (hopens : s.opens (.call i a) = [])
    (hnif : call'.nif = call.nif) (hbefore : call.stage.plain = true)
    (hafter : call'.stage.plain = true) :
    CallMoves s i call a (s'.setCall i call') call' where
  calls := by rw [Accounts.setCall, hstill.calls]
  nif := hnif
  ages := by
    rw [Stage.watching_of_plain hafter]
    exact hstill.ages.setCall i call'
  streams := by
    rw [hopens]
    exact hstill.streams
  before := Stage.watching_of_plain hbefore
  claimed e he := by
    rw [he] at hafter
    cases hafter
  made h hmade := by
    rw [Stage.watching_of_plain hafter] at hmade
    cases hmade

/-- A step of the stage alone. -/
theorem goto_moves (hopens : s.opens (.call i a) = []) {stage stage' : Stage}
    (hstage : call.stage = stage) (h : some (s.goto i call stage') = some s')
    (hbefore : stage.plain = true) (hafter : stage'.plain = true) :
    ∃ call', CallMoves s i call a s' call' := by
  obtain rfl := Option.some.inj h
  exact ⟨_, (Still.refl s).moves hopens rfl (by rw [hstage, hbefore]) hafter⟩

theorem takePermit_moves {p : Permit} {next : Stage} (hopens : s.opens (.call i a) = [])
    (hstage : call.stage = .checked) (h : some (s.takePermit i call p next) = some s')
    (hafter : next.plain = true) : ∃ call', CallMoves s i call a s' call' := by
  unfold Accounts.takePermit at h
  split at h
  · next s₁ hbegin =>
      obtain rfl := Option.some.inj h
      exact ⟨_, (beginPermit_still hbegin).moves hopens rfl (by rw [hstage]; rfl) hafter⟩
  · exact goto_moves hopens hstage h rfl rfl

/-- `claim_connection`. -/
theorem claim_moves {e : ℕ} (hopens : s.opens (.call i a) = []) (hstage : call.stage = .running)
    (hconnects : call.nif.Connects e) (h : s.claim i call e = some s') :
    ∃ call', CallMoves s i call a s' call' := by
  obtain ⟨cell, hcell, h⟩ := Option.bind_eq_some_iff.mp h
  cases hclaim : cell.claimConnection with
  | none =>
      simp only [hclaim] at h
      exact goto_moves hopens hstage h rfl rfl
  | some cell' =>
      simp only [hclaim] at h
      obtain rfl := Option.some.inj h
      have hslot : cell'.slot = true → cell.slot = true := by
        unfold EndpointCell.claimConnection at hclaim
        split at hclaim
        · obtain rfl := Option.some.inj hclaim
          exact id
        · cases hclaim
      exact ⟨{ call with stage := .claimed e },
        { calls := rfl
          nif := rfl
          ages := (Ages.setEndpoint hcell hslot).setCall i _
          streams := by rw [hopens]; rfl
          before := by rw [hstage]; rfl
          claimed := fun e' he => by
            obtain rfl := Stage.claimed.inj he
            exact hconnects
          made := nofun }⟩

/-- **Every step of a call** but its monitor. -/
theorem callStep_moves (hcall : s.calls[i]? = some call) (ha : ∀ alive, a ≠ .monitor alive)
    (h : callStep s i call a = some s') : ∃ call', CallMoves s i call a s' call' := by
  cases a with
  | fail =>
      simp only [callStep] at h
      split at h
      · next hstage => exact goto_moves rfl hstage h rfl rfl
      · next hstage => exact goto_moves rfl hstage h rfl rfl
      · cases h
  | check =>
      simp only [callStep] at h
      split at h
      · next e hstage _ =>
          exact goto_moves rfl hstage h rfl (by cases s.endpointOpen e <;> rfl)
      · next hstage _ => exact goto_moves rfl hstage h rfl rfl
      · next c hstage _ =>
          exact goto_moves rfl hstage h rfl (by cases s.connectionOpen c <;> rfl)
      · next hstage _ => exact goto_moves rfl hstage h rfl rfl
      · next c _ hstage _ =>
          exact goto_moves rfl hstage h rfl (by cases s.connectionOpen c <;> rfl)
      · next c hstage _ =>
          exact goto_moves rfl hstage h rfl (by cases s.connectionOpen c <;> rfl)
      · next e hstage _ =>
          exact goto_moves rfl hstage h rfl (by cases s.endpointOpen e <;> rfl)
      · cases h
  | take =>
      simp only [callStep] at h
      split at h
      · next hstage _ => exact takePermit_moves rfl hstage h rfl
      · next hstage _ => exact takePermit_moves rfl hstage h rfl
      · next hstage _ => exact takePermit_moves rfl hstage h rfl
      · cases h
  | queue =>
      simp only [callStep] at h
      split at h
      · next hstage _ =>
          obtain rfl := Option.some.inj h
          exact ⟨_, Still.moves ⟨.counters rfl rfl rfl, rfl, rfl⟩ rfl rfl (by rw [hstage]; rfl) rfl⟩
      · cases h
  | peak =>
      simp only [callStep] at h
      split at h
      · next hstage =>
          obtain rfl := Option.some.inj h
          exact ⟨_, Still.moves ⟨.counters rfl rfl rfl, rfl, rfl⟩ rfl rfl (by rw [hstage]; rfl) rfl⟩
      · cases h
  | spawn ok =>
      simp only [callStep] at h
      split at h
      · next hstage => exact goto_moves rfl hstage h rfl (by cases ok <;> rfl)
      · cases h
  | finish =>
      simp only [callStep] at h
      split at h
      · next hstage => exact goto_moves rfl hstage h rfl rfl
      · cases h
  | wrap =>
      simp only [callStep] at h
      split at h
      · next e hstage hnif =>
          refine claim_moves ?_ hstage (.inl hnif) h
          simp only [Accounts.opens, hcall, Option.map_some, hnif]
      · next e hstage hnif =>
          refine claim_moves ?_ hstage (.inr hnif) h
          simp only [Accounts.opens, hcall, Option.map_some, hnif]
      · next c hstage hnif =>
          obtain rfl := Option.some.inj h
          have hopens : s.opens (.call i .wrap) = [c] := by
            simp only [Accounts.opens, hcall, Option.map_some, hnif]
          exact ⟨{ call with stage := .monitoringStream s.streams.length },
            { calls := rfl
              nif := rfl
              ages := Ages.addStream.setCall i _
              streams := by
                rw [hopens]
                exact List.length_append
              before := by rw [hstage]; rfl
              claimed := fun e he => by cases he
              made := fun h hmade => by
                obtain rfl := Option.some.inj hmade
                exact .stream hnif hopens }⟩
      · cases h
  | count =>
      simp only [callStep] at h
      split at h
      · next e hstage =>
          obtain rfl := Option.some.inj h
          exact ⟨{ call with stage := .monitoring s.connections.length },
            { calls := rfl
              nif := rfl
              ages := (Ages.addConnection e).setCall i _
              streams := rfl
              before := by rw [hstage]; rfl
              claimed := fun e he => by cases he
              made := fun h hmade => by
                obtain rfl := Option.some.inj hmade
                exact .connection hstage List.map_append }⟩
      · cases h
  | monitor alive => exact absurd rfl (ha alive)
  | leave =>
      simp only [callStep] at h
      split at h
      · next hstage =>
          split at h
          · exact goto_moves rfl hstage h rfl rfl
          · cases h
      · next hstage =>
          split at h
          · exact goto_moves rfl hstage h rfl rfl
          · cases h
      · cases h
  | dropPermit =>
      simp only [callStep] at h
      split at h
      · next hstage _ =>
          obtain ⟨s₁, hfinish, rfl⟩ := Option.map_eq_some_iff.mp h
          exact ⟨_, (finishPermit_still hfinish).moves rfl rfl (by rw [hstage]; rfl)
            (by rw [hstage]; rfl)⟩
      · cases h
  | dropQueued =>
      simp only [callStep] at h
      split at h
      · next hstage _ =>
          obtain rfl := Option.some.inj h
          exact ⟨_, Still.moves ⟨.counters rfl rfl rfl, rfl, rfl⟩ rfl rfl (by rw [hstage]; rfl)
            (by rw [hstage]; rfl)⟩
      · cases h
  | exit =>
      simp only [callStep] at h
      split at h
      · next hstage _ _ => exact goto_moves rfl hstage h rfl rfl
      · cases h

/-- The monitor of what the call has made. -/
theorem callStep_monitor {alive : Bool} {h : Handle} (hwatching : call.stage.watching = some h)
    (hstep : callStep s i call (.monitor alive) = some s') :
    ∃ stage s₁, stage.plain = true ∧ s' = s₁.goto i call stage ∧ Still s s₁ ∧
      (alive = false → ¬ s₁.Open h) := by
  simp only [callStep] at hstep
  split at hstep
  · next c hstage =>
      rw [hstage] at hwatching
      obtain rfl := Option.some.inj hwatching
      split at hstep
      · next halive =>
          exact ⟨.unwinding, s, rfl, (Option.some.inj hstep).symm, .refl s,
            fun hdead => absurd halive (Bool.not_eq_true _ ▸ hdead)⟩
      · obtain ⟨s₁, hswap, rfl⟩ := Option.map_eq_some_iff.mp hstep
        obtain ⟨hstill, hclosed⟩ := swapConnection_still hswap
        exact ⟨.closing c, s₁, rfl, rfl, hstill, fun _ => hclosed⟩
  · next t hstage =>
      rw [hstage] at hwatching
      obtain rfl := Option.some.inj hwatching
      split at hstep
      · next halive =>
          exact ⟨.unwinding, s, rfl, (Option.some.inj hstep).symm, .refl s,
            fun hdead => absurd halive (Bool.not_eq_true _ ▸ hdead)⟩
      · obtain ⟨s₁, hswap, rfl⟩ := Option.map_eq_some_iff.mp hstep
        obtain ⟨hstill, hclosed⟩ := swapStream_still hswap
        exact ⟨.closingStream t, s₁, rfl, rfl, hstill, fun _ => hclosed⟩
  · cases hstep

end Calls

/-! ### Steps of the whole -/

/-- Neither a bind nor a monitor. -/
def AccountAction.isPlain : AccountAction → Bool
  | .bind _ _ | .call _ (.monitor _) => false
  | _ => true

/-- What such a step is. -/
inductive AccountMove (s s' : Accounts) (a : AccountAction) : Prop
  | call {i call action call'} : a = .call i action → s.calls[i]? = some call →
      callStep s i call action = some s' → CallMoves s i call action s' call' → AccountMove s s' a
  | start {nif} : a = .start nif → s.allows nif = true →
      s' = { s with calls := s.calls ++ [.start nif] } → AccountMove s s' a
  | still : s.opens a = [] → Still s s' → AccountMove s s' a

theorem accountStep_move {s s' : Accounts} {a : AccountAction}
    (ha : a.isPlain = true) (h : accountStep s a = some s') : AccountMove s s' a := by
  cases a with
  | bind m n => cases ha
  | takeEndpoint e => exact .still rfl (takeEndpoint_still h).1
  | start nif =>
      simp only [accountStep] at h
      split at h
      · next hallows => exact .start rfl hallows (Option.some.inj h).symm
      · cases h
  | call i action =>
      simp only [accountStep] at h
      split at h
      · next call hcall =>
          have hmonitor : ∀ alive, action ≠ .monitor alive := by
            rintro alive rfl
            cases ha
          obtain ⟨call', hmoves⟩ := callStep_moves hcall hmonitor h
          exact .call rfl hcall h hmoves
      · cases h
  | closeConnection c => exact .still rfl (swapConnection_still h).1
  | releaseConnection c =>
      simp only [accountStep] at h
      split at h
      · next e send recv hcell =>
          obtain ⟨cell, hendpoint, rfl⟩ := Option.map_eq_some_iff.mp h
          have hslot : cell.releaseConnection.slot = true → cell.slot = true := by
            unfold EndpointCell.releaseConnection
            split <;> exact id
          have hfreed : Still s (s.setEndpoint e cell.releaseConnection) :=
            ⟨.setEndpoint hendpoint hslot, rfl, rfl⟩
          exact .still rfl (hfreed.trans ⟨.setConnection hcell rfl (fun h => by cases h), rfl, rfl⟩)
      · cases h
  | uncountConnection c =>
      simp only [accountStep] at h
      split at h
      · next hcell =>
          obtain rfl := Option.some.inj h
          have hcounted : Still s { s with activeConnections := s.activeConnections - 1 } :=
            ⟨.counters rfl rfl rfl, rfl, rfl⟩
          exact .still rfl (hcounted.trans ⟨.setConnection hcell rfl (fun h => by cases h), rfl, rfl⟩)
      · cases h
  | closeStream t => exact .still rfl (swapStream_still h).1
  | uncountStream t =>
      simp only [accountStep] at h
      split at h
      · next hphase =>
          obtain rfl := Option.some.inj h
          have hcounted : Still s { s with activeStreams := s.activeStreams - 1 } :=
            ⟨.counters rfl rfl rfl, rfl, rfl⟩
          exact .still rfl
            (hcounted.trans ⟨.setStream hphase (fun h => by cases h), rfl, List.length_set⟩)
      · cases h

theorem mem_opens {s : Accounts} {a : AccountAction} {c : ℕ} (h : c ∈ s.opens a) :
    ∃ call ∈ s.calls, call.nif = .streamOpen c := by
  unfold Accounts.opens at h
  split at h
  · split at h
    · next hnif =>
        obtain ⟨call, hcall, hnif⟩ := Option.map_eq_some_iff.mp hnif
        obtain rfl := List.mem_singleton.mp h
        exact ⟨call, List.mem_of_getElem? hcall, hnif⟩
    · cases h
  · cases h

namespace AccountMove

variable {s s' : Accounts} {a : AccountAction}

theorem streams (h : AccountMove s s' a) :
    s'.streams.length = s.streams.length + (s.opens a).length := by
  cases h with
  | call ha _ _ hmoves =>
      rw [ha]
      exact hmoves.streams
  | start ha _ hs =>
      rw [ha, hs]
      rfl
  | still hopens hstill =>
      rw [hopens]
      exact hstill.streams

theorem bound (h : AccountMove s s' a) : s.endpoints.length ≤ s'.endpoints.length := by
  cases h with
  | call _ _ _ hmoves => exact hmoves.ages.bound
  | start _ _ hs => rw [hs]
  | still _ hstill => exact hstill.ages.bound

theorem owners (h : AccountMove s s' a) :
    s.connections.map ConnectionCell.endpoint <+: s'.connections.map ConnectionCell.endpoint := by
  cases h with
  | call _ _ _ hmoves => exact hmoves.ages.owners
  | start _ _ hs => rw [hs]
  | still _ hstill => exact hstill.ages.owners

/-- A call that is about to monitor what it has made does nothing else. -/
theorem pending (h : AccountMove s s' a) {call : Call} (hcall : call ∈ s.calls)
    (hwatching : call.stage.watching ≠ none) : call ∈ s'.calls := by
  cases h with
  | @call i call₀ action call' ha hcall₀ hstep hmoves =>
      obtain ⟨j, hj⟩ := List.getElem?_of_mem hcall
      have hij : i ≠ j := by
        rintro rfl
        rw [hcall₀] at hj
        obtain rfl := Option.some.inj hj
        exact hwatching hmoves.before
      rw [hmoves.calls]
      exact List.mem_of_getElem? ((List.getElem?_set_ne hij).trans hj)
  | start _ _ hs =>
      rw [hs]
      exact List.mem_append_left _ hcall
  | still _ hstill =>
      rw [hstill.calls]
      exact hcall

theorem opened (h : AccountMove s s' a) {handle : Handle} (hopen : s'.Open handle) :
    s.Open handle ∨ ∃ call ∈ s'.calls, call.stage.watching = some handle := by
  cases h with
  | @call i call₀ action call' ha hcall₀ hstep hmoves =>
      refine (hmoves.ages.opened handle hopen).imp_right fun hnew => ⟨call', ?_, hnew⟩
      rw [hmoves.calls]
      exact List.mem_set (List.getElem?_eq_some_iff.mp hcall₀).1 _
  | start _ _ hs =>
      left
      rw [hs] at hopen
      cases handle <;> exact hopen
  | still _ hstill => exact .inl (hstill.opened hopen)

end AccountMove

/-! ### Who owns what -/

/-- The resource that a NIF is to make another one from. -/
def Nif.handle : Nif → Option Handle
  | .connectionConnect e | .connectionAccept e => some (.endpoint e)
  | .streamOpen c => some (.connection c)
  | _ => none

theorem Nif.Connects.handle {nif : Nif} {e : ℕ} (h : nif.Connects e) :
    nif.handle = some (.endpoint e) := by
  rcases h with rfl | rfl <;> rfl

namespace Holdings

/-- Connections and streams are added, and keep what is known of them. -/
structure Grows (s s' : Holdings) : Prop where
  connections : s.accounts.connections.map ConnectionCell.endpoint <+:
    s'.accounts.connections.map ConnectionCell.endpoint
  streamOf : s.streamOf <+: s'.streamOf

theorem endpointOf_mono {l l' : List ConnectionCell} {c e : ℕ}
    (h : l.map ConnectionCell.endpoint <+: l'.map ConnectionCell.endpoint)
    (hc : (l[c]?).map ConnectionCell.endpoint = some e) :
    (l'[c]?).map ConnectionCell.endpoint = some e := by
  rw [← List.getElem?_map] at hc ⊢
  exact Ledger.getElem?_of_prefix h hc

namespace Grows

variable {s s' : Holdings}

theorem length_le (h : Grows s s') :
    s.accounts.connections.length ≤ s'.accounts.connections.length := by
  simpa using h.connections.length_le

theorem owner (h : Grows s s') : Extends s.owner s'.owner := by
  intro handle e hown
  cases handle with
  | endpoint e' => exact hown
  | connection c => exact endpointOf_mono h.connections hown
  | stream t =>
      obtain ⟨c, hc, hown⟩ := Option.bind_eq_some_iff.mp hown
      exact Option.bind_eq_some_iff.mpr
        ⟨c, Ledger.getElem?_of_prefix h.streamOf hc, endpointOf_mono h.connections hown⟩

end Grows

/-- What is known of a call: the connection it opens a stream on, the endpoint
for which it has claimed a connection, and the owner of what it has made. -/
structure CallInv (s : Holdings) (call : Call) : Prop where
  opening : ∀ c, call.nif = .streamOpen c → c < s.accounts.connections.length
  claimed : ∀ e, call.stage = .claimed e → call.nif.Connects e
  made : ∀ h, call.stage.watching = some h →
    ∃ e source, s.owner h = some e ∧ call.nif.handle = some source ∧ s.owner source = some e

theorem CallInv.mono {s s' : Holdings} {call : Call} (h : s.CallInv call) (hgrows : Grows s s') :
    s'.CallInv call where
  opening c hc := (h.opening c hc).trans_le hgrows.length_le
  claimed := h.claimed
  made handle hmade := by
    obtain ⟨e, source, hown, hsource, hown'⟩ := h.made handle hmade
    exact ⟨e, source, hgrows.owner handle e hown, hsource, hgrows.owner source e hown'⟩

/-- A monitor is yet to be put up. -/
def Pending (s : Holdings) (h : Handle) : Prop :=
  (∃ e ∈ s.binding, h = .endpoint e) ∨ ∃ call ∈ s.accounts.calls, call.stage.watching = some h

/-- What all interleavings keep. -/
structure Inv (s : Holdings) : Prop where
  accounts : s.accounts.Inv
  streams : s.streamOf.length = s.accounts.streams.length
  streamOf : ∀ c ∈ s.streamOf, c < s.accounts.connections.length
  calls : ∀ call ∈ s.accounts.calls, s.CallInv call
  watch : s.watch.Inv s.owner
  held : ∀ h, s.accounts.Open h → s.watch.Has h ∨ s.Pending h

theorem start_inv : start.Inv where
  accounts := Accounts.start_inv
  streams := rfl
  streamOf := nofun
  calls := nofun
  watch := Watch.start_inv _
  held h hopen := by
    cases h with
    | endpoint e => cases hopen
    | connection c => cases hopen
    | stream t => cases hopen

variable {s : Holdings}

theorem callInv_start {nif : Nif} (hallows : s.accounts.allows nif = true) :
    s.CallInv (.start nif) where
  opening c hc := by
    obtain rfl : nif = .streamOpen c := hc
    exact of_decide_eq_true hallows
  claimed := nofun
  made := nofun

/-- What is known of a call after a step of its own. -/
theorem Inv.moved (h : s.Inv) {accounts : Accounts} {i : ℕ} {a : CallAction} {call call' : Call}
    (hcall : s.accounts.calls[i]? = some call)
    (hmoves : CallMoves s.accounts i call a accounts call')
    (hgrows : Grows s ⟨accounts, s.streamOf ++ s.accounts.opens (.call i a), s.binding, s.watch⟩) :
    CallInv ⟨accounts, s.streamOf ++ s.accounts.opens (.call i a), s.binding, s.watch⟩ call' where
  opening c hc := by
    rw [hmoves.nif] at hc
    exact ((h.calls call (List.mem_of_getElem? hcall)).opening c hc).trans_le hgrows.length_le
  claimed e he := by
    rw [hmoves.nif]
    exact hmoves.claimed e he
  made handle hmade := by
    have hknown := h.calls call (List.mem_of_getElem? hcall)
    cases hmoves.made handle hmade with
    | @connection e hclaimed hadded =>
        refine ⟨e, .endpoint e, ?_, ?_, rfl⟩
        · show ((accounts.connections[s.accounts.connections.length]?).map _) = _
          rw [← List.getElem?_map, hadded, ← List.length_map ConnectionCell.endpoint,
            List.getElem?_concat_length]
        · rw [hmoves.nif]
          exact (hknown.claimed e hclaimed).handle
    | @stream c hnif hopens =>
        have hlt : c < accounts.connections.length :=
          (hknown.opening c hnif).trans_le hgrows.length_le
        refine ⟨accounts.connections[c].endpoint, .connection c, ?_, ?_, ?_⟩
        · show (((s.streamOf ++ s.accounts.opens _)[s.accounts.streams.length]?).bind _) = _
          rw [hopens, ← h.streams, List.getElem?_concat_length, Option.bind_some,
            List.getElem?_eq_getElem hlt, Option.map_some]
        · rw [hmoves.nif, hnif]
          rfl
        · show ((accounts.connections[c]?).map _) = _
          rw [List.getElem?_eq_getElem hlt, Option.map_some]

/-- A step of the resources and the calls. -/
theorem Inv.account (h : s.Inv) {accounts : Accounts} {a : AccountAction}
    (hinv : accounts.Inv) (hmove : AccountMove s.accounts accounts a) :
    Inv ⟨accounts, s.streamOf ++ s.accounts.opens a, s.binding, s.watch⟩ := by
  have hgrows : Grows s ⟨accounts, s.streamOf ++ s.accounts.opens a, s.binding, s.watch⟩ :=
    ⟨hmove.owners, List.prefix_append _ _⟩
  refine ⟨hinv, ?_, ?_, ?_, h.watch.mono hgrows.owner, ?_⟩
  · show (s.streamOf ++ _).length = accounts.streams.length
    rw [List.length_append, h.streams, hmove.streams]
  · intro c hc
    refine lt_of_lt_of_le ?_ hgrows.length_le
    rcases List.mem_append.mp hc with hc | hc
    · exact h.streamOf c hc
    · obtain ⟨call, hcall, hnif⟩ := mem_opens hc
      exact (h.calls call hcall).opening c hnif
  · intro call hcall
    cases hmove with
    | @call i call₀ action call' ha hcall₀ hstep hmoves =>
        subst ha
        rcases List.mem_or_eq_of_mem_set (hmoves.calls ▸ hcall) with hold | rfl
        · exact (h.calls call hold).mono hgrows
        · exact h.moved hcall₀ hmoves hgrows
    | @start nif _ hallows hs =>
        rw [hs] at hcall
        rcases List.mem_append.mp hcall with hold | hnew
        · exact (h.calls call hold).mono hgrows
        · obtain rfl := List.mem_singleton.mp hnew
          exact (callInv_start hallows).mono hgrows
    | still _ hstill =>
        rw [hstill.calls] at hcall
        exact (h.calls call hcall).mono hgrows
  · intro handle hopen
    rcases hmove.opened hopen with hold | hnew
    · refine (h.held handle hold).imp_right fun hpending => ?_
      rcases hpending with hbound | ⟨call, hcall, hwatching⟩
      · exact .inl hbound
      · exact .inr ⟨call, hmove.pending hcall (by rw [hwatching]; exact nofun), hwatching⟩
    · exact .inr (.inr hnew)

/-- A step that makes nothing, with what it does to the monitors. -/
theorem Inv.still (h : s.Inv) {accounts : Accounts} {binding : List ℕ} {watch : Watch Handle ℕ}
    (hinv : accounts.Inv) (hstill : Still s.accounts accounts) (hwatch : watch.Inv s.owner)
    (hheld : ∀ handle, accounts.Open handle →
      s.watch.Has handle ∨ (∃ e ∈ s.binding, handle = .endpoint e) →
      watch.Has handle ∨ ∃ e ∈ binding, handle = .endpoint e) :
    Inv ⟨accounts, s.streamOf, binding, watch⟩ := by
  have hgrows : Grows s ⟨accounts, s.streamOf, binding, watch⟩ :=
    ⟨hstill.ages.owners, List.prefix_rfl⟩
  refine ⟨hinv, h.streams.trans hstill.streams.symm, ?_, ?_, hwatch.mono hgrows.owner, ?_⟩
  · intro c hc
    exact (h.streamOf c hc).trans_le hgrows.length_le
  · intro call hcall
    rw [hstill.calls] at hcall
    exact (h.calls call hcall).mono hgrows
  · intro handle hopen
    rcases h.held handle (hstill.opened hopen) with
      hhas | hbound | ⟨call, hcall, hwatching⟩
    · exact (hheld handle hopen (.inl hhas)).imp_right .inl
    · exact (hheld handle hopen (.inr hbound)).imp_right .inl
    · exact .inr (.inr ⟨call, hstill.calls.symm ▸ hcall, hwatching⟩)

/-- The monitor of call `i`, put up or refused. -/
theorem Inv.monitor (h : s.Inv) {accounts : Accounts} {i : ℕ} {call : Call} {stage : Stage}
    {handle : Handle} {watch : Watch Handle ℕ} (hcall : s.accounts.calls[i]? = some call)
    (hwatching : call.stage.watching = some handle) (hplain : stage.plain = true)
    (hinv : (accounts.goto i call stage).Inv) (hstill : Still s.accounts accounts)
    (hwatch : watch.Inv s.owner) (hhas : ∀ handle', s.watch.Has handle' → watch.Has handle')
    (hdone : accounts.Open handle → watch.Has handle) :
    Inv ⟨accounts.goto i call stage, s.streamOf, s.binding, watch⟩ := by
  have hgrows : Grows s ⟨accounts.goto i call stage, s.streamOf, s.binding, watch⟩ :=
    ⟨hstill.ages.owners, List.prefix_rfl⟩
  refine ⟨hinv, h.streams.trans hstill.streams.symm, ?_, ?_, hwatch.mono hgrows.owner, ?_⟩
  · intro c hc
    exact (h.streamOf c hc).trans_le hgrows.length_le
  · intro call' hcall'
    have hmem : call' ∈ s.accounts.calls.set i { call with stage } := by
      rw [← hstill.calls]
      exact hcall'
    rcases List.mem_or_eq_of_mem_set hmem with hold | rfl
    · exact (h.calls call' hold).mono hgrows
    · refine ⟨fun c hc => ?_, fun e he => ?_, fun h' hmade => ?_⟩
      · exact ((h.calls call (List.mem_of_getElem? hcall)).opening c hc).trans_le hgrows.length_le
      · rw [show stage = .claimed e from he] at hplain
        cases hplain
      · rw [Stage.watching_of_plain hplain] at hmade
        cases hmade
  · intro h' hopen
    have hopen' : accounts.Open h' := Accounts.open_setCall.mp hopen
    rcases h.held h' (hstill.opened hopen') with
      hwatched | hbound | ⟨call', hcall', hwatching'⟩
    · exact .inl (hhas h' hwatched)
    · exact .inr (.inl hbound)
    · obtain ⟨j, hj⟩ := List.getElem?_of_mem hcall'
      by_cases hij : i = j
      · subst hij
        rw [hcall] at hj
        obtain rfl := Option.some.inj hj
        rw [hwatching] at hwatching'
        obtain rfl := Option.some.inj hwatching'
        exact .inl (hdone hopen')
      · refine .inr (.inr ⟨call', ?_, hwatching'⟩)
        show call' ∈ accounts.calls.set i _
        rw [hstill.calls]
        exact List.mem_of_getElem? ((List.getElem?_set_ne hij).trans hj)

/-- A bind, whose monitor is yet to come. -/
theorem Inv.bind (h : s.Inv) {accounts : Accounts} {maxConnections maxPendingAccepts : ℕ}
    (hstep : accountStep s.accounts (.bind maxConnections maxPendingAccepts) = some accounts) :
    Inv ⟨accounts, s.streamOf, s.accounts.endpoints.length :: s.binding, s.watch⟩ := by
  have hinv := accountStep_inv h.accounts hstep
  obtain rfl := Option.some.inj hstep
  have hages := Ages.bind (s := s.accounts) maxConnections maxPendingAccepts
  have hgrows : Grows s ⟨_, s.streamOf, s.accounts.endpoints.length :: s.binding, s.watch⟩ :=
    ⟨hages.owners, List.prefix_rfl⟩
  refine ⟨hinv, h.streams, h.streamOf, fun call hcall => (h.calls call hcall).mono hgrows,
    h.watch.mono hgrows.owner, ?_⟩
  intro handle hopen
  rcases hages.opened handle hopen with hold | hnew
  · refine (h.held handle hold).imp_right fun hpending => hpending.imp_left ?_
    rintro ⟨e, he, rfl⟩
    exact ⟨e, List.mem_cons_of_mem _ he, rfl⟩
  · obtain rfl := Option.some.inj hnew
    exact .inr (.inl ⟨_, List.mem_cons_self, rfl⟩)

end Holdings

/-- Every step keeps it. -/
theorem holdingsStep_inv {s s' : Holdings} {a : HoldingsAction} (hs : s.Inv)
    (h : holdingsStep s a = some s') : s'.Inv := by
  have haccount : ∀ {a : AccountAction}, a.isPlain = true →
      ((accountStep s.accounts a).map fun accounts =>
        { s with accounts, streamOf := s.streamOf ++ s.accounts.opens a }) = some s' → s'.Inv := by
    intro a ha hstep
    obtain ⟨accounts, haccounts, rfl⟩ := Option.map_eq_some_iff.mp hstep
    exact hs.account (accountStep_inv hs.accounts haccounts) (accountStep_move ha haccounts)
  cases a with
  | account a =>
      cases a with
      | bind m n =>
          simp only [holdingsStep] at h
          obtain ⟨accounts, haccounts, rfl⟩ := Option.map_eq_some_iff.mp h
          exact hs.bind haccounts
      | call i a =>
          cases a with
          | monitor alive => cases h
          | _ => exact haccount rfl h
      | _ => exact haccount rfl h
  | monitor i =>
      obtain ⟨call, hcall, h⟩ := Option.bind_eq_some_iff.mp h
      obtain ⟨handle, hwatching, h⟩ := Option.bind_eq_some_iff.mp h
      obtain ⟨e, hown, h⟩ := Option.bind_eq_some_iff.mp h
      split at h
      · -- the owner is dead, and the resource is closed at once
        obtain ⟨accounts, haccounts, h⟩ := Option.bind_eq_some_iff.mp h
        obtain rfl := Option.some.inj h
        have hinv := accountStep_inv hs.accounts haccounts
        simp only [accountStep, hcall] at haccounts
        obtain ⟨stage, s₁, hplain, rfl, hstill, hclosed⟩ := callStep_monitor hwatching haccounts
        exact hs.monitor hcall hwatching hplain hinv hstill hs.watch (fun _ => id)
          fun hopen => absurd hopen (hclosed rfl)
      · next halive =>
          obtain ⟨accounts, haccounts, h⟩ := Option.bind_eq_some_iff.mp h
          obtain rfl := Option.some.inj h
          have hinv := accountStep_inv hs.accounts haccounts
          simp only [accountStep, hcall] at haccounts
          obtain ⟨stage, s₁, hplain, rfl, hstill, -⟩ := callStep_monitor hwatching haccounts
          exact hs.monitor hcall hwatching hplain hinv hstill (hs.watch.add hown halive)
            (fun _ hhas => hhas.add _) fun _ => s.watch.has_add _
  | monitorEndpoint e =>
      simp only [holdingsStep] at h
      have hother : ∀ {handle : Handle}, handle ≠ .endpoint e →
          (∃ e' ∈ s.binding, handle = .endpoint e') →
          ∃ e' ∈ s.binding.filter (· ≠ e), handle = .endpoint e' := by
        rintro handle hne ⟨e', he', rfl⟩
        refine ⟨e', List.mem_filter.mpr ⟨he', decide_eq_true ?_⟩, rfl⟩
        rintro rfl
        exact hne rfl
      split at h
      · split at h
        · obtain ⟨accounts, haccounts, rfl⟩ := Option.map_eq_some_iff.mp h
          obtain ⟨hstill, hclosed⟩ := takeEndpoint_still haccounts
          refine hs.still (accountStep_inv hs.accounts haccounts) hstill hs.watch ?_
          intro handle hopen hheld
          refine hheld.imp_right (hother ?_)
          rintro rfl
          exact hclosed hopen
        · next halive =>
            obtain rfl := Option.some.inj h
            refine hs.still hs.accounts (.refl _) (hs.watch.add rfl halive) ?_
            intro handle hopen hheld
            by_cases heq : handle = .endpoint e
            · rw [heq]
              exact .inl (s.watch.has_add _)
            · exact hheld.imp (fun hhas => hhas.add _) (hother heq)
      · cases h
  | die e =>
      simp only [holdingsStep] at h
      split at h
      · cases h
      · obtain rfl := Option.some.inj h
        exact hs.still hs.accounts (.refl _) (hs.watch.die e) fun handle _ hheld =>
          hheld.imp_left fun hhas => hhas.die _ _
  | down handle =>
      simp only [holdingsStep] at h
      split at h
      · obtain ⟨accounts, haccounts, rfl⟩ := Option.map_eq_some_iff.mp h
        obtain ⟨hstill, hclosed⟩ := close_still haccounts
        refine hs.still (accountStep_inv hs.accounts haccounts) hstill (hs.watch.deliver _) ?_
        intro handle' hopen hheld
        refine hheld.imp_left fun hhas => hhas.deliver ?_
        rintro rfl
        exact hclosed hopen
      · cases h

/-! ### After the death of an owner -/

/-- A call in one of these stages has nothing under way: it is yet to find out
that the resource is closed, or is over. -/
def Stage.idle : Stage → Bool
  | .entered | .checked | .guarded | .unwinding | .ended => true
  | _ => false

theorem Stage.watching_of_idle {stage : Stage} (h : stage.idle = true) :
    stage.watching = none := by
  cases stage <;> first | rfl | cases h

/-- On a resource that is closed a call stays idle. -/
theorem callStep_idle {s s' : Accounts} {i : ℕ} {call : Call} {a : CallAction} {h : Handle}
    (hidle : call.stage.idle = true) (hnif : call.nif.handle = some h) (hclosed : ¬ s.Open h)
    (hstep : callStep s i call a = some s') :
    ∃ call', s'.calls = s.calls.set i call' ∧ call'.stage.idle = true := by
  have hgoto : ∀ {stage : Stage}, stage.idle = true → some (s.goto i call stage) = some s' →
      ∃ call', s'.calls = s.calls.set i call' ∧ call'.stage.idle = true := by
    intro stage hstage hs
    obtain rfl := Option.some.inj hs
    exact ⟨_, rfl, hstage⟩
  cases a with
  | fail =>
      simp only [callStep] at hstep
      split at hstep
      · exact hgoto rfl hstep
      · exact hgoto rfl hstep
      · cases hstep
  | check =>
      simp only [callStep] at hstep
      split at hstep
      · next e _ hconnect =>
          rw [hconnect] at hnif
          obtain rfl := Option.some.inj hnif
          rw [if_neg (c := s.endpointOpen e = true) hclosed] at hstep
          exact hgoto rfl hstep
      · exact hgoto rfl hstep
      · next c _ hopen =>
          rw [hopen] at hnif
          obtain rfl := Option.some.inj hnif
          rw [if_neg (c := s.connectionOpen c = true) hclosed] at hstep
          exact hgoto rfl hstep
      · next hsend =>
          rw [hsend] at hnif
          cases hnif
      · next hsend =>
          rw [hsend] at hnif
          cases hnif
      · next hrecv =>
          rw [hrecv] at hnif
          cases hnif
      · next e _ haccept =>
          rw [haccept] at hnif
          obtain rfl := Option.some.inj hnif
          rw [if_neg (c := s.endpointOpen e = true) hclosed] at hstep
          exact hgoto rfl hstep
      · cases hstep
  | take =>
      simp only [callStep] at hstep
      split at hstep
      · next e _ _ =>
          unfold Accounts.takePermit at hstep
          split at hstep
          · next s₁ hbegin =>
              obtain rfl := Option.some.inj hstep
              refine ⟨{ call with permit := some (.accept e), stage := .guarded }, ?_, rfl⟩
              rw [Accounts.setCall, (beginPermit_still hbegin).calls]
          · exact hgoto rfl hstep
      · next hsend =>
          rw [hsend] at hnif
          cases hnif
      · next hrecv =>
          rw [hrecv] at hnif
          cases hnif
      · cases hstep
  | dropPermit =>
      simp only [callStep] at hstep
      split at hstep
      · obtain ⟨s₁, hfinish, rfl⟩ := Option.map_eq_some_iff.mp hstep
        refine ⟨{ call with permit := none }, ?_, hidle⟩
        rw [Accounts.setCall, (finishPermit_still hfinish).calls]
      · cases hstep
  | dropQueued =>
      simp only [callStep] at hstep
      split at hstep
      · obtain rfl := Option.some.inj hstep
        exact ⟨{ call with queued := none }, rfl, hidle⟩
      · cases hstep
  | exit =>
      simp only [callStep] at hstep
      split at hstep
      · exact hgoto rfl hstep
      · cases hstep
  | _ =>
      -- the other steps are of stages that are not idle
      simp only [callStep] at hstep
      split at hstep
      all_goals first
        | cases hstep; done
        | next hstage => rw [hstage] at hidle; cases hidle
        | next hstage _ => rw [hstage] at hidle; cases hidle

namespace Holdings

variable {s s' : Holdings} {e : ℕ}

/-- Every resource that is open has an owner. -/
theorem Inv.owner_of_open (hs : s.Inv) {h : Handle} (hopen : s.accounts.Open h) :
    ∃ e, s.owner h = some e := by
  cases h with
  | endpoint e => exact ⟨e, rfl⟩
  | connection c =>
      obtain ⟨cell, hcell, -⟩ := Accounts.open_connection.mp hopen
      exact ⟨cell.endpoint, Option.map_eq_some_iff.mpr ⟨cell, hcell, rfl⟩⟩
  | stream t =>
      have ht : t < s.streamOf.length := by
        rw [hs.streams]
        exact (List.getElem?_eq_some_iff.mp hopen).1
      have hc := hs.streamOf _ (List.getElem_mem ht)
      refine ⟨s.accounts.connections[s.streamOf[t]].endpoint, ?_⟩
      exact Option.bind_eq_some_iff.mpr ⟨_, List.getElem?_eq_getElem ht,
        Option.map_eq_some_iff.mpr ⟨_, List.getElem?_eq_getElem hc, rfl⟩⟩

/-- Nothing is left of what the owner had, and nothing is on its way. -/
structure Over (s : Holdings) (e : ℕ) : Prop where
  dead : e ∈ s.watch.dead
  bound : e < s.accounts.endpoints.length ∧ e ∉ s.binding
  closed : ∀ h, s.owner h = some e → ¬ s.accounts.Open h
  idle : ∀ call ∈ s.accounts.calls, ∀ source, call.nif.handle = some source →
    s.owner source = some e → call.stage.idle = true

/-- A resource that a call is to make another one from is there. -/
theorem CallInv.source {call : Call} (h : s.CallInv call) {source : Handle}
    (hsource : call.nif.handle = some source) : ∃ e, s.owner source = some e := by
  cases hnif : call.nif with
  | connectionConnect e =>
      rw [hnif] at hsource
      obtain rfl := Option.some.inj hsource
      exact ⟨e, rfl⟩
  | connectionAccept e =>
      rw [hnif] at hsource
      obtain rfl := Option.some.inj hsource
      exact ⟨e, rfl⟩
  | streamOpen c =>
      rw [hnif] at hsource
      obtain rfl := Option.some.inj hsource
      have hc := h.opening c hnif
      exact ⟨_, Option.map_eq_some_iff.mpr ⟨_, List.getElem?_eq_getElem hc, rfl⟩⟩
  | streamSend _ => rw [hnif] at hsource; cases hsource
  | datagramSend _ _ => rw [hnif] at hsource; cases hsource
  | datagramRecv _ => rw [hnif] at hsource; cases hsource

theorem owner_eq_of_grows (hgrows : Grows s s') {h : Handle} (hknown : ∃ e, s.owner h = some e)
    (hown : s'.owner h = some e) : s.owner h = some e := by
  obtain ⟨e', he'⟩ := hknown
  rw [he', ← hown, ← hgrows.owner h e' he']

/-- What is left to do for `Over` after a step: nothing has been made but by
calls, and the calls are the same or idle. -/
theorem Over.step (h : s.Over e) (hs : s.Inv) (hs' : s'.Inv) (hgrows : Grows s s')
    (hdead : s.watch.dead ⊆ s'.watch.dead)
    (hbound : s.accounts.endpoints.length ≤ s'.accounts.endpoints.length ∧ e ∉ s'.binding)
    (hopened : ∀ handle, s'.accounts.Open handle → s.accounts.Open handle ∨
      (∃ e' ∈ s'.binding, handle = .endpoint e') ∨
        ∃ call ∈ s'.accounts.calls, call.stage.watching = some handle)
    (hcalls : ∀ call ∈ s'.accounts.calls, call ∈ s.accounts.calls ∨ call.stage.idle = true ∨
      ∀ source, call.nif.handle = some source → s'.owner source ≠ some e) : s'.Over e := by
  have hidle : ∀ call ∈ s'.accounts.calls, ∀ source, call.nif.handle = some source →
      s'.owner source = some e → call.stage.idle = true := by
    intro call hcall source hsource hown
    rcases hcalls call hcall with hold | hidle | hother
    · exact h.idle call hold source hsource
        (owner_eq_of_grows hgrows ((hs.calls call hold).source hsource) hown)
    · exact hidle
    · exact absurd hown (hother source hsource)
  refine ⟨hdead h.dead, ⟨h.bound.1.trans_le hbound.1, hbound.2⟩, ?_, hidle⟩
  intro handle hown hopen
  rcases hopened handle hopen with hold | ⟨e', he', rfl⟩ | ⟨call, hcall, hwatching⟩
  · exact h.closed handle (owner_eq_of_grows hgrows (hs.owner_of_open hold) hown) hold
  · obtain rfl : e' = e := Option.some.inj hown
    exact hbound.2 he'
  · -- what a call has made is of the owner of what it was made from
    obtain ⟨e', source, hown', hsource, hsource'⟩ := (hs'.calls call hcall).made handle hwatching
    rw [hown] at hown'
    obtain rfl := Option.some.inj hown'
    rw [Stage.watching_of_idle (hidle call hcall source hsource hsource')] at hwatching
    cases hwatching

/-- A step that makes nothing. -/
theorem Over.still (h : s.Over e) (hs : s.Inv) {accounts : Accounts} {binding : List ℕ}
    {watch : Watch Handle ℕ} (hs' : Inv ⟨accounts, s.streamOf, binding, watch⟩)
    (hstill : Still s.accounts accounts) (hdead : s.watch.dead ⊆ watch.dead)
    (hbound : e ∉ binding) : Over ⟨accounts, s.streamOf, binding, watch⟩ e :=
  h.step hs hs' ⟨hstill.ages.owners, List.prefix_rfl⟩ hdead ⟨hstill.ages.bound, hbound⟩
    (fun _ hopen => .inl (hstill.opened hopen))
    fun _ hcall => .inl (hstill.calls ▸ hcall)

/-- A call that is at its monitor is not one of an owner that is over. -/
theorem Over.other (h : s.Over e) (hs : s.Inv) {call : Call} (hcall : call ∈ s.accounts.calls)
    (hgrows : Grows s s') {handle : Handle} (hwatching : call.stage.watching = some handle)
    {source : Handle} (hsource : call.nif.handle = some source) : s'.owner source ≠ some e := by
  intro hown
  have hidle := h.idle call hcall source hsource
    (owner_eq_of_grows hgrows ((hs.calls call hcall).source hsource) hown)
  rw [Stage.watching_of_idle hidle] at hwatching
  cases hwatching

/-- A step of the resources and the calls. -/
theorem Over.account (h : s.Over e) (hs : s.Inv) {accounts : Accounts} {a : AccountAction}
    (hs' : Inv ⟨accounts, s.streamOf ++ s.accounts.opens a, s.binding, s.watch⟩)
    (hmove : AccountMove s.accounts accounts a) :
    Over ⟨accounts, s.streamOf ++ s.accounts.opens a, s.binding, s.watch⟩ e := by
  have hgrows : Grows s ⟨accounts, s.streamOf ++ s.accounts.opens a, s.binding, s.watch⟩ :=
    ⟨hmove.owners, List.prefix_append _ _⟩
  refine h.step hs hs' hgrows (Finset.Subset.refl _) ⟨hmove.bound, h.bound.2⟩
    (fun handle hopen => (hmove.opened hopen).imp_right .inr) ?_
  intro call hcall
  cases hmove with
  | @call i call₀ action call' ha hcall₀ hstep hmoves =>
      have hmem : call ∈ s.accounts.calls.set i call' := hmoves.calls ▸ hcall
      rcases List.mem_or_eq_of_mem_set hmem with hold | rfl
      · exact .inl hold
      · right
        by_contra hnot
        rw [not_or, not_forall] at hnot
        obtain ⟨hbusy, source, hnot⟩ := hnot
        rw [Classical.not_imp, not_not] at hnot
        obtain ⟨hsource, hown⟩ := hnot
        rw [hmoves.nif] at hsource
        -- its source was closed before, so the step has left it idle
        have hmem₀ := List.mem_of_getElem? hcall₀
        have hown₀ := owner_eq_of_grows hgrows ((hs.calls call₀ hmem₀).source hsource) hown
        obtain ⟨call₁, hcalls₁, hidle⟩ := callStep_idle (h.idle call₀ hmem₀ source hsource hown₀)
          hsource (h.closed source hown₀) hstep
        have hlt := (List.getElem?_eq_some_iff.mp hcall₀).1
        have heq : some call = some call₁ := by
          rw [← List.getElem?_set_self hlt, ← hmoves.calls, hcalls₁, List.getElem?_set_self hlt]
        exact hbusy (Option.some.inj heq ▸ hidle)
  | @start nif _ _ haccounts =>
      have hmem : call ∈ s.accounts.calls ++ [.start nif] := by
        rw [haccounts] at hcall
        exact hcall
      rcases List.mem_append.mp hmem with hold | hnew
      · exact .inl hold
      · obtain rfl := List.mem_singleton.mp hnew
        exact .inr (.inl rfl)
  | still _ hstill => exact .inl (hstill.calls ▸ hcall)

end Holdings

/-- **What is over stays so.** -/
theorem holdingsStep_over {s s' : Holdings} {a : HoldingsAction} {e : ℕ} (hs : s.Inv) (h : s.Over e)
    (hstep : holdingsStep s a = some s') : s'.Over e := by
  have hs' := holdingsStep_inv hs hstep
  have haccount : ∀ {a : AccountAction}, a.isPlain = true →
      ((accountStep s.accounts a).map fun accounts =>
        { s with accounts, streamOf := s.streamOf ++ s.accounts.opens a }) = some s' →
      s'.Over e := by
    intro a ha hstep
    obtain ⟨accounts, haccounts, rfl⟩ := Option.map_eq_some_iff.mp hstep
    exact h.account hs hs' (accountStep_move ha haccounts)
  cases a with
  | account a =>
      cases a with
      | bind m n =>
          simp only [holdingsStep] at hstep
          obtain ⟨accounts, haccounts, rfl⟩ := Option.map_eq_some_iff.mp hstep
          obtain rfl := Option.some.inj haccounts
          have hages := Ages.bind (s := s.accounts) m n
          refine h.step hs hs' ⟨hages.owners, List.prefix_rfl⟩ (Finset.Subset.refl _)
            ⟨hages.bound, ?_⟩ (fun handle hopen => (hages.opened handle hopen).imp_right ?_)
            fun _ => .inl
          · rw [List.mem_cons, not_or]
            exact ⟨Nat.ne_of_lt h.bound.1, h.bound.2⟩
          · intro hnew
            exact .inl ⟨_, List.mem_cons_self, (Option.some.inj hnew).symm⟩
      | call i a =>
          cases a with
          | monitor alive => cases hstep
          | _ => exact haccount rfl hstep
      | _ => exact haccount rfl hstep
  | monitor i =>
      obtain ⟨call, hcall, hstep⟩ := Option.bind_eq_some_iff.mp hstep
      obtain ⟨handle, hwatching, hstep⟩ := Option.bind_eq_some_iff.mp hstep
      obtain ⟨e', -, hstep⟩ := Option.bind_eq_some_iff.mp hstep
      have hdone : ∀ {accounts : Accounts} {watch : Watch Handle ℕ} {alive : Bool},
          accountStep s.accounts (.call i (.monitor alive)) = some accounts →
          Holdings.Inv ⟨accounts, s.streamOf, s.binding, watch⟩ → s.watch.dead ⊆ watch.dead →
          Holdings.Over ⟨accounts, s.streamOf, s.binding, watch⟩ e := by
        intro accounts watch alive haccounts hinv hdead
        simp only [accountStep, hcall] at haccounts
        obtain ⟨stage, s₁, hplain, rfl, hstill, -⟩ := callStep_monitor hwatching haccounts
        have hgrows : Holdings.Grows s ⟨s₁.goto i call stage, s.streamOf, s.binding, watch⟩ :=
          ⟨hstill.ages.owners, List.prefix_rfl⟩
        refine h.step hs hinv hgrows hdead ⟨hstill.ages.bound, h.bound.2⟩ ?_ ?_
        · intro handle' hopen
          exact .inl (hstill.opened (Accounts.open_setCall.mp hopen))
        · intro call' hcall'
          have hmem : call' ∈ s.accounts.calls.set i { call with stage } := by
            rw [← hstill.calls]
            exact hcall'
          rcases List.mem_or_eq_of_mem_set hmem with hold | rfl
          · exact .inl hold
          · exact .inr (.inr fun source hsource =>
              h.other hs (List.mem_of_getElem? hcall) hgrows hwatching hsource)
      split at hstep
      · obtain ⟨accounts, haccounts, hstep⟩ := Option.bind_eq_some_iff.mp hstep
        obtain rfl := Option.some.inj hstep
        exact hdone haccounts hs' (Finset.Subset.refl _)
      · obtain ⟨accounts, haccounts, hstep⟩ := Option.bind_eq_some_iff.mp hstep
        obtain rfl := Option.some.inj hstep
        exact hdone haccounts hs' (Finset.Subset.refl _)
  | monitorEndpoint e' =>
      simp only [holdingsStep] at hstep
      have hbound : e ∉ s.binding.filter (· ≠ e') := fun hmem =>
        h.bound.2 (List.mem_of_mem_filter hmem)
      split at hstep
      · split at hstep
        · obtain ⟨accounts, haccounts, rfl⟩ := Option.map_eq_some_iff.mp hstep
          exact h.still hs hs' (takeEndpoint_still haccounts).1 (Finset.Subset.refl _) hbound
        · obtain rfl := Option.some.inj hstep
          exact h.still hs hs' (.refl _) (Finset.Subset.refl _) hbound
      · cases hstep
  | die e' =>
      simp only [holdingsStep] at hstep
      split at hstep
      · cases hstep
      · obtain rfl := Option.some.inj hstep
        exact h.still hs hs' (.refl _) (Finset.subset_insert _ _) h.bound.2
  | down handle =>
      simp only [holdingsStep] at hstep
      split at hstep
      · obtain ⟨accounts, haccounts, rfl⟩ := Option.map_eq_some_iff.mp hstep
        exact h.still hs hs' (close_still haccounts).1 (Finset.Subset.refl _) h.bound.2
      · cases hstep

/-! ### The two results -/

/-- Whatever is open is looked after. -/
structure Holdings.Guarded (s : Holdings) : Prop where
  /-- It has an owner, and its monitor is up or is yet to be put up; with the owner
  dead, its message is under way or its monitor will be refused. -/
  held : ∀ h, s.accounts.Open h → ∃ e, s.owner h = some e ∧
    (e ∉ s.watch.dead → h ∈ s.watch.live ∨ s.Pending h) ∧
    (e ∈ s.watch.dead → h ∈ s.watch.fired ∨ s.Pending h)
  /-- Nothing is given out whose owner is dead. -/
  live : ∀ h ∈ s.watch.live, ∃ e, s.owner h = some e ∧ e ∉ s.watch.dead
  /-- Nothing is closed for the death of another. -/
  fired : ∀ h ∈ s.watch.fired, ∃ e, s.owner h = some e ∧ e ∈ s.watch.dead

/-- The owner is dead, its endpoint has been bound, all messages about it have
arrived, and the calls on what it had have ended. -/
structure Holdings.Settled (s : Holdings) (e : ℕ) : Prop where
  dead : e ∈ s.watch.dead
  bound : e < s.accounts.endpoints.length ∧ e ∉ s.binding
  delivered : ∀ h ∈ s.watch.fired, s.owner h ≠ some e
  ended : ∀ call ∈ s.accounts.calls, ∀ source, call.nif.handle = some source →
    s.owner source = some e → call.stage = .ended

namespace Holdings

variable {s : Holdings} {e : ℕ}

theorem Inv.guarded (hs : s.Inv) : s.Guarded where
  held h hopen := by
    obtain ⟨e, hown⟩ := hs.owner_of_open hopen
    refine ⟨e, hown, fun halive => ?_, fun hdead => ?_⟩
    · rcases hs.held h hopen with (hlive | hfired) | hpending
      · exact .inl hlive
      · obtain ⟨e', hown', hdead⟩ := hs.watch.fired h hfired
        rw [hown] at hown'
        obtain rfl := Option.some.inj hown'
        exact absurd hdead halive
      · exact .inr hpending
    · rcases hs.held h hopen with (hlive | hfired) | hpending
      · exact absurd hown (hs.watch.live_ne hdead hlive)
      · exact .inl hfired
      · exact .inr hpending
  live := hs.watch.live
  fired := hs.watch.fired

/-- When all is settled there is nothing left. -/
theorem Settled.over (h : s.Settled e) (hs : s.Inv) : s.Over e where
  dead := h.dead
  bound := h.bound
  closed handle hown hopen := by
    rcases hs.held handle hopen with (hlive | hfired) | ⟨e', he', rfl⟩ | ⟨call, hcall, hwatching⟩
    · exact hs.watch.live_ne h.dead hlive hown
    · exact h.delivered handle hfired hown
    · obtain rfl : e' = e := Option.some.inj hown
      exact h.bound.2 he'
    · obtain ⟨e', source, hown', hsource, hsource'⟩ := (hs.calls call hcall).made handle hwatching
      rw [hown] at hown'
      obtain rfl := Option.some.inj hown'
      rw [h.ended call hcall source hsource hsource'] at hwatching
      cases hwatching
  idle call hcall source hsource hown := by
    rw [h.ended call hcall source hsource hown]
    rfl

/-- No slot of the endpoint is taken, once the closes have gone as far as that. -/
theorem Over.slots_free (h : s.Over e) (hs : s.Inv) {cell : EndpointCell}
    (hcell : s.accounts.endpoints[e]? = some cell)
    (hcloses : ∀ conn ∈ s.accounts.connections, conn.endpoint = e → conn.phase ≠ .swapped) :
    cell.activeConnections = 0 := by
  rw [← Accounts.slots_of_get hcell, ← hs.accounts.slots_count e, Nat.add_eq_zero_iff,
    List.countP_eq_zero, List.countP_eq_zero]
  constructor
  · intro call hcall hclaims
    have hstage : call.stage = .claimed e := beq_iff_eq.mp hclaims
    have hidle := h.idle call hcall _ ((hs.calls call hcall).claimed e hstage).handle rfl
    rw [hstage] at hidle
    cases hidle
  · intro conn hconn hclaims
    obtain ⟨c, hc⟩ := List.getElem?_of_mem hconn
    simp only [ConnectionCell.claims, Bool.and_eq_true, Bool.or_eq_true, beq_iff_eq] at hclaims
    obtain ⟨hendpoint, hunreleased | hswapped⟩ := hclaims
    · refine h.closed (.connection c) ?_ (Accounts.open_connection.mpr ⟨conn, hc, hunreleased⟩)
      exact Option.map_eq_some_iff.mpr ⟨conn, hc, hendpoint⟩
    · exact hcloses conn hconn hendpoint hswapped

end Holdings

/-- **An owner that dies leaves nothing**: in every run whatever is open is looked
after; and once the messages about a dead owner have arrived and the calls on
what it had have ended, nothing of it is open, nothing of it opens again in any
run from there, and no connection slot of it is taken. -/
theorem owner_leaves_nothing {as : List HoldingsAction} {s : Holdings}
    (h : run holdingsStep .start as = some s) :
    s.Guarded ∧ ∀ e, s.Settled e → ∀ bs t, run holdingsStep s bs = some t →
      (∀ handle, t.owner handle = some e → ¬ t.accounts.Open handle) ∧
        ∀ cell, t.accounts.endpoints[e]? = some cell →
          (∀ conn ∈ t.accounts.connections, conn.endpoint = e → conn.phase ≠ .swapped) →
          cell.activeConnections = 0 := by
  have hs : s.Inv := run_invariant (fun _ _ _ => holdingsStep_inv) h Holdings.start_inv
  refine ⟨hs.guarded, fun e hsettled bs t ht => ?_⟩
  have hstep : ∀ (s : Holdings) (a : HoldingsAction) (s' : Holdings), s.Inv ∧ s.Over e →
      holdingsStep s a = some s' → s'.Inv ∧ s'.Over e := fun _ _ _ hs hstep =>
    ⟨holdingsStep_inv hs.1 hstep, holdingsStep_over hs.1 hs.2 hstep⟩
  obtain ⟨htinv, hover⟩ := run_invariant hstep ht ⟨hs, hsettled.over hs⟩
  exact ⟨hover.closed, fun cell hcell => hover.slots_free htinv hcell⟩

/-- A connection is made; a second one is on its way when the owner dies. -/
def ownerDies : List HoldingsAction :=
  [.account (.bind 2 1), .monitorEndpoint 0,
    .account (.start (.connectionConnect 0)), .account (.call 0 .check),
    .account (.call 0 (.spawn true)), .account (.call 0 .wrap), .account (.call 0 .count),
    .monitor 0, .account (.call 0 .exit),
    .account (.start (.connectionConnect 0)), .account (.call 1 .check),
    .account (.call 1 (.spawn true)), .account (.call 1 .wrap), .account (.call 1 .count),
    .die 0]

/-- The second connection is closed by its call, the rest by the messages. -/
def ownerCleanup : List HoldingsAction :=
  [.monitor 1, .account (.releaseConnection 1), .account (.uncountConnection 1),
    .account (.call 1 .leave), .account (.call 1 .exit),
    .down (.connection 0), .down (.endpoint 0), .account (.releaseConnection 0)]

theorem owner_leaves_nothing_sample :
    ∃ s, run holdingsStep .start (ownerDies ++ ownerCleanup) = some s ∧
      s.accounts.connections.length = 2 ∧ ¬ s.accounts.Open (.endpoint 0) ∧
      ¬ s.accounts.Open (.connection 0) ∧ ¬ s.accounts.Open (.connection 1) := by
  obtain ⟨s, hrun, hsettled, hlength, howners⟩ :
      ∃ s, run holdingsStep .start (ownerDies ++ ownerCleanup) = some s ∧ s.Settled 0 ∧
        s.accounts.connections.length = 2 ∧ ∀ c < 2, s.owner (.connection c) = some 0 :=
    ⟨_, rfl, ⟨by decide, by decide, by decide, by decide⟩, rfl, by decide⟩
  obtain ⟨hclosed, -⟩ := (owner_leaves_nothing hrun).2 0 hsettled [] s rfl
  exact ⟨s, hrun, hlength, hclosed _ rfl, hclosed _ (howners 0 (by decide)),
    hclosed _ (howners 1 (by decide))⟩

end IrohBeam
