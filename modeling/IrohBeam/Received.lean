/-
IrohBeam/Received.lean

The counters of what a link has received.  The input process hands the packets
of one read to `dist_ctrl_put_data/2` and then reports the batch to the server
with one `update_link` cast; the server adds a report to an entry it has and
drops it where it has none.

`start_controller/6` tells the input process to start before it registers the
link, and the two processes have a channel each, so a report can be taken up
before the registration.  The account of a run is

    taken up + on its way + in the current batch + lost = handed over

where an input process loses what it has handed over of a batch if it ends in the
middle of it (`account_step`); the entry has what was taken up since the
registration, which is all of it if nothing came too early (`early_step`).  An input
process that loses packets makes the controller remove the link, unless the
controller has given up its registration (`lossSeen_step`).  `received_complete` puts
these together.
-/
import IrohBeam.LinkSystem
import Mathlib.Algebra.BigOperators.Group.List.Basic
import Mathlib.Algebra.Group.Prod

namespace IrohBeam

open Transition Bytes

/-! ### Bytes and frames -/

/-- Size and number of some packets. -/
def measure (packets : List (List Binary)) : ℕ × ℕ := (totalSize packets, packets.length)

/-- The bytes and frames that messages report as received on this link. -/
def LinkNames.counted (p : LinkNames) (ms : List Message) : ℕ × ℕ :=
  (ms.map (Message.counts p.node p.owner .received)).sum

theorem measure_append (packets packets' : List (List Binary)) :
    measure (packets ++ packets') = measure packets + measure packets' := by
  simp [measure, totalSize]

theorem counted_append (p : LinkNames) (ms ms' : List Message) :
    p.counted (ms ++ ms') = p.counted ms + p.counted ms' := by
  rw [LinkNames.counted, List.map_append, List.sum_append]
  rfl

theorem counted_cons (p : LinkNames) (m : Message) (ms : List Message) :
    p.counted (m :: ms) = m.counts p.node p.owner .received + p.counted ms := rfl

theorem counted_singleton (p : LinkNames) (m : Message) :
    p.counted [m] = m.counts p.node p.owner .received := add_zero _

/-- A report counts its batch. -/
theorem report_counts (p : LinkNames) (batch : List (List Binary)) :
    (p.report batch).counts p.node p.owner .received = measure batch :=
  if_pos ⟨rfl, rfl, rfl⟩

/-- The counters of an entry are the two parts of `counted`. -/
theorem counted_eq (p : LinkNames) (ms : List Message) :
    p.counted ms =
      (bytesCounted p.node p.owner .received ms, framesCounted p.node p.owner .received ms) := by
  induction ms with
  | nil => rfl
  | cons m ms ih =>
      rw [counted_cons, ih]
      rfl

/-- What speaks for another process reports nothing of this link. -/
theorem counts_of_owner {p : LinkNames} {m : Message} (h : m.owner ≠ some p.owner) :
    m.counts p.node p.owner .received = (0, 0) := by
  cases m with
  | updateLink node owner direction bytes frames =>
      exact if_neg fun hall => h (congrArg some hall.2.1)
  | _ => rfl

/-! ### The property and the condition -/

/-- All messages have been processed: both channels to the server are empty, the
input process is not between a `dist_ctrl_put_data/2` and the report of its batch,
and the controller has nothing to receive or has ended. -/
def LinkRun.AtRest (s : LinkRun) : Prop :=
  s.fromControl = [] ∧ s.fromInput = [] ∧ s.input.pending = [] ∧
    (s.stage = .waiting ∧ s.mailbox = [] ∧ s.exitSignal = false ∨ s.stage.over = true)

/-- While the link is registered, its counters are the total of the packets the
input process has handed over. -/
def LinkRun.Complete (p : LinkNames) (server : Server) (s : LinkRun) : Prop :=
  s.AtRest → ∀ link, (s.links server).lookup p.node = some link → link.owner = p.owner →
    link.bytesReceived = totalSize s.handed ∧ link.framesReceived = s.handed.length

/-- The next report the server takes up has no packet, or the registration has been
taken up before it. -/
def LinkRun.NextInOrder (p : LinkNames) (s : LinkRun) : Prop :=
  ∀ m ∈ s.fromInput.head?, (m.counts p.node p.owner .received).2 ≠ 0 →
    .register p.node ∈ s.processed p

/-- The condition on a step: no report of a packet is taken up before the
registration, and a controller does not give up its registration with an input
process that has ended between a `dist_ctrl_put_data/2` and the report of its
batch, nor does the input process end there after it. -/
def CompleteStep (p : LinkNames) (s : LinkRun) : LinkAction → Prop
  | .serveInput => s.NextInOrder p
  | .input .fail => s.input.pending ≠ [] → s.stage ≠ .ended .register
  | .control .failed => s.stage = .registering → s.lost = []
  | _ => True

/-- The condition under which nothing is missing in any state, at rest or not: the
input process does not end in the middle of a batch unless the removal of the link
has been taken up. -/
def CountedStep (p : LinkNames) (s : LinkRun) : LinkAction → Prop
  | .serveInput => s.NextInOrder p
  | .input .fail => s.input.pending ≠ [] → .unregister p.node ∈ s.processed p
  | _ => True

/-! ### Nothing is taken up too early -/

/-- What the server took up before the registration reports nothing of this link. -/
def LinkRun.NothingEarly (p : LinkNames) (s : LinkRun) : Prop :=
  ∀ before, before <+: s.history →
    (∀ m ∈ before, m.linkCall p.owner ≠ some (.register p.node)) → p.counted before = 0

theorem start_early (p : LinkNames) : LinkRun.start.NothingEarly p := by
  intro before hprefix _
  rw [List.prefix_nil.mp hprefix]
  rfl

/-- The server takes up a message that reports nothing, or one behind the
registration. -/
theorem serve_early {p : LinkNames} {s : LinkRun} {m : Message} (hs : s.NothingEarly p)
    (hm : m.counts p.node p.owner .received = (0, 0) ∨ .register p.node ∈ s.processed p) :
    (s.serve p m).NothingEarly p := by
  intro before hprefix hnone
  rcases List.prefix_concat_iff.mp hprefix with rfl | hprefix
  · have hold : p.counted s.history = 0 :=
      hs _ List.prefix_rfl fun m' hm' => hnone m' (List.mem_append_left _ hm')
    rcases hm with hzero | hregistered
    · rw [counted_append, counted_singleton, hold, hzero]
      rfl
    · -- the registration would be in the history
      obtain ⟨m', hm', hcall⟩ := List.mem_filterMap.mp hregistered
      exact absurd hcall (hnone m' (List.mem_append_left _ hm'))
  · exact hs before hprefix hnone

/-- **The step lemma**: a report that comes in order is not too early. -/
theorem early_step {p : LinkNames} {s s' : LinkRun} {a : LinkAction} (hinv : s.Inv p)
    (hs : s.NothingEarly p) (hnext : a = .serveInput → s.NextInOrder p)
    (h : linkRunStep p s a = some s') : s'.NothingEarly p := by
  cases linkRunStep_move h with
  | control hstep =>
      rw [LinkRun.NothingEarly, (controlStep_change hstep).history]
      exact hs
  | input hmove =>
      obtain ⟨-, -, -, -, hhistory, -⟩ := hmove.frame
      rw [LinkRun.NothingEarly, hhistory]
      exact hs
  | post _ _ => exact hs
  | exitSignal _ => exact hs
  | @serveControl m rest hbox =>
      exact serve_early hs (.inl (hinv.control m (by rw [hbox]; exact List.mem_cons_self)))
  | @serveInput m rest hbox =>
      obtain ⟨batch, rfl⟩ := hinv.reports m (by rw [hbox]; exact List.mem_cons_self)
      refine serve_early hs ?_
      rw [report_counts]
      by_cases hbatch : batch = []
      · rw [hbatch]
        exact .inl rfl
      · have hframes : ((p.report batch).counts p.node p.owner .received).2 ≠ 0 := by
          rw [report_counts]
          exact fun hlen => hbatch (List.length_eq_zero_iff.mp hlen)
        exact .inr (hnext rfl _ (by rw [hbox]; rfl) hframes)
  | serveOther howner => exact serve_early hs (.inl (counts_of_owner howner))

/-! ### The account -/

/-- What has been handed over has been taken up, is on its way, belongs to the batch
the input process is in, or is lost. -/
def LinkRun.Account (p : LinkNames) (s : LinkRun) : Prop :=
  p.counted s.history + p.counted s.fromInput + measure s.input.pending + measure s.lost =
    measure s.handed

theorem start_account (p : LinkNames) : LinkRun.start.Account p := rfl

/-- A step that leaves what the account is about. -/
theorem LinkRun.Account.congr {p : LinkNames} {s s' : LinkRun} (hs : s.Account p)
    (hhistory : s'.history = s.history) (hreports : s'.fromInput = s.fromInput)
    (hhanded : s'.handed = s.handed) (hpending : s'.input.pending = s.input.pending)
    (hlost : s'.lost = s.lost) : s'.Account p := by
  rw [LinkRun.Account, hhistory, hreports, hhanded, hpending, hlost]
  exact hs

/-- A message that reports nothing of this link leaves the account as it is. -/
theorem LinkRun.Account.serve {p : LinkNames} {s : LinkRun} {m : Message} (hs : s.Account p)
    (hzero : m.counts p.node p.owner .received = (0, 0)) : (s.serve p m).Account p := by
  show p.counted (s.history ++ [m]) + p.counted s.fromInput + _ + _ = _
  rw [counted_append, counted_singleton, hzero]
  exact hs

/-- The end of the input process loses the packets of its batch. -/
theorem LinkRun.Account.endInput {p : LinkNames} {s : LinkRun} (hs : s.Account p) :
    s.endInput.Account p := by
  show p.counted s.history + p.counted s.fromInput + 0 + measure (s.lost ++ s.input.pending) = _
  rw [measure_append, add_zero, add_comm (measure s.lost), ← add_assoc]
  exact hs

/-- The input process takes a step. -/
theorem input_account {p : LinkNames} {s s' : LinkRun} {a : InputAction} (hs : s.Account p)
    (h : InputMove p s a s') : s'.Account p := by
  cases h with
  | begin hinput _ => exact hs.congr rfl rfl rfl (by rw [hinput]; rfl) rfl
  | recv hinput _ => exact hs.congr rfl rfl rfl (by rw [hinput]; rfl) rfl
  | refuse _ _ => exact hs.endInput
  | @put parser done packet todo hinput =>
      rw [LinkRun.Account, hinput] at hs
      show p.counted s.history + p.counted s.fromInput + measure (done ++ [packet]) +
        measure s.lost = measure (s.handed ++ [packet])
      rw [measure_append, measure_append, ← hs, ← add_assoc]
      exact add_right_comm ..
  | @report parser done hinput =>
      rw [LinkRun.Account, hinput] at hs
      show p.counted s.history + p.counted (s.fromInput ++ [p.report done]) + 0 +
        measure s.lost = measure s.handed
      rw [counted_append, counted_singleton, report_counts, add_zero, ← add_assoc]
      exact hs
  | fail _ _ => exact hs.endInput

/-- **The step lemma**: every step keeps the account. -/
theorem account_step {p : LinkNames} {s s' : LinkRun} {a : LinkAction} (hinv : s.Inv p)
    (hs : s.Account p) (h : linkRunStep p s a = some s') : s'.Account p := by
  cases linkRunStep_move h with
  | control hstep =>
      have hchange := controlStep_change hstep
      refine hs.congr hchange.history hchange.fromInput hchange.handed ?_ hchange.lost
      rcases hchange.input with ⟨hholds, hinput⟩ | hinput
      · rw [hinput, hinv.input hholds]
        rfl
      · rw [hinput]
  | input hmove => exact input_account hs hmove
  | post _ _ => exact hs.congr rfl rfl rfl rfl rfl
  | exitSignal _ => exact hs.congr rfl rfl rfl rfl rfl
  | @serveControl m rest hbox =>
      have hzero := hinv.control m (by rw [hbox]; exact List.mem_cons_self)
      exact LinkRun.Account.serve (hs.congr rfl rfl rfl rfl rfl) hzero
  | @serveInput m rest hbox =>
      -- the report leaves the channel
      rw [LinkRun.Account, hbox, counted_cons] at hs
      show p.counted (s.history ++ [m]) + p.counted rest + _ + _ = _
      rw [counted_append, counted_singleton, add_assoc (p.counted s.history)]
      exact hs
  | serveOther howner => exact hs.serve (counts_of_owner howner)

/-- What the server has taken up stays taken up. -/
theorem processed_step {p : LinkNames} {s s' : LinkRun} {a : LinkAction} {c : LinkCall}
    (h : linkRunStep p s a = some s') (hc : c ∈ s.processed p) : c ∈ s'.processed p := by
  have hserve : ∀ m, c ∈ (s.history ++ [m]).filterMap (Message.linkCall p.owner) := by
    intro m
    rw [List.filterMap_append]
    exact List.mem_append_left _ hc
  cases linkRunStep_move h with
  | control hstep =>
      rw [LinkRun.processed, (controlStep_change hstep).history]
      exact hc
  | input hmove =>
      obtain ⟨-, -, -, -, hhistory, -⟩ := hmove.frame
      rw [LinkRun.processed, hhistory]
      exact hc
  | post _ _ => exact hc
  | exitSignal _ => exact hc
  | serveControl _ => exact hserve _
  | serveInput _ => exact hserve _
  | serveOther _ => exact hserve _

/-! ### Packets that are lost -/

/-- Only an input process that ends in the middle of a batch loses packets. -/
theorem lost_step {p : LinkNames} {s s' : LinkRun} {a : LinkAction}
    (h : linkRunStep p s a = some s') :
    s'.lost = s.lost ∨
      a = .input .fail ∧ s.input.pending ≠ [] ∧ s'.stage = s.stage ∧ s'.exitSignal = true := by
  cases linkRunStep_move h with
  | control hstep => exact .inl (controlStep_change hstep).lost
  | input hmove =>
      cases hmove with
      | refuse hinput _ =>
          left
          show s.lost ++ s.input.pending = s.lost
          rw [hinput]
          exact List.append_nil _
      | fail _ _ =>
          by_cases hpending : s.input.pending = []
          · left
            show s.lost ++ s.input.pending = s.lost
            rw [hpending, List.append_nil]
          · exact .inr ⟨rfl, hpending, rfl, rfl⟩
      | _ => exact .inl rfl
  | _ => exact .inl rfl

/-- The controller learns that its input process has lost packets: that has ended. -/
def LinkRun.LossSeen (s : LinkRun) : Prop :=
  s.lost ≠ [] → s.exitSignal = true ∨ .inputExit ∈ s.mailbox ∨ s.stage.left = true

theorem start_lossSeen : LinkRun.start.LossSeen := fun h => absurd rfl h

theorem lossSeen_step {p : LinkNames} {s s' : LinkRun} {a : LinkAction} (hs : s.LossSeen)
    (h : linkRunStep p s a = some s') : s'.LossSeen := by
  intro hlost
  rcases lost_step h with hsame | ⟨-, -, -, hsignal⟩
  · have hold := hs (hsame ▸ hlost)
    cases linkRunStep_move h with
    | control hstep =>
        have hleaves := controlStep_leaves hstep
        rcases hold with hsignal | hmem | hleft
        · exact .inl (hleaves.exitSignal.trans hsignal)
        · exact .inr (hleaves.inputExit hmem)
        · exact .inr (.inr (hleaves.left hleft))
    | input hmove =>
        cases hmove with
        | refuse _ _ => exact .inl rfl
        | fail _ _ => exact .inl rfl
        | _ => exact hold
    | post _ _ => exact hold.imp id (Or.imp (List.mem_append_left _) id)
    | exitSignal _ => exact .inr (.inl (List.mem_append_right _ (List.mem_singleton_self _)))
    | _ => exact hold
  · exact .inl hsignal

/-! ### The entry -/

theorem calls_nodup (node : Atom) (stage : ControlStage) : (stage.calls node).Nodup := by
  cases stage with
  | ended how => cases how <;> simp [ControlStage.calls]
  | _ => simp [ControlStage.calls]

theorem calls_isPrefix (node : Atom) (stage : ControlStage) :
    stage.calls node <+: [.register node, .unregister node] := by
  cases stage with
  | ended how => cases how <;> simp [ControlStage.calls]
  | _ => simp [ControlStage.calls]

/-- Once the server has taken up the removal, that is all it takes up. -/
theorem processed_of_unregister {p : LinkNames} {s : LinkRun} (hs : s.Inv p)
    (h : .unregister p.node ∈ s.processed p) :
    s.processed p = [.register p.node, .unregister p.node] := by
  have hprefix : s.processed p <+: [.register p.node, .unregister p.node] :=
    (hs.calls ▸ List.prefix_append _ _ : s.processed p <+: s.stage.calls p.node).trans
      (calls_isPrefix p.node s.stage)
  apply hprefix.eq_of_length_le
  cases hprocessed : s.processed p with
  | nil =>
      rw [hprocessed] at h
      cases h
  | cons c cs =>
      rw [hprocessed] at h hprefix
      cases cs with
      | nil =>
          -- the first call is the registration
          obtain rfl := (List.cons_prefix_cons.mp hprefix).1
          cases List.mem_singleton.mp h
      | cons d ds => simp

/-- The server takes up the registration once, so nothing it took up before is
one. -/
theorem no_registration_before {p : LinkNames} {s : LinkRun} (hs : s.Inv p)
    {before after : List Message} {m : Message} (hhistory : s.history = before ++ m :: after)
    (hm : m.linkCall p.owner = some (.register p.node)) :
    ∀ m' ∈ before, m'.linkCall p.owner ≠ some (.register p.node) := by
  intro m' hm' hcall
  have hnodup : (s.processed p).Nodup := by
    have hall := calls_nodup p.node s.stage
    rw [← hs.calls] at hall
    exact hall.sublist (List.sublist_append_left _ _)
  rw [LinkRun.processed, hhistory, List.filterMap_append, List.filterMap_cons_some hm] at hnodup
  have hdisjoint := List.disjoint_of_nodup_append hnodup
  exact hdisjoint (List.mem_filterMap.mpr ⟨m', hm', hcall⟩) List.mem_cons_self

/-- A removal that was taken up leaves no entry. -/
theorem no_entry_of_processed {p : LinkNames} {server : Server} (hserver : server.links = ∅)
    {s : LinkRun} (hprocessed : s.processed p = [] ∨
      s.processed p = [.register p.node, .unregister p.node]) {link : Link}
    (hlink : (s.links server).lookup p.node = some link) : link.owner ≠ p.owner := by
  refine no_entry_of_removals hserver ?_ hlink
  intro before m after node hhistory hm
  exact removal_of_processed hprocessed hhistory hm

/-- The counters of the registered link: what has been taken up in all. -/
theorem counters_of_early {p : LinkNames} {server : Server} (hserver : server.links = ∅)
    {s : LinkRun} (hinv : s.Inv p) (hs : s.NothingEarly p) {link : Link}
    (hlink : (s.links server).lookup p.node = some link) (howner : link.owner = p.owner) :
    (link.bytesReceived, link.framesReceived) = p.counted s.history := by
  have hof := linkOf_serveAll hserver s.history p.node
  obtain ⟨before, m, after, link', hhistory, hm, hlast, -⟩ :=
    hof.present.mp (Option.isSome_iff_exists.mpr ⟨link, hlink⟩)
  obtain ⟨hsame, -, -, -, hbytes, -, hframes⟩ :=
    hof.counters before m after link' link hhistory hm hlast hlink
  have hcall : m.linkCall p.owner = some (.register p.node) := by
    rw [← howner, hsame]
    exact linkCall_of_registration hm
  have hbefore : p.counted before = 0 := by
    refine hs before ?_ (no_registration_before hinv hhistory hcall)
    rw [hhistory]
    exact List.prefix_append _ _
  have hzero : m.counts p.node p.owner .received = (0, 0) := by
    cases m with
    | updateLink node owner direction bytes frames => cases hm
    | _ => rfl
  rw [hhistory, counted_append, counted_cons, hbefore, hzero, counted_eq, hbytes, hframes, ← hsame,
    howner]
  exact ((zero_add _).trans (zero_add _)).symm

/-- With no report on its way the counters lack what the input process is about to
report, and what it has lost. -/
theorem counters_of_account {p : LinkNames} {server : Server} (hserver : server.links = ∅)
    {s : LinkRun} (hinv : s.Inv p) (hearly : s.NothingEarly p) (hs : s.Account p)
    (hempty : s.fromInput = []) {link : Link}
    (hlink : (s.links server).lookup p.node = some link) (howner : link.owner = p.owner) :
    link.bytesReceived + totalSize s.input.pending + totalSize s.lost = totalSize s.handed ∧
      link.framesReceived + s.input.pending.length + s.lost.length = s.handed.length := by
  rw [LinkRun.Account, ← counters_of_early hserver hinv hearly hlink howner, hempty] at hs
  exact Prod.mk.inj hs

/-! ### Runs -/

/-- What a run keeps whose reports come in order. -/
structure LinkRun.Received (p : LinkNames) (s : LinkRun) : Prop where
  inv : s.Inv p
  account : s.Account p
  early : s.NothingEarly p
  lossSeen : s.LossSeen

theorem start_received (p : LinkNames) : LinkRun.start.Received p :=
  ⟨linkStart_inv p, start_account p, start_early p, start_lossSeen⟩

theorem received_step {p : LinkNames} {s s' : LinkRun} {a : LinkAction} (hs : s.Received p)
    (hnext : a = .serveInput → s.NextInOrder p) (h : linkRunStep p s a = some s') :
    s'.Received p :=
  ⟨linkRunStep_inv p s a s' hs.inv h, account_step hs.inv hs.account h,
    early_step hs.inv hs.early hnext h, lossSeen_step hs.lossSeen h⟩

/-- A run that loses packets only after the removal. -/
theorem run_counts {p : LinkNames} {as : List LinkAction} {s : LinkRun}
    (hG : Meets (linkRunStep p) (CountedStep p) .start as)
    (h : run (linkRunStep p) .start as = some s) :
    s.Received p ∧ (s.lost ≠ [] → .unregister p.node ∈ s.processed p) := by
  refine run_invariant_of_meets
    (P := fun t => t.Received p ∧ (t.lost ≠ [] → .unregister p.node ∈ t.processed p)) ?_ hG h
    ⟨start_received p, fun h => absurd rfl h⟩
  rintro t a t' ⟨hs, hgone⟩ hGt hstep
  refine ⟨received_step hs (fun ha => by subst ha; exact hGt) hstep, fun hlost => ?_⟩
  apply processed_step hstep
  rcases lost_step hstep with hsame | ⟨rfl, hpending, -⟩
  · exact hgone (hsame ▸ hlost)
  · exact hGt hpending

/-- A run in which no controller gives up its registration with packets lost. -/
theorem run_completes {p : LinkNames} {as : List LinkAction} {s : LinkRun}
    (hG : Meets (linkRunStep p) (CompleteStep p) .start as)
    (h : run (linkRunStep p) .start as = some s) :
    s.Received p ∧ (s.lost ≠ [] → s.stage ≠ .ended .register) := by
  refine run_invariant_of_meets
    (P := fun t => t.Received p ∧ (t.lost ≠ [] → t.stage ≠ .ended .register)) ?_ hG h
    ⟨start_received p, fun h => absurd rfl h⟩
  rintro t a t' ⟨hs, hstage⟩ hGt hstep
  refine ⟨received_step hs (fun ha => by subst ha; exact hGt) hstep, fun hlost hgiven => ?_⟩
  rcases lost_step hstep with hsame | ⟨rfl, hpending, hsame, -⟩
  · rw [hsame] at hlost
    cases linkRunStep_move hstep with
    | control hcontrol =>
        -- only a failed registration ends the controller there
        obtain ⟨rfl, hregistering⟩ := (controlStep_leaves hcontrol).unanswered hgiven
        exact hlost (hGt hregistering)
    | input hmove => exact hstage hlost (hmove.frame.1 ▸ hgiven)
    | _ => exact hstage hlost hgiven
  · exact hGt hpending (hsame ▸ hgiven)

/-- With nothing on its way, a controller that has ended and has not given up its
registration has taken its entry away, if it ever had one. -/
theorem processed_of_over {p : LinkNames} {s : LinkRun} (hinv : s.Inv p)
    (hempty : s.fromControl = []) (hover : s.stage.over = true)
    (hstage : s.stage ≠ .ended .register) :
    s.processed p = [] ∨ s.processed p = [.register p.node, .unregister p.node] := by
  have hcalls := hinv.calls
  rw [hempty, List.filterMap_nil, List.append_nil] at hcalls
  rw [hcalls]
  cases hs : s.stage with
  | ended how =>
      cases how with
      | register => exact absurd hs hstage
      | unregister => exact .inr rfl
      | done => exact .inr rfl
      | _ => exact .inl rfl
  | _ =>
      rw [hs] at hover
      cases hover

/-- **Received counters are complete** in every state at rest of a run in which no
report of a packet was taken up before the registration and no controller gave up
its registration with the input process ended in the middle of a batch.  Where the
input process ends there only after the removal of its link, the counters of every
state lack what has been handed over of the current batch, and that only. -/
theorem received_complete (p : LinkNames) (config : Config) (endpoint : Pid)
    (endpointId : EndpointId) (endpointAddr : EndpointAddr) (creation : ℕ) (acceptor : Pid)
    {as : List LinkAction} {s : LinkRun} (h : run (linkRunStep p) .start as = some s) :
    let server := Server.start config endpoint endpointId endpointAddr creation acceptor
    (Meets (linkRunStep p) (CompleteStep p) .start as → s.Complete p server) ∧
      (Meets (linkRunStep p) (CountedStep p) .start as → s.fromInput = [] →
        ∀ link, (s.links server).lookup p.node = some link → link.owner = p.owner →
          link.bytesReceived + totalSize s.input.pending = totalSize s.handed ∧
          link.framesReceived + s.input.pending.length = s.handed.length) := by
  intro server
  constructor
  · rintro hG ⟨hcontrol, hempty, hpending, hrest⟩ link hlink howner
    obtain ⟨hs, hstage⟩ := run_completes hG h
    have hlost : s.lost = [] := by
      by_contra hlost
      rcases hrest with ⟨hwaiting, hmailbox, hsignal⟩ | hover
      · -- the controller would know that its input process has ended
        rcases hs.lossSeen hlost with hexit | hmem | hleft
        · exact absurd (hsignal.symm.trans hexit) Bool.false_ne_true
        · rw [hmailbox] at hmem
          cases hmem
        · rw [hwaiting] at hleft
          cases hleft
      · exact no_entry_of_processed rfl
          (processed_of_over hs.inv hcontrol hover (hstage hlost)) hlink howner
    have hboth := counters_of_account rfl hs.inv hs.early hs.account hempty hlink howner
    rw [hpending, hlost] at hboth
    exact hboth
  · intro hG hempty link hlink howner
    obtain ⟨hs, hgone⟩ := run_counts hG h
    have hlost : s.lost = [] := by
      by_contra hlost
      have hprocessed := processed_of_unregister hs.inv (hgone hlost)
      exact no_entry_of_processed rfl (.inr hprocessed) hlink howner
    have hboth := counters_of_account rfl hs.inv hs.early hs.account hempty hlink howner
    rw [hlost] at hboth
    exact hboth

/-! ### A race -/

/-- Both processes are under way: the registration is in the controller's
channel, and the input process reads. -/
def racing : LinkRun :=
  { stage := .registering, mailbox := [], reply := false, closed := false
    input := .receiving parserNew, told := true, exitSignal := false
    fromControl := [.call (.registerLink sampleNames.node sampleNames.session 5 none) 5]
    fromInput := [], history := [], handed := [], lost := [] }

/-- A packet of two bytes arrives whole. -/
theorem recv_packet : linkRunStep sampleNames racing (.input (.recv [0, 0, 0, 2, 1, 2])) =
    some { racing with input := .putting parserNew [] [[[1, 2]]] } := by
  have hlength : ofBe [0, 0, 0, 2] = 2 := by decide
  have hmax : 2 ≤ sampleNames.session.maxFrame := by decide
  have hfeed : parserFeed parserNew [0, 0, 0, 2, 1, 2] sampleNames.session.maxFrame =
      .ok ([[[1, 2]]], parserNew) := by
    simp [parserFeed, parserFeedLoop, parserNew, consChunk, hlength, hmax]
  simp only [linkRunStep, inputStep, racing, hfeed]

/-- The steps up to the packet, and some more. -/
def raceThen (more : List LinkAction) : List LinkAction :=
  (setUp ++ [.input .begin]) ++ .input (.recv [0, 0, 0, 2, 1, 2]) :: more

theorem run_raceThen (more : List LinkAction) :
    run (linkRunStep sampleNames) .start (raceThen more) =
      run (linkRunStep sampleNames) { racing with input := .putting parserNew [] [[[1, 2]]] }
        more := by
  have hrace : run (linkRunStep sampleNames) .start (setUp ++ [.input .begin]) = some racing := rfl
  rw [raceThen, run_append, hrace, Option.bind_some, run_cons_of_step more recv_packet]

theorem meets_raceThen {G : LinkRun → LinkAction → Prop}
    (hsetUp : ∀ a ∈ setUp ++ [.input .begin], ∀ s, G s a)
    (hrecv : ∀ s data, G s (.input (.recv data))) {more : List LinkAction}
    (hmore : Meets (linkRunStep sampleNames) G
      { racing with input := .putting parserNew [] [[[1, 2]]] } more) :
    Meets (linkRunStep sampleNames) G .start (raceThen more) :=
  (meets_of_forall hsetUp _).append rfl (meets_cons (hrecv _ _) recv_packet hmore)

/-- The server takes up the registration first; the controller goes on to wait for
data. -/
def inOrder : List LinkAction :=
  [.serveControl, .input .put, .input .report, .serveInput, .control .answered, .control .confirm,
    .control (.notify true)]

/-- The server takes up the report first. -/
def outOfOrder : List LinkAction :=
  [.input .put, .input .report, .serveInput, .serveControl, .control .answered, .control .confirm,
    .control (.notify true)]

/-- In order the counters are complete at the end, and on the way they lack the
packet that has been handed over and not reported. -/
theorem received_complete_in_order :
    (∃ s, run (linkRunStep sampleNames) .start (raceThen inOrder) = some s ∧ s.AtRest ∧
      s.handed = [[[1, 2]]] ∧
      (s.links linkServer).lookup sampleNames.node =
        some ⟨sampleNames.owner, samplePeerId, none, 0, 2, 0, 1⟩ ∧
      s.Complete sampleNames linkServer) ∧
    ∃ s link, run (linkRunStep sampleNames) .start (raceThen (inOrder.take 2)) = some s ∧
      (s.links linkServer).lookup sampleNames.node = some link ∧
      s.handed = [[[1, 2]]] ∧ s.input.pending = [[[1, 2]]] ∧
      link.framesReceived + s.input.pending.length = s.handed.length := by
  constructor
  · obtain ⟨s, hrun, hrest, hhanded, hlink⟩ :
        ∃ s, run (linkRunStep sampleNames) .start (raceThen inOrder) = some s ∧ s.AtRest ∧
          s.handed = [[[1, 2]]] ∧
          (s.links linkServer).lookup sampleNames.node =
            some ⟨sampleNames.owner, samplePeerId, none, 0, 2, 0, 1⟩ := by
      rw [run_raceThen]
      exact ⟨_, rfl, ⟨rfl, rfl, rfl, .inl ⟨rfl, rfl, rfl⟩⟩, rfl, rfl⟩
    refine ⟨s, hrun, hrest, hhanded, hlink, (received_complete sampleNames _ _ _ _ _ _ hrun).1 ?_⟩
    refine meets_raceThen (by simp [setUp, CompleteStep]) (fun _ _ => trivial) ?_
    refine meets_cons trivial rfl (meets_cons trivial rfl (meets_cons trivial rfl
      (meets_cons ?_ rfl (meets_of_forall (by simp [CompleteStep]) _))))
    intro m _ _
    exact List.mem_singleton_self _
  · obtain ⟨s, hrun, hempty, hlink, hhanded, hpending⟩ :
        ∃ s, run (linkRunStep sampleNames) .start (raceThen (inOrder.take 2)) = some s ∧
          s.fromInput = [] ∧
          (s.links linkServer).lookup sampleNames.node =
            some ⟨sampleNames.owner, samplePeerId, none, 0, 0, 0, 0⟩ ∧
          s.handed = [[[1, 2]]] ∧ s.input.pending = [[[1, 2]]] := by
      rw [run_raceThen]
      exact ⟨_, rfl, rfl, rfl, rfl, rfl⟩
    have hcounted : Meets (linkRunStep sampleNames) (CountedStep sampleNames) .start
        (raceThen (inOrder.take 2)) :=
      meets_raceThen (by simp [setUp, CountedStep]) (fun _ _ => trivial)
        (meets_of_forall (by simp [inOrder, CountedStep]) _)
    have hexact := (received_complete sampleNames _ _ _ _ _ _ hrun).2 hcounted hempty _ hlink rfl
    exact ⟨s, _, hrun, hlink, hhanded, hpending, hexact.2⟩

/-- Nothing is left to process and the link is registered, but its counters
lack the packet. -/
theorem received_incomplete :
    ∃ s, run (linkRunStep sampleNames) .start (raceThen outOfOrder) = some s ∧ s.AtRest ∧
      s.stage = .waiting ∧ s.mailbox = [] ∧ s.exitSignal = false ∧ s.handed = [[[1, 2]]] ∧
      (s.links linkServer).lookup sampleNames.node =
        some ⟨sampleNames.owner, samplePeerId, none, 0, 0, 0, 0⟩ ∧
      ¬ s.Complete sampleNames linkServer := by
  obtain ⟨s, hrun, hrest, hstage, hmail, hexit, hhanded, hlink⟩ :
      ∃ s, run (linkRunStep sampleNames) .start (raceThen outOfOrder) = some s ∧ s.AtRest ∧
        s.stage = .waiting ∧ s.mailbox = [] ∧ s.exitSignal = false ∧ s.handed = [[[1, 2]]] ∧
        (s.links linkServer).lookup sampleNames.node =
          some ⟨sampleNames.owner, samplePeerId, none, 0, 0, 0, 0⟩ := by
    rw [run_raceThen]
    exact ⟨_, rfl, ⟨rfl, rfl, rfl, .inl ⟨rfl, rfl, rfl⟩⟩, rfl, rfl, rfl, rfl, rfl⟩
  refine ⟨s, hrun, hrest, hstage, hmail, hexit, hhanded, hlink, ?_⟩
  intro hcomplete
  obtain ⟨-, hframes⟩ := hcomplete hrest _ hlink rfl
  rw [hhanded] at hframes
  cases hframes

end IrohBeam
