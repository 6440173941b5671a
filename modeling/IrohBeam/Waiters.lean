/-
IrohBeam/Waiters.lean

The callers of `take_incoming/1` who do not wait to the end.  A call of the
`iroh_dist_endpoint` server ends at its caller when the timeout runs out or the
caller dies; the server sees neither, and its `waiter` field keeps the call
(`src/iroh_dist_endpoint.erl`, `handle_call take_incoming` and
`handle_info {incoming, Session}`).

A state is the hand-over of `Handoff.lean` with the history of what reached the
server from outside, a session or a call in its mailbox, and of the callers
giving up; and, for every call refused as `busy`, the waiter it was refused
for.  A caller may give up at any moment after it has asked, also with its
message still unread or its answer on the way.

Two things can go to a caller that is no longer there: the next session, and
the right to wait.  The step lemma `turn_used` says what a turn uses its waiter
for; `sessions_kept_iff` says of a whole run that nothing was lost to a caller
that had given up exactly if the server found no such caller in its `waiter`
field.
-/
import IrohBeam.Handoff

namespace IrohBeam

open Transition

/-! ### The system -/

/-- What happens outside the server. -/
inductive WaitEvent where
  | arrived (session : Session)
  | asked (caller : Caller)
  | gaveUp (caller : Caller)
  deriving DecidableEq

/-- What the arrival of a message is to the hand-over. -/
def Message.event : Message → Option WaitEvent
  | .incoming session => some (.arrived session)
  | .call .takeIncoming caller => some (.asked caller)
  | _ => none

/-- The hand-over with the history of arrivals and of callers giving up, and
the refused calls, each with the waiter it was refused for. -/
structure Waiting where
  handoff : Handoff
  events : List WaitEvent
  refused : List (Caller × Caller)

/-- A step of the hand-over, or a caller gives up. -/
inductive WaitAction where
  | post (message : Message)
  | turn (endpointAlive : Bool)
  | stop (endpointAlive : Bool)
  | giveUp (caller : Caller)

def Waiting.start (server : Server) : Waiting := ⟨.start server, [], []⟩

/-- The call that the next turn refuses, if it does, with the waiter. -/
def Handoff.refusal (s : Handoff) : Option (Caller × Caller) :=
  (s.mailbox.head?.bind Message.taker).bind fun caller =>
    s.server.waiter.map fun waiter => (caller, waiter)

/-- One step.  Every call has a `From` of its own. -/
def waitStep (s : Waiting) : WaitAction → Option Waiting
  | .post m =>
      if m.taker.all (fun caller => WaitEvent.asked caller ∉ s.events) then
        (handoffStep s.handoff (.post m)).map fun handoff =>
          { s with handoff, events := s.events ++ m.event.toList }
      else none
  | .turn endpointAlive =>
      (handoffStep s.handoff (.turn endpointAlive)).map fun handoff =>
        { s with handoff, refused := s.refused ++ s.handoff.refusal.toList }
  | .stop endpointAlive =>
      (handoffStep s.handoff (.stop endpointAlive)).map fun handoff => { s with handoff }
  | .giveUp caller =>
      if .asked caller ∈ s.events ∧ .gaveUp caller ∉ s.events then
        some { s with events := s.events ++ [.gaveUp caller] }
      else none

/-- The caller an effect refuses as `busy`. -/
def Effect.busy : Effect → Option Caller
  | .reply caller (.error .busy) => some caller
  | _ => none

/-- Callers refused as `busy`, in order. -/
def Handoff.busy (s : Handoff) : List Caller := s.log.filterMap Effect.busy

/-- Nothing is lost to a caller that has given up.  A session the server has
taken up is queued, closed, or was sent to a caller that had not given up when
the session arrived; none was sent to a caller that had; and no call was
refused for a waiter that had given up when the call was made. -/
structure Waiting.Kept (s : Waiting) : Prop where
  session : ∀ session ∈ s.handoff.arrived, session ∉ s.handoff.inflight →
    session ∈ s.handoff.server.incoming ∨
    (∃ caller, (caller, session) ∈ s.handoff.handed ∧
      ¬ Before s.events (.gaveUp caller) (.arrived session)) ∨
    session ∈ s.handoff.closed
  handed : ∀ caller session, (caller, session) ∈ s.handoff.handed →
    ¬ Before s.events (.gaveUp caller) (.arrived session)
  refused : ∀ caller waiter, (caller, waiter) ∈ s.refused →
    ¬ Before s.events (.gaveUp waiter) (.asked caller)

/-- The condition on a turn: the caller in the `waiter` field had not given up
when the session or the call that is now taken up arrived. -/
def Attended (s : Waiting) : WaitAction → Prop
  | .turn _ => ∀ m ∈ s.handoff.mailbox.head?, ∀ e ∈ m.event, ∀ waiter ∈ s.handoff.server.waiter,
      ¬ Before s.events (.gaveUp waiter) e
  | _ => True

/-! ### What a turn uses its waiter for -/

namespace HandoffCase

variable {s s' : Server} {m : Message} {fx : List Effect}

/-- A turn refuses a call exactly if it finds a waiter. -/
theorem busy_eq (h : HandoffCase s m s' fx) :
    fx.filterMap Effect.busy =
      ((m.taker.bind fun caller => s.waiter.map fun waiter => (caller, waiter)).map
        Prod.fst).toList := by
  cases h with
  | frame _ htaker _ _ hfx =>
      rw [htaker, Option.bind_none, Option.map_none, Option.toList_none,
        List.filterMap_eq_nil_iff]
      intro e he
      obtain ⟨-, -, hanswered⟩ := hfx e he
      cases e with
      | reply caller reply =>
          cases reply with
          | error error =>
              cases error with
              | busy => cases hanswered
              | _ => rfl
          | _ => rfl
      | _ => rfl
  | take hwaiter _ _ => simp [hwaiter, Effect.busy]
  | wait hwaiter _ _ _ => simp [hwaiter]
  | busy hwaiter => simp [hwaiter, Effect.busy]
  | enqueue _ _ _ _ => simp
  | refuse _ _ => simp [Effect.busy]
  | hand _ _ _ => simp [Effect.busy]

/-- A turn hands a session to the waiter, if the session is new, and to the
one who asks, if it was queued. -/
theorem handed_iff (h : HandoffCase s m s' fx) (caller : Caller) (session : Session) :
    (caller, session) ∈ fx.filterMap Effect.handed ↔
      m.session = some session ∧ s.waiter = some caller ∨
      m.taker = some caller ∧ s.waiter = none ∧ s.incoming.head? = some session := by
  cases h with
  | frame hsession htaker _ _ hfx => simp [hsession, htaker, (filterMap_inert hfx).1]
  | take hwaiter hin _ => simp [hwaiter, hin, eq_comm]
  | wait hwaiter hin _ _ => simp [hin]
  | busy hwaiter => simp [hwaiter]
  | enqueue hwaiter _ _ _ => simp [hwaiter]
  | refuse hwaiter _ => simp [hwaiter]
  | hand hwaiter _ _ => simp [hwaiter, eq_comm, and_comm]

end HandoffCase

/-- What the call `caller` was used for: it was sent the session that arrived,
or the call that came was refused for it. -/
inductive Waiting.Used (s : Waiting) : Caller → WaitEvent → Prop
  | handed {caller session} : (caller, session) ∈ s.handoff.handed → Used s caller (.arrived session)
  | refused {caller waiter} : (caller, waiter) ∈ s.refused → Used s waiter (.asked caller)

theorem Waiting.Used.congr {s s' : Waiting} {caller : Caller} {e : WaitEvent}
    (hused : s.Used caller e) (hhanded : s.handoff.handed = s'.handoff.handed)
    (hrefused : s.refused = s'.refused) : s'.Used caller e := by
  cases hused with
  | handed hmem => exact .handed (hhanded ▸ hmem)
  | refused hmem => exact .refused (hrefused ▸ hmem)

/-- The messages the hand-over has a part in, and all the others. -/
theorem event_cases (m : Message) :
    (∃ session, m = .incoming session) ∨ (∃ caller, m = .call .takeIncoming caller) ∨
      m.event = none ∧ m.session = none ∧ m.taker = none := by
  cases m with
  | call request caller =>
      cases request with
      | takeIncoming => exact .inr (.inl ⟨caller, rfl⟩)
      | _ => exact .inr (.inr ⟨rfl, rfl, rfl⟩)
  | incoming session => exact .inl ⟨session, rfl⟩
  | _ => exact .inr (.inr ⟨rfl, rfl, rfl⟩)

theorem event_of_session {m : Message} {session : Session} (h : m.session = some session) :
    m.event = some (.arrived session) := by
  rcases event_cases m with ⟨session', rfl⟩ | ⟨caller, rfl⟩ | ⟨-, hnone, -⟩
  · obtain rfl := Option.some.inj h
    rfl
  · cases h
  · rw [hnone] at h
    cases h

theorem event_of_taker {m : Message} {caller : Caller} (h : m.taker = some caller) :
    m.event = some (.asked caller) := by
  rcases event_cases m with ⟨session, rfl⟩ | ⟨caller', rfl⟩ | ⟨-, -, hnone⟩
  · cases h
  · obtain rfl := Option.some.inj h
    rfl
  · rw [hnone] at h
    cases h

/-! ### What a step does -/

theorem waitPost_cases {s s' : Waiting} {m : Message} (h : waitStep s (.post m) = some s') :
    (∀ caller, m.taker = some caller → .asked caller ∉ s.events) ∧
      ∃ handoff, handoffStep s.handoff (.post m) = some handoff ∧
        s' = { s with handoff, events := s.events ++ m.event.toList } := by
  simp only [waitStep] at h
  split at h
  · next hfresh =>
      obtain ⟨handoff, hstep, hs'⟩ := Option.map_eq_some_iff.mp h
      refine ⟨?_, handoff, hstep, hs'.symm⟩
      intro caller hm
      simpa [hm] using hfresh
  · cases h

theorem waitTurn_cases {s s' : Waiting} {endpointAlive : Bool}
    (h : waitStep s (.turn endpointAlive) = some s') :
    ∃ handoff, handoffStep s.handoff (.turn endpointAlive) = some handoff ∧
      s' = { s with handoff, refused := s.refused ++ s.handoff.refusal.toList } := by
  obtain ⟨handoff, hstep, hs'⟩ := Option.map_eq_some_iff.mp h
  exact ⟨handoff, hstep, hs'.symm⟩

theorem waitStop_cases {s s' : Waiting} {endpointAlive : Bool}
    (h : waitStep s (.stop endpointAlive) = some s') :
    s' = { s with handoff := s.handoff.finish endpointAlive } := by
  obtain ⟨handoff, hstep, hs'⟩ := Option.map_eq_some_iff.mp h
  obtain ⟨-, rfl⟩ := stop_cases hstep
  exact hs'.symm

theorem giveUp_cases {s s' : Waiting} {caller : Caller} (h : waitStep s (.giveUp caller) = some s') :
    .asked caller ∈ s.events ∧ .gaveUp caller ∉ s.events ∧
      s' = { s with events := s.events ++ [.gaveUp caller] } := by
  simp only [waitStep] at h
  split at h
  · next hguard => exact ⟨hguard.1, hguard.2, (Option.some.inj h).symm⟩
  · cases h

theorem refusal_eq {s : Handoff} {m : Message} {rest : List Message} (hbox : s.mailbox = m :: rest) :
    s.refusal = m.taker.bind fun caller => s.server.waiter.map fun waiter => (caller, waiter) := by
  rw [Handoff.refusal, hbox]
  rfl

/-- The next turn refuses the call at the head of the mailbox if there is a waiter. -/
theorem mem_refusal_iff {s : Handoff} {m : Message} {rest : List Message}
    (hbox : s.mailbox = m :: rest) {caller waiter : Caller} :
    (caller, waiter) ∈ s.refusal.toList ↔ m.taker = some caller ∧ s.server.waiter = some waiter := by
  rw [refusal_eq hbox]
  cases m.taker <;> cases s.server.waiter <;> simp [eq_comm]

theorem finish_busy (s : Handoff) (endpointAlive : Bool) :
    (s.finish endpointAlive).busy = s.busy := by
  have hterminate : (s.server.terminate endpointAlive).filterMap Effect.busy = [] := by
    cases endpointAlive <;>
      simp [Server.terminate, List.filterMap_append, List.filterMap_map, Effect.busy,
        Function.comp_def]
  rw [Handoff.busy, Handoff.finish, List.filterMap_append, hterminate, List.append_nil]
  rfl

/-- A turn leaves what was handed over or refused, and adds what the handled
message brings; the end of the server adds nothing. -/
theorem turn_effects {s s' : Handoff} {endpointAlive : Bool}
    (h : handoffStep s (.turn endpointAlive) = some s') :
    ∃ m rest, s.mailbox = m :: rest ∧ s'.mailbox = rest ∧ s'.arrived = s.arrived ∧
      s'.server.incoming.Sublist (handle m s.server).1.incoming ∧
      s'.handed = s.handed ++ (handle m s.server).2.1.filterMap Effect.handed ∧
      s'.busy = s.busy ++ (handle m s.server).2.1.filterMap Effect.busy := by
  obtain ⟨-, m, rest, hbox, rfl | ⟨-, rfl⟩⟩ := turn_cases h
  · exact ⟨m, rest, hbox, rfl, rfl, .refl _, List.filterMap_append, List.filterMap_append⟩
  · refine ⟨m, rest, hbox, rfl, rfl, List.nil_sublist _, ?_, ?_⟩
    · rw [finish_handed]
      exact List.filterMap_append
    · rw [finish_busy]
      exact List.filterMap_append

/-! ### The invariant -/

/-- What holds of the history: nothing happens twice, a caller gives up after
it has asked, and what is queued or in the mailbox came in this order. -/
structure Waiting.Inv (s : Waiting) : Prop where
  handoff : s.handoff.Inv
  events : s.events.Nodup
  arrived : ∀ session, .arrived session ∈ s.events ↔ session ∈ s.handoff.arrived
  gaveUp : ∀ caller, .gaveUp caller ∈ s.events →
    Before s.events (.asked caller) (.gaveUp caller)
  order : (s.handoff.server.incoming.map WaitEvent.arrived ++
    s.handoff.mailbox.filterMap Message.event).Sublist s.events
  used : ∀ caller e, s.Used caller e → e ∈ s.events
  busy : s.handoff.busy = s.refused.map Prod.fst

theorem waitStart_inv {server : Server} (hin : server.incoming = []) (hwaiter : server.waiter = none) :
    (Waiting.start server).Inv where
  handoff := start_inv hin hwaiter
  events := List.nodup_nil
  arrived := by simp [Waiting.start, Handoff.start]
  gaveUp := fun _ h => (List.not_mem_nil h).elim
  order := by simp [Waiting.start, Handoff.start, hin]
  used := by
    intro caller e h
    cases h with
    | handed h => cases h
    | refused h => cases h
  busy := rfl

/-- A message in the mailbox that the hand-over has a part in is in the history. -/
theorem Waiting.Inv.event_mem {s : Waiting} (hs : s.Inv) {m : Message} {rest : List Message}
    (hbox : s.handoff.mailbox = m :: rest) {e : WaitEvent} (he : m.event = some e) :
    e ∈ s.events := by
  refine hs.order.subset (List.mem_append_right _ ?_)
  rw [hbox]
  exact List.mem_filterMap.mpr ⟨m, List.mem_cons_self, he⟩

/-- The message that arrives is new to the history. -/
theorem event_fresh {s s' : Waiting} {m : Message} (hs : s.Inv)
    (h : waitStep s (.post m) = some s') {e : WaitEvent} (he : m.event = some e) :
    e ∉ s.events := by
  obtain ⟨hasked, handoff, hstep, -⟩ := waitPost_cases h
  obtain ⟨-, hfresh, -⟩ := post_cases hstep
  rcases event_cases m with ⟨session, rfl⟩ | ⟨caller, rfl⟩ | ⟨hnone, -, -⟩
  · obtain rfl := Option.some.inj he
    intro hmem
    exact hfresh session rfl (List.mem_map_of_mem ((hs.arrived session).mp hmem))
  · obtain rfl := Option.some.inj he
    exact hasked caller rfl
  · rw [hnone] at he
    cases he

/-- A message arrives. -/
theorem waitPost_inv {s s' : Waiting} {m : Message} (hs : s.Inv)
    (h : waitStep s (.post m) = some s') : s'.Inv := by
  have hfresh := fun e he => event_fresh hs h (e := e) he
  obtain ⟨-, handoff, hstep, rfl⟩ := waitPost_cases h
  have hhandoff := post_inv hs.handoff hstep
  obtain ⟨-, -, rfl⟩ := post_cases hstep
  refine ⟨hhandoff, ?_, ?_, ?_, ?_, ?_, hs.busy⟩
  · cases he : m.event with
    | none => simpa using hs.events
    | some e =>
        show (s.events ++ [e]).Nodup
        exact List.nodup_append_comm.mp (List.nodup_cons.mpr ⟨hfresh e he, hs.events⟩)
  · intro session
    show _ ∈ s.events ++ _ ↔ _ ∈ s.handoff.arrived ++ _
    rw [List.mem_append, List.mem_append, hs.arrived session]
    rcases event_cases m with ⟨session', rfl⟩ | ⟨caller, rfl⟩ | ⟨hnone, hsession, -⟩
    · simp [Message.event]
    · simp [Message.event]
    · simp [hnone, hsession]
  · intro caller hmem
    have hold : WaitEvent.gaveUp caller ∈ s.events := by
      rcases List.mem_append.mp hmem with hmem | hmem
      · exact hmem
      · rcases event_cases m with ⟨session', rfl⟩ | ⟨caller, rfl⟩ | ⟨hnone, -, -⟩
        · simp [Message.event] at hmem
        · simp [Message.event] at hmem
        · simp [hnone] at hmem
    exact (hs.gaveUp caller hold).append_right _
  · show (_ ++ (s.handoff.mailbox ++ [m]).filterMap Message.event).Sublist (s.events ++ _)
    have hone : [m].filterMap Message.event = m.event.toList := by
      cases he : m.event <;> simp [he]
    rw [List.filterMap_append, hone, ← List.append_assoc]
    exact hs.order.append (.refl _)
  · intro caller e hused
    exact List.mem_append_left _ (hs.used caller e (hused.congr rfl rfl))

/-- A caller gives up. -/
theorem giveUp_inv {s s' : Waiting} {caller : Caller} (hs : s.Inv)
    (h : waitStep s (.giveUp caller) = some s') : s'.Inv := by
  obtain ⟨hasked, hfresh, rfl⟩ := giveUp_cases h
  refine ⟨hs.handoff, ?_, ?_, ?_, ?_, ?_, hs.busy⟩
  · exact List.nodup_append_comm.mp (List.nodup_cons.mpr ⟨hfresh, hs.events⟩)
  · intro session
    show _ ∈ s.events ++ _ ↔ _
    simpa using hs.arrived session
  · intro other hmem
    show Before (s.events ++ _) _ _
    rw [before_concat]
    rcases List.mem_append.mp hmem with hmem | hmem
    · exact .inl (hs.gaveUp other hmem)
    · have heq := List.mem_singleton.mp hmem
      obtain rfl := WaitEvent.gaveUp.inj heq
      exact .inr ⟨hasked, rfl⟩
  · exact hs.order.trans (List.sublist_append_left _ _)
  · intro other e hused
    exact List.mem_append_left _ (hs.used other e (hused.congr rfl rfl))

/-- What a turn of the server adds to the use made of a call: the waiter for
the message taken up, and a caller that asks while a session is queued. -/
theorem turn_used {s s' : Waiting} {endpointAlive : Bool}
    (h : waitStep s (.turn endpointAlive) = some s') :
    ∃ m rest, s.handoff.mailbox = m :: rest ∧ ∀ caller e, s'.Used caller e ↔
      s.Used caller e ∨
      (m.event = some e ∧ s.handoff.server.waiter = some caller) ∨
      (m.taker = some caller ∧ s.handoff.server.waiter = none ∧
        ∃ session, s.handoff.server.incoming.head? = some session ∧ e = .arrived session) := by
  obtain ⟨handoff, hstep, rfl⟩ := waitTurn_cases h
  obtain ⟨m, rest, hbox, -, -, -, hhanded, -⟩ := turn_effects hstep
  have hcase := handle_case m s.handoff.server
  refine ⟨m, rest, hbox, ?_⟩
  intro caller e
  constructor
  · intro hused
    cases hused with
    | handed hmem =>
        rw [hhanded, List.mem_append, hcase.handed_iff] at hmem
        rcases hmem with hmem | ⟨hsession, hwaiter⟩ | ⟨htaker, hwaiter, hhead⟩
        · exact .inl (.handed hmem)
        · exact .inr (.inl ⟨event_of_session hsession, hwaiter⟩)
        · exact .inr (.inr ⟨htaker, hwaiter, _, hhead, rfl⟩)
    | refused hmem =>
        rcases List.mem_append.mp hmem with hmem | hmem
        · exact .inl (.refused hmem)
        · obtain ⟨htaker, hwaiter⟩ := (mem_refusal_iff hbox).mp hmem
          exact .inr (.inl ⟨event_of_taker htaker, hwaiter⟩)
  · rintro (hused | ⟨he, hwaiter⟩ | ⟨htaker, hwaiter, session, hhead, rfl⟩)
    · cases hused with
      | handed hmem => exact .handed (by rw [hhanded]; exact List.mem_append_left _ hmem)
      | refused hmem => exact .refused (List.mem_append_left _ hmem)
    · rcases event_cases m with ⟨session, rfl⟩ | ⟨other, rfl⟩ | ⟨hnone, -, -⟩
      · obtain rfl := Option.some.inj he
        apply Waiting.Used.handed
        rw [hhanded, List.mem_append, hcase.handed_iff]
        exact .inr (.inl ⟨rfl, hwaiter⟩)
      · obtain rfl := Option.some.inj he
        exact .refused (List.mem_append_right _ ((mem_refusal_iff hbox).mpr ⟨rfl, hwaiter⟩))
      · rw [hnone] at he
        cases he
    · apply Waiting.Used.handed
      rw [hhanded, List.mem_append, hcase.handed_iff]
      exact .inr (.inr ⟨htaker, hwaiter, hhead⟩)

/-- The server takes one turn. -/
theorem waitTurn_inv {s s' : Waiting} {endpointAlive : Bool} (hs : s.Inv)
    (h : waitStep s (.turn endpointAlive) = some s') : s'.Inv := by
  obtain ⟨m, rest, hbox, hused⟩ := turn_used h
  obtain ⟨handoff, hstep, rfl⟩ := waitTurn_cases h
  obtain ⟨m', rest', hbox', hrest, harrived, hincoming, -, hbusy⟩ := turn_effects hstep
  obtain ⟨rfl, rfl⟩ := List.cons.inj (hbox'.symm.trans hbox)
  have hcase := handle_case m' s.handoff.server
  have hsplit : (m' :: rest').filterMap Message.event =
      m'.event.toList ++ rest'.filterMap Message.event := by
    cases he : m'.event <;> simp [he]
  refine ⟨handoffStep_inv _ _ _ hs.handoff hstep, hs.events, ?_, hs.gaveUp, ?_, ?_, ?_⟩
  · intro session
    show _ ↔ session ∈ handoff.arrived
    rw [harrived]
    exact hs.arrived session
  · -- what is queued now was queued before or is the message taken up
    show (handoff.server.incoming.map _ ++ handoff.mailbox.filterMap _).Sublist _
    have hqueue : handoff.server.incoming.Sublist
        (s.handoff.server.incoming ++ m'.session.toList) :=
      hincoming.trans ((List.sublist_append_right _ _).trans (hcase.order hs.handoff.tidy))
    have hsession : (m'.session.toList.map WaitEvent.arrived).Sublist m'.event.toList := by
      rcases event_cases m' with ⟨session, rfl⟩ | ⟨caller, rfl⟩ | ⟨-, hnone, -⟩
      · exact .refl _
      · exact List.nil_sublist _
      · rw [hnone]
        exact List.nil_sublist _
    have hmap := hqueue.map WaitEvent.arrived
    rw [List.map_append] at hmap
    refine ((hmap.trans ((List.Sublist.refl _).append hsession)).append (.refl _)).trans ?_
    rw [hrest, List.append_assoc, ← hsplit, ← hbox]
    exact hs.order
  · intro caller e hnew
    show e ∈ s.events
    rcases (hused caller e).mp hnew with hold | ⟨he, -⟩ | ⟨-, -, session, hhead, rfl⟩
    · exact hs.used caller e hold
    · exact hs.event_mem hbox he
    · exact hs.order.subset (List.mem_append_left _
        (List.mem_map_of_mem (List.mem_of_mem_head? hhead)))
  · show handoff.busy = (s.refused ++ s.handoff.refusal.toList).map Prod.fst
    rw [hbusy, hs.busy, hcase.busy_eq, ← refusal_eq hbox, List.map_append, Option.toList_map]

/-- Every step keeps the invariant. -/
theorem waitStep_inv (s : Waiting) (a : WaitAction) (s' : Waiting) (hs : s.Inv)
    (h : waitStep s a = some s') : s'.Inv := by
  cases a with
  | post m => exact waitPost_inv hs h
  | turn endpointAlive => exact waitTurn_inv hs h
  | stop endpointAlive =>
      obtain rfl := waitStop_cases h
      refine ⟨finish_inv hs.handoff endpointAlive, hs.events, hs.arrived, hs.gaveUp, ?_, ?_, ?_⟩
      · exact (List.sublist_append_right _ _).trans hs.order
      · intro caller e hused
        exact hs.used caller e (hused.congr (finish_handed s.handoff endpointAlive) rfl)
      · rw [finish_busy]
        exact hs.busy
  | giveUp caller => exact giveUp_inv hs h

/-! ### Steps and runs -/

/-- No call was used that had been given up. -/
def Waiting.Attentive (s : Waiting) : Prop :=
  ∀ caller e, s.Used caller e → ¬ Before s.events (.gaveUp caller) e

/-- With what the hand-over keeps, that is all there is to `Kept`. -/
theorem kept_iff_attentive {s : Waiting} (hs : s.Inv) : s.Kept ↔ s.Attentive := by
  constructor
  · intro hkept caller e hused
    cases hused with
    | handed hmem => exact hkept.handed _ _ hmem
    | refused hmem => exact hkept.refused _ _ hmem
  · intro hatt
    refine ⟨?_, fun _ _ hmem => hatt _ _ (.handed hmem), fun _ _ hmem => hatt _ _ (.refused hmem)⟩
    intro session harrived htaken
    have hplace := hs.handoff.places.mem_iff.mp harrived
    simp only [List.mem_append] at hplace
    rcases hplace with ((hflight | hqueued) | hhanded) | hclosed
    · exact absurd hflight htaken
    · exact .inl hqueued
    · obtain ⟨⟨caller, session'⟩, hmem, rfl⟩ := List.mem_map.mp hhanded
      exact .inr (.inl ⟨caller, hmem, hatt _ _ (.handed hmem)⟩)
    · exact .inr (.inr hclosed)

/-- Whoever asks while a session is queued asks after the session arrived, so
cannot have given up before that. -/
theorem queued_attended {s : Waiting} (hs : s.Inv) {m : Message} {rest : List Message}
    (hbox : s.handoff.mailbox = m :: rest) {caller : Caller} (htaker : m.taker = some caller)
    {session : Session} (hhead : s.handoff.server.incoming.head? = some session) :
    ¬ Before s.events (.gaveUp caller) (.arrived session) := by
  intro hgone
  have hasked : Before s.events (.asked caller) (.arrived session) :=
    (hs.gaveUp caller hgone.mem_left).trans hs.events hgone
  have harrived : Before s.events (.arrived session) (.asked caller) := by
    refine List.Sublist.trans ?_ hs.order
    rw [hbox]
    have hqueued := List.mem_map_of_mem (f := WaitEvent.arrived) (List.mem_of_mem_head? hhead)
    have hcall : .asked caller ∈ (m :: rest).filterMap Message.event :=
      List.mem_filterMap.mpr ⟨m, List.mem_cons_self, event_of_taker htaker⟩
    exact (List.singleton_sublist.mpr hqueued).append (List.singleton_sublist.mpr hcall)
  exact hasked.asymm hs.events harrived

/-- A step outside the server adds at most a new event to the history, and
does not change what the calls were used for. -/
theorem attentive_of_events {s s' : Waiting} (hs : s.Inv) {e : Option WaitEvent}
    (hevents : s'.events = s.events ++ e.toList) (hfresh : ∀ e' ∈ e, e' ∉ s.events)
    (hhanded : s'.handoff.handed = s.handoff.handed) (hrefused : s'.refused = s.refused) :
    s'.Attentive ↔ s.Attentive := by
  have hbefore : ∀ caller e', s.Used caller e' →
      (Before s'.events (.gaveUp caller) e' ↔ Before s.events (.gaveUp caller) e') := by
    intro caller e' hused
    rw [hevents]
    cases e with
    | none => rw [Option.toList_none, List.append_nil]
    | some e => exact before_concat_of_mem (hs.used caller e' hused) (hfresh e rfl)
  constructor
  · intro hatt caller e' hused
    rw [← hbefore caller e' hused]
    exact hatt caller e' (hused.congr hhanded.symm hrefused.symm)
  · intro hatt caller e' hused
    have hold := hused.congr hhanded hrefused
    rw [hbefore caller e' hold]
    exact hatt caller e' hold

/-- **The step lemma**: a step keeps the callers attended exactly if the waiter
it goes by is. -/
theorem waitStep_attentive (s : Waiting) (a : WaitAction) (s' : Waiting) (hs : s.Inv)
    (h : waitStep s a = some s') : s'.Attentive ↔ s.Attentive ∧ Attended s a := by
  cases a with
  | post m =>
      have hfresh := fun e he => event_fresh hs h (e := e) he
      obtain ⟨-, handoff, hstep, rfl⟩ := waitPost_cases h
      obtain ⟨-, -, rfl⟩ := post_cases hstep
      refine Iff.trans ?_ (and_iff_left trivial).symm
      exact attentive_of_events hs rfl hfresh rfl rfl
  | turn endpointAlive =>
      obtain ⟨m, rest, hbox, hused⟩ := turn_used h
      obtain ⟨handoff, -, rfl⟩ := waitTurn_cases h
      constructor
      · intro hatt
        refine ⟨fun caller e hmem => hatt caller e ((hused caller e).mpr (.inl hmem)), ?_⟩
        intro m' hm' e he waiter hwaiter
        rw [hbox] at hm'
        obtain rfl := Option.some.inj hm'
        exact hatt waiter e ((hused waiter e).mpr (.inr (.inl ⟨he, hwaiter⟩)))
      · rintro ⟨hatt, hwaiting⟩ caller e hmem
        rcases (hused caller e).mp hmem with hold | ⟨he, hwaiter⟩ | ⟨htaker, -, session, hhead, rfl⟩
        · exact hatt caller e hold
        · exact hwaiting m (by rw [hbox]; rfl) e he caller hwaiter
        · exact queued_attended hs hbox htaker hhead
  | stop endpointAlive =>
      obtain rfl := waitStop_cases h
      refine Iff.trans ?_ (and_iff_left trivial).symm
      exact attentive_of_events (e := none) hs (List.append_nil _).symm (by simp)
        (finish_handed s.handoff endpointAlive) rfl
  | giveUp caller =>
      obtain ⟨-, hfresh, rfl⟩ := giveUp_cases h
      refine Iff.trans ?_ (and_iff_left trivial).symm
      exact attentive_of_events (e := some (.gaveUp caller)) hs rfl (by simpa using hfresh) rfl rfl

/-- **Sessions are kept from callers that have given up** exactly in the runs
in which the server finds none of them in its `waiter` field: each time it
takes up a session or a call, the waiter had not given up when that arrived. -/
theorem sessions_kept_iff (config : Config) (endpoint : Pid) (endpointId : EndpointId)
    (endpointAddr : EndpointAddr) (creation : ℕ) (acceptor : Pid) {as : List WaitAction}
    {s : Waiting}
    (h : run waitStep
      (.start (.start config endpoint endpointId endpointAddr creation acceptor)) as = some s) :
    (s.Kept ↔ Meets waitStep Attended
      (.start (.start config endpoint endpointId endpointAddr creation acceptor)) as) ∧
    s.handoff.busy = s.refused.map Prod.fst := by
  have hstart : (Waiting.start
      (.start config endpoint endpointId endpointAddr creation acceptor)).Inv :=
    waitStart_inv rfl rfl
  have hs : s.Inv := run_invariant waitStep_inv h hstart
  refine ⟨?_, hs.busy⟩
  rw [kept_iff_attentive hs, run_iff_meets waitStep_inv waitStep_attentive h hstart]
  apply and_iff_right
  intro caller e hused
  cases hused with
  | handed hmem => cases hmem
  | refused hmem => cases hmem

/-- The session of the samples. -/
def arrivingSession : Session := sampleConfig.session 0 0 samplePeerId

def sampleWaiting : Waiting :=
  .start (.start sampleConfig 0 samplePeerId ⟨samplePeerId, [], []⟩ 0 1)

/-- A caller waits, a session arrives, and the caller gives up before the
server has taken the session up. -/
def lateRun : List WaitAction :=
  [.post (.call .takeIncoming 7), .turn true, .post (.incoming arrivingSession), .giveUp 7,
    .turn true]

theorem sessions_kept_late :
    ∃ s, run waitStep sampleWaiting lateRun = some s ∧
      s.handoff.handed = [(7, arrivingSession)] ∧ s.Kept := by
  obtain ⟨s, hrun, hhanded⟩ : ∃ s, run waitStep sampleWaiting lateRun = some s ∧
      s.handoff.handed = [(7, arrivingSession)] := ⟨_, rfl, rfl⟩
  refine ⟨s, hrun, hhanded, (sessions_kept_iff _ _ _ _ _ _ hrun).1.mpr ?_⟩
  refine meets_cons trivial rfl (meets_cons ?_ rfl (meets_cons trivial rfl
    (meets_cons trivial rfl (meets_cons ?_ rfl trivial))))
  · -- nobody waits yet
    intro m _ e _ waiter hwaiter
    cases hwaiter
  · intro m hm e he waiter hwaiter
    obtain rfl := Option.some.inj hm
    obtain rfl := Option.some.inj he
    obtain rfl := Option.some.inj hwaiter
    decide

/-- A caller waits and gives up; the next caller asks, and a session arrives. -/
def abandonedRun : List WaitAction :=
  [.post (.call .takeIncoming 7), .turn true, .giveUp 7, .post (.call .takeIncoming 8), .turn true,
    .post (.incoming arrivingSession), .turn true]

/-- The server refuses the second caller for the first, and sends the session
to the first alone. -/
theorem session_lost_to_abandoned :
    ∃ s, run waitStep sampleWaiting abandonedRun = some s ∧
      s.refused = [(8, 7)] ∧ Before s.events (.gaveUp 7) (.asked 8) ∧
      s.handoff.inflight = [] ∧ s.handoff.server.incoming = [] ∧ s.handoff.closed = [] ∧
      s.handoff.handed = [(7, arrivingSession)] ∧
      Before s.events (.gaveUp 7) (.arrived arrivingSession) ∧ ¬ s.Kept := by
  obtain ⟨s, hrun, hrefused, hasked, hflight, hqueue, hclosed, hhanded, hgone⟩ :
      ∃ s, run waitStep sampleWaiting abandonedRun = some s ∧
        s.refused = [(8, 7)] ∧ Before s.events (.gaveUp 7) (.asked 8) ∧
        s.handoff.inflight = [] ∧ s.handoff.server.incoming = [] ∧ s.handoff.closed = [] ∧
        s.handoff.handed = [(7, arrivingSession)] ∧
        Before s.events (.gaveUp 7) (.arrived arrivingSession) :=
    ⟨_, rfl, rfl, by decide, rfl, rfl, rfl, rfl, by decide⟩
  refine ⟨s, hrun, hrefused, hasked, hflight, hqueue, hclosed, hhanded, hgone, ?_⟩
  intro hkept
  refine hkept.handed 7 arrivingSession ?_ hgone
  rw [hhanded]
  exact List.mem_singleton_self _

end IrohBeam
