/-
IrohBeam/Handoff.lean

The hand-over of incoming sessions as a system: the acceptor and any number
of callers of `take_incoming/1` put messages into the mailbox of the
`iroh_dist_endpoint` server, the server takes them one at a time, and it may be
terminated at any moment.

Besides the server's state and mailbox a state records what has happened: the
sessions that arrived, the `take_incoming/1` calls the server has taken up, and
its effects in order.  `Handoff.Inv` says where the sessions are; the step
lemmas `post_inv`, `turn_inv` and `finish_inv` keep it, and
`handoff_exactly_once` is what it means for a whole run.
-/
import IrohBeam.Run
import IrohBeam.Server

namespace IrohBeam

open Transition

/-! ### The system -/

/-- The server with its mailbox, and what has happened so far. -/
structure Handoff where
  server : Server
  alive : Bool
  mailbox : List Message
  arrived : List Session
  asked : List Caller
  log : List Effect

/-- A step: some process sends a message, the server takes one turn, or it is
terminated from outside. -/
inductive HandoffAction where
  | post (message : Message)
  | turn (endpointAlive : Bool)
  | stop (endpointAlive : Bool)

/-- The system right after `init/1`. -/
def Handoff.start (server : Server) : Handoff := ⟨server, true, [], [], [], []⟩

/-- The server runs `terminate/2` and is gone. -/
def Handoff.finish (s : Handoff) (endpointAlive : Bool) : Handoff :=
  { s with
    server := { s.server with incoming := [] }
    alive := false
    log := s.log ++ s.server.terminate endpointAlive }

/-- The server handles the message `m`, which was first in its mailbox. -/
def Handoff.handled (s : Handoff) (m : Message) (rest : List Message) : Handoff :=
  { s with
    server := (handle m s.server).1
    mailbox := rest
    asked := s.asked ++ m.taker.toList
    log := s.log ++ (handle m s.server).2.1 }

/-- One step.  Every session has a connection of its own: the acceptor builds
it around the connection it has just accepted. -/
def handoffStep (s : Handoff) : HandoffAction → Option Handoff
  | .post m =>
      if s.alive ∧ m.session.all (fun session => session.connection ∉ s.arrived.map (·.connection))
      then some { s with mailbox := s.mailbox ++ [m], arrived := s.arrived ++ m.session.toList }
      else none
  | .turn endpointAlive =>
      match s.alive, s.mailbox with
      | true, m :: rest =>
          match (handle m s.server).2.2 with
          | none => some (s.handled m rest)
          | some _ => some ((s.handled m rest).finish endpointAlive)
      | _, _ => none
  | .stop endpointAlive => if s.alive then some (s.finish endpointAlive) else none

/-- Sessions sent to the server and not yet taken up. -/
def Handoff.inflight (s : Handoff) : List Session := s.mailbox.filterMap Message.session

/-- Sessions handed to callers, in order. -/
def Handoff.handed (s : Handoff) : List (Caller × Session) := s.log.filterMap Effect.handed

/-- Sessions the server has closed. -/
def Handoff.closed (s : Handoff) : List Session := s.log.filterMap Effect.closed

/-- Callers whose `take_incoming/1` has been answered. -/
def Handoff.answered (s : Handoff) : List Caller := s.log.filterMap Effect.answered

/-! ### What a step does -/

theorem post_cases {s s' : Handoff} {m : Message} (h : handoffStep s (.post m) = some s') :
    s.alive = true ∧
      (∀ session, m.session = some session →
        session.connection ∉ s.arrived.map (·.connection)) ∧
      s' = { s with mailbox := s.mailbox ++ [m], arrived := s.arrived ++ m.session.toList } := by
  simp only [handoffStep] at h
  split at h
  · next hfresh =>
      refine ⟨hfresh.1, ?_, (Option.some.inj h).symm⟩
      intro session hm
      simpa [hm] using hfresh.2
  · cases h

/-- A turn of a live server, by whether the server stops in it. -/
theorem turn_cases {s s' : Handoff} {endpointAlive : Bool}
    (h : handoffStep s (.turn endpointAlive) = some s') :
    s.alive = true ∧ ∃ m rest, s.mailbox = m :: rest ∧
      (s' = s.handled m rest ∨
        (handle m s.server).2.2 ≠ none ∧ s' = (s.handled m rest).finish endpointAlive) := by
  simp only [handoffStep] at h
  split at h
  · next m rest halive hbox =>
      refine ⟨halive, m, rest, hbox, ?_⟩
      split at h
      · exact .inl (Option.some.inj h).symm
      · next hstop => exact .inr ⟨by simp [hstop], (Option.some.inj h).symm⟩
  · cases h

theorem stop_cases {s s' : Handoff} {endpointAlive : Bool}
    (h : handoffStep s (.stop endpointAlive) = some s') :
    s.alive = true ∧ s' = s.finish endpointAlive := by
  simp only [handoffStep] at h
  split at h
  · next halive => exact ⟨halive, (Option.some.inj h).symm⟩
  · cases h

/-! ### The invariant -/

/-- Where the sessions and the calls are. -/
structure Handoff.Inv (s : Handoff) : Prop where
  tidy : s.server.Tidy
  asked : s.asked.Perm (s.answered ++ s.server.waiter.toList)
  places : s.arrived.Perm
    (s.inflight ++ s.server.incoming ++ s.handed.map Prod.snd ++ s.closed)
  order : ∃ taken, s.arrived = taken ++ s.inflight ∧
    (s.handed.map Prod.snd ++ s.server.incoming).Sublist taken
  distinct : (s.arrived.map (·.connection)).Nodup

theorem start_inv {server : Server} (hin : server.incoming = []) (hwaiter : server.waiter = none) :
    (Handoff.start server).Inv where
  tidy := ⟨by simp [Handoff.start, hin], fun _ => hin⟩
  asked := by simp [Handoff.start, Handoff.answered, hwaiter]
  places := by simp [Handoff.start, Handoff.inflight, Handoff.handed, Handoff.closed, hin]
  order := ⟨[], rfl, by simp [Handoff.start, Handoff.handed, hin]⟩
  distinct := by simp [Handoff.start]

/-- Sending a message keeps the invariant. -/
theorem post_inv {s s' : Handoff} {m : Message} (hs : s.Inv)
    (h : handoffStep s (.post m) = some s') : s'.Inv := by
  obtain ⟨-, hfresh, rfl⟩ := post_cases h
  have hin : (s.mailbox ++ [m]).filterMap Message.session = s.inflight ++ m.session.toList := by
    rw [List.filterMap_append]
    cases hm : m.session <;> simp [Handoff.inflight, hm]
  obtain ⟨taken, htaken, hsub⟩ := hs.order
  refine ⟨hs.tidy, hs.asked, ?_, ⟨taken, ?_, hsub⟩, ?_⟩
  · have hp := hs.places
    rw [List.perm_iff_count] at hp ⊢
    intro a
    have ha := hp a
    simp only [Handoff.inflight, hin, List.count_append] at ha ⊢
    simp only [Handoff.handed, Handoff.closed] at ha ⊢
    omega
  · simp only [Handoff.inflight, hin]
    rw [htaken, List.append_assoc]
    rfl
  · cases hm : m.session with
    | none => simpa using hs.distinct
    | some session =>
        simp only [Option.toList_some, List.map_append, List.map_singleton]
        exact List.nodup_append_comm.mp (List.nodup_cons.mpr ⟨hfresh session hm, hs.distinct⟩)

/-- Handling a message keeps the invariant. -/
theorem handled_inv {s : Handoff} {m : Message} {rest : List Message} (hs : s.Inv)
    (hbox : s.mailbox = m :: rest) : (s.handled m rest).Inv := by
  have hcase := handle_case m s.server
  have hin : s.inflight = m.session.toList ++ (s.handled m rest).inflight := by
    simp only [Handoff.inflight, Handoff.handled, hbox]
    cases hm : m.session <;> simp [hm]
  have hhanded : (s.handled m rest).handed =
      s.handed ++ (handle m s.server).2.1.filterMap Effect.handed := List.filterMap_append
  have hclosed : (s.handled m rest).closed =
      s.closed ++ (handle m s.server).2.1.filterMap Effect.closed := List.filterMap_append
  have hanswered : (s.handled m rest).answered =
      s.answered ++ (handle m s.server).2.1.filterMap Effect.answered := List.filterMap_append
  refine ⟨hcase.tidy hs.tidy, ?_, ?_, ?_, hs.distinct⟩
  · -- permutations are compared by counting, which leaves linear arithmetic
    rw [List.perm_iff_count]
    intro x
    have hbefore := hs.asked.count_eq x
    have hturn := hcase.calls.count_eq x
    simp only [hanswered, List.count_append] at hbefore hturn ⊢
    simp only [Handoff.handled, List.count_append] at hbefore hturn ⊢
    omega
  · rw [List.perm_iff_count]
    intro x
    have hbefore := hs.places.count_eq x
    have hturn := hcase.sessions.count_eq x
    simp only [hhanded, hclosed, hin, List.map_append, List.count_append] at hbefore hturn ⊢
    simp only [Handoff.handled] at hbefore hturn ⊢
    omega
  · obtain ⟨taken, htaken, hsub⟩ := hs.order
    refine ⟨taken ++ m.session.toList, ?_, ?_⟩
    · rw [List.append_assoc, ← hin]
      exact htaken
    · have hturn := hcase.order hs.tidy
      rw [hhanded, List.map_append, List.append_assoc]
      refine ((List.Sublist.refl _).append hturn).trans ?_
      rw [← List.append_assoc]
      exact hsub.append (List.Sublist.refl _)

/-- What `terminate/2` does to the sessions. -/
theorem terminate_effects (s : Server) (endpointAlive : Bool) :
    (s.terminate endpointAlive).filterMap Effect.handed = [] ∧
      (s.terminate endpointAlive).filterMap Effect.closed = s.incoming ∧
      (s.terminate endpointAlive).filterMap Effect.answered = [] := by
  cases endpointAlive <;>
    simp [Server.terminate, List.filterMap_append, List.filterMap_map, List.filterMap_cons,
      Function.comp_def]

theorem finish_closed (s : Handoff) (endpointAlive : Bool) :
    (s.finish endpointAlive).closed = s.closed ++ s.server.incoming := by
  rw [Handoff.closed, Handoff.finish, List.filterMap_append,
    (terminate_effects s.server endpointAlive).2.1]
  rfl

theorem finish_handed (s : Handoff) (endpointAlive : Bool) :
    (s.finish endpointAlive).handed = s.handed := by
  rw [Handoff.handed, Handoff.finish, List.filterMap_append,
    (terminate_effects s.server endpointAlive).1, List.append_nil]
  rfl

/-- Termination keeps the invariant. -/
theorem finish_inv {s : Handoff} (hs : s.Inv) (endpointAlive : Bool) :
    (s.finish endpointAlive).Inv := by
  obtain ⟨-, -, ha⟩ := terminate_effects s.server endpointAlive
  have hhanded := finish_handed s endpointAlive
  have hclosed := finish_closed s endpointAlive
  have hanswered : (s.finish endpointAlive).answered = s.answered := by
    rw [Handoff.answered, Handoff.finish, List.filterMap_append, ha, List.append_nil]
    rfl
  obtain ⟨taken, htaken, hsub⟩ := hs.order
  refine ⟨⟨Nat.zero_le _, fun _ => rfl⟩, ?_, ?_, ⟨taken, htaken, ?_⟩, hs.distinct⟩
  · rw [hanswered]
    exact hs.asked
  · rw [List.perm_iff_count]
    intro x
    have hbefore := hs.places.count_eq x
    simp only [hhanded, hclosed, List.count_append] at hbefore ⊢
    simp only [Handoff.finish, Handoff.inflight, List.count_nil] at hbefore ⊢
    omega
  · -- what was queued is closed, so the order is that of the sessions handed over
    show ((s.finish endpointAlive).handed.map Prod.snd ++ []).Sublist taken
    rw [hhanded, List.append_nil]
    exact (List.sublist_append_left _ _).trans hsub

/-! ### Steps and runs -/

/-- Every step keeps the invariant. -/
theorem handoffStep_inv (s : Handoff) (a : HandoffAction) (s' : Handoff) (hs : s.Inv)
    (h : handoffStep s a = some s') : s'.Inv := by
  cases a with
  | post m => exact post_inv hs h
  | turn endpointAlive =>
      obtain ⟨-, m, rest, hbox, rfl | ⟨-, rfl⟩⟩ := turn_cases h
      · exact handled_inv hs hbox
      · exact finish_inv (handled_inv hs hbox) endpointAlive
  | stop endpointAlive =>
      obtain ⟨-, rfl⟩ := stop_cases h
      exact finish_inv hs endpointAlive

/-- A turn in which the server stops does not touch the sessions. -/
theorem handle_stop {m : Message} {s : Server} (h : (handle m s).2.2 ≠ none) :
    (handle m s).1 = s ∧ (handle m s).2.1 = [] := by
  cases m with
  | exit pid reason => exact ⟨rfl, rfl⟩
  | _ => exact absurd rfl h

/-- **Termination closes what is queued**, whatever ends the server. -/
theorem terminated_closed {s s' : Handoff} {a : HandoffAction} (h : handoffStep s a = some s')
    (halive : s.alive = true) (hdead : s'.alive = false) :
    s'.closed = s.closed ++ s.server.incoming ∧ s'.server.incoming = [] := by
  cases a with
  | post m =>
      obtain ⟨-, -, rfl⟩ := post_cases h
      rw [halive] at hdead
      cases hdead
  | turn endpointAlive =>
      obtain ⟨-, m, rest, -, rfl | ⟨hstop, rfl⟩⟩ := turn_cases h
      · rw [Handoff.handled, halive] at hdead
        cases hdead
      · obtain ⟨hserver, hfx⟩ := handle_stop hstop
        rw [finish_closed]
        simp [Handoff.handled, Handoff.closed, Handoff.finish, hserver, hfx]
  | stop endpointAlive =>
      obtain ⟨-, rfl⟩ := stop_cases h
      exact ⟨finish_closed s endpointAlive, rfl⟩

/-- A `take_incoming/1` that the server takes up is answered `busy` exactly
when another caller is waiting. -/
theorem busy_iff {s s' : Handoff} {caller : Caller} {rest : List Message} {endpointAlive : Bool}
    (hbox : s.mailbox = .call .takeIncoming caller :: rest)
    (h : handoffStep s (.turn endpointAlive) = some s') :
    s'.log = s.log ++ [.reply caller (.error .busy)] ↔ ∃ other, s.server.waiter = some other := by
  obtain ⟨-, m, rest', hbox', hs'⟩ := turn_cases h
  obtain ⟨rfl, rfl⟩ := List.cons.inj (hbox'.symm.trans hbox)
  have hlog : s'.log = s.log ++ (handle (.call .takeIncoming caller) s.server).2.1 := by
    rcases hs' with rfl | ⟨hstop, -⟩
    · rfl
    · exact absurd rfl hstop
  rw [hlog, List.append_cancel_left_eq]
  cases hwaiter : s.server.waiter with
  | none =>
      cases hqueue : s.server.incoming <;> simp [handle, handleCall, hwaiter, hqueue]
  | some other => simp [handle, handleCall, hwaiter]

/-- **Incoming sessions are handed over exactly once.**  After any run: at most
one session is queued and none while a caller waits; each call taken up is
answered once or waits, and is told `busy` exactly when another one waits;
every session is in one place, on its way, queued, handed to one caller or
closed; sessions are handed over in order of arrival; and when the server ends
it closes what is queued. -/
theorem handoff_exactly_once (config : Config) (endpoint : Pid) (endpointId : EndpointId)
    (endpointAddr : EndpointAddr) (creation : ℕ) (acceptor : Pid) {as : List HandoffAction}
    {s : Handoff}
    (h : run handoffStep
      (.start (.start config endpoint endpointId endpointAddr creation acceptor)) as = some s) :
    s.server.incoming.length ≤ 1 ∧
    (s.server.waiter ≠ none → s.server.incoming = []) ∧
    s.asked.Perm (s.answered ++ s.server.waiter.toList) ∧
    (∀ caller rest endpointAlive s', s.mailbox = .call .takeIncoming caller :: rest →
      handoffStep s (.turn endpointAlive) = some s' →
      (s'.log = s.log ++ [.reply caller (.error .busy)] ↔
        ∃ other, s.server.waiter = some other)) ∧
    s.arrived.Perm (s.inflight ++ s.server.incoming ++ s.handed.map Prod.snd ++ s.closed) ∧
    (s.inflight ++ s.server.incoming ++ s.handed.map Prod.snd ++ s.closed).Nodup ∧
    (s.handed.map Prod.snd).Sublist s.arrived ∧
    ∀ a s', handoffStep s a = some s' → s.alive = true → s'.alive = false →
      s'.closed = s.closed ++ s.server.incoming ∧ s'.server.incoming = [] := by
  have hinv : s.Inv := run_invariant handoffStep_inv h (start_inv rfl rfl)
  refine ⟨hinv.tidy.queue_le, hinv.tidy.waiter, hinv.asked, ?_, hinv.places, ?_, ?_, ?_⟩
  · intro caller rest endpointAlive s' hbox hstep
    exact busy_iff hbox hstep
  · exact (hinv.places.nodup_iff).mp (List.Nodup.of_map _ hinv.distinct)
  · obtain ⟨taken, htaken, hsub⟩ := hinv.order
    rw [htaken]
    exact ((List.sublist_append_left _ _).trans hsub).trans (List.sublist_append_left _ _)
  · intro a s' hstep halive hdead
    exact terminated_closed hstep halive hdead

/-- A server with one session taken and a second one queued. -/
def sampleHandoff : Option Handoff :=
  run handoffStep (.start (.start sampleConfig 0 samplePeerId ⟨samplePeerId, [], []⟩ 0 1))
    [.post (.incoming (sampleConfig.session 0 0 samplePeerId)), .turn true,
     .post (.call .takeIncoming 7), .turn true,
     .post (.incoming (sampleConfig.session 1 1 samplePeerId)), .turn true]

theorem handoff_exactly_once_sample :
    ∃ s, sampleHandoff = some s ∧ s.handed = [(7, sampleConfig.session 0 0 samplePeerId)] ∧
      s.server.incoming = [sampleConfig.session 1 1 samplePeerId] ∧
      (s.handed.map Prod.snd).Sublist s.arrived := by
  obtain ⟨s, hs⟩ : ∃ s, sampleHandoff = some s := ⟨_, rfl⟩
  have hsafe := handoff_exactly_once _ _ _ _ _ _ hs
  refine ⟨s, hs, ?_, ?_, hsafe.2.2.2.2.2.2.1⟩
  · obtain rfl := Option.some.inj hs
    rfl
  · obtain rfl := Option.some.inj hs
    rfl

end IrohBeam
