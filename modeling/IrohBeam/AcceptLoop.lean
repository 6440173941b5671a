/-
IrohBeam/AcceptLoop.lean

What becomes of an incoming session behind `take_incoming/1`.  The only caller
of it is the accept loop of the distribution (`accept_loop/2` of
`src/iroh_dist.erl`), which waits without a timeout, offers the session to
`net_kernel`, and asks for the next one when the kernel has answered.  The
kernel has a process spawned for the session (`accept_connection/5`), and that
process starts the controller once the loop has told it so (`do_accept/6`).

A `Pipeline` is the server of `IrohBeam/Handoff.lean` with the loop, what is on
its way between the loop and the kernel, and the processes spawned.  The kernel
is not part of the repository: it takes an offer and answers it either way.
None of these processes is killed from outside.

With one caller that never gives up the hand-over is as it was meant: no call
is refused as `busy`, whoever waits is still there, and `accept_pipeline` says
that a session is in one place at any time, from its arrival to the controller
that is started on it.
-/
import IrohBeam.Waiters
import IrohBeam.Ledger

namespace IrohBeam

open Transition Ledger

/-! ### The parties -/

/-- Why the accept loop ends: the kernel supports no such protocol, the call was
refused, or there is no server. -/
inductive LoopEnd where
  | unsupportedProtocol
  | refused
  | noServer
  deriving DecidableEq, Repr

/-- What the accept loop does next. -/
inductive LoopStage where
  | ready
  | asking (caller : Caller)
  | offered (session : Session)
  | ended (reason : LoopEnd)

/-- What the kernel sends back. -/
inductive KernelAnswer where
  | controller (acceptor : ℕ)
  | unsupportedProtocol

/-- How far `do_accept/6` is: it waits for the loop, has its message, or has
started the controller. -/
inductive AcceptorPhase where
  | waiting
  | told
  | started
  deriving DecidableEq, Repr

/-- The system.  `calls` counts the calls made, each of which has a `From` of
its own; `received` is what the loop has got from them, in order, and `closed`
what it has closed. -/
structure Pipeline where
  handoff : Handoff
  loop : LoopStage
  calls : ℕ
  received : List (Caller × Session)
  offers : List Session
  answer : Option KernelAnswer
  acceptors : List (Session × AcceptorPhase)
  closed : List Session

/-- The listener is up, and `accept/1` has spawned the loop. -/
def Pipeline.start (server : Server) : Pipeline :=
  { handoff := .start server, loop := .ready, calls := 0, received := [], offers := []
    answer := none, acceptors := [], closed := [] }

/-! ### Steps -/

/-- A step of the server or of someone who sends to it, of the loop, of the
kernel, or of a spawned process. -/
inductive PipelineAction where
  | server (action : HandoffAction)
  | ask
  | answered
  | down
  | kernel (supported : Bool)
  | told
  | refused
  | startController (acceptor : ℕ)

/-- Nobody else calls `take_incoming/1`. -/
def HandoffAction.others : HandoffAction → Bool
  | .post m => m.taker.isNone
  | _ => true

/-- One step. -/
def pipelineStep (s : Pipeline) : PipelineAction → Option Pipeline
  | .server a =>
      if a.others then (handoffStep s.handoff a).map fun handoff => { s with handoff } else none
  | .ask =>
      match s.loop with
      | .ready =>
          if s.handoff.alive then
            (handoffStep s.handoff (.post (.call .takeIncoming s.calls))).map fun handoff =>
              { s with handoff, loop := .asking s.calls, calls := s.calls + 1 }
          else some { s with loop := .ended .noServer }
      | _ => none
  | .answered =>
      match s.loop with
      | .asking caller =>
          match s.handoff.handed.lookup caller with
          | some session =>
              some { s with
                loop := .offered session
                received := s.received ++ [(caller, session)]
                offers := s.offers ++ [session] }
          | none =>
              if caller ∈ s.handoff.busy then some { s with loop := .ended .refused } else none
      | _ => none
  | .down =>
      match s.loop with
      | .asking caller =>
          if s.handoff.alive = false ∧ caller ∉ s.handoff.answered then
            some { s with loop := .ended .noServer }
          else none
      | _ => none
  | .kernel supported =>
      match s.offers with
      | session :: rest =>
          if supported then
            some { s with
              offers := rest
              acceptors := s.acceptors ++ [(session, .waiting)]
              answer := some (.controller s.acceptors.length) }
          else some { s with offers := rest, answer := some .unsupportedProtocol }
      | [] => none
  | .told =>
      match s.loop, s.answer with
      | .offered _, some (.controller i) =>
          some { s with
            loop := .ready
            answer := none
            acceptors := s.acceptors.modify i fun acceptor => (acceptor.1, .told) }
      | _, _ => none
  | .refused =>
      match s.loop, s.answer with
      | .offered session, some .unsupportedProtocol =>
          some { s with
            loop := .ended .unsupportedProtocol
            answer := none
            closed := s.closed ++ [session] }
      | _, _ => none
  | .startController i =>
      match s.acceptors[i]? with
      | some (session, .told) => some { s with acceptors := s.acceptors.set i (session, .started) }
      | _ => none

/-! ### Where the call is -/

/-- The call the loop is in. -/
def LoopStage.call : LoopStage → List Caller
  | .asking caller => [caller]
  | _ => []

/-- The calls of `take_incoming/1` the server has not answered. -/
def Handoff.open (s : Handoff) : List Caller :=
  s.mailbox.filterMap Message.taker ++ s.server.waiter.toList

/-- The loop's call is in one place: unread, in the `waiter` field, or answered
with a session.  What it has been sent before it has received. -/
structure Pipeline.Asks (s : Pipeline) (untaken : List (Caller × Session)) : Prop where
  handed : s.handoff.handed = s.received ++ untaken
  once : (untaken.map Prod.fst).Sublist s.loop.call
  call : s.handoff.alive = true → s.handoff.open ++ untaken.map Prod.fst = s.loop.call
  past : ∀ entry ∈ s.received, entry.1 < s.calls ∧ entry.1 ∉ s.loop.call
  current : ∀ caller ∈ s.loop.call, caller < s.calls
  busy : s.handoff.busy = []

/-! ### Where the session is -/

/-- What the loop has received is with a spawned process, with the kernel, or
closed.  Only the last of the spawned processes may have had no message. -/
inductive Placed (received : List Session) : LoopStage → List Session → Option KernelAnswer →
    List (Session × AcceptorPhase) → List Session → Prop
  | idle {stage acceptors} : (∀ session, stage ≠ .offered session) →
      received = acceptors.map Prod.fst → (∀ a ∈ acceptors, a.2 ≠ .waiting) →
      Placed received stage [] none acceptors []
  | offered {session acceptors} : received = acceptors.map Prod.fst ++ [session] →
      (∀ a ∈ acceptors, a.2 ≠ .waiting) →
      Placed received (.offered session) [session] none acceptors []
  | spawned {session acceptors} : received = acceptors.map Prod.fst ++ [session] →
      (∀ a ∈ acceptors, a.2 ≠ .waiting) →
      Placed received (.offered session) [] (some (.controller acceptors.length))
        (acceptors ++ [(session, .waiting)]) []
  | refused {session acceptors} : received = acceptors.map Prod.fst ++ [session] →
      (∀ a ∈ acceptors, a.2 ≠ .waiting) →
      Placed received (.offered session) [] (some .unsupportedProtocol) acceptors []
  | closed {session acceptors} : received = acceptors.map Prod.fst ++ [session] →
      (∀ a ∈ acceptors, a.2 ≠ .waiting) →
      Placed received (.ended .unsupportedProtocol) [] none acceptors [session]

/-- The invariant. -/
structure Pipeline.Inv (s : Pipeline) : Prop where
  handoff : s.handoff.Inv
  asks : ∃ untaken, s.Asks untaken
  placed : Placed (s.received.map Prod.snd) s.loop s.offers s.answer s.acceptors s.closed

theorem pipelineStart_inv {server : Server} (hin : server.incoming = [])
    (hwaiter : server.waiter = none) : (Pipeline.start server).Inv where
  handoff := start_inv hin hwaiter
  asks := by
    refine ⟨[], rfl, List.nil_sublist _, fun _ => ?_, by simp [Pipeline.start],
      by simp [Pipeline.start, LoopStage.call], rfl⟩
    simp [Pipeline.start, Handoff.start, Handoff.open, hwaiter, LoopStage.call]
  placed := .idle (fun _ => LoopStage.noConfusion) rfl (by simp [Pipeline.start])

/-! ### Steps of the server -/

theorem call_length (stage : LoopStage) : stage.call.length ≤ 1 := by
  cases stage <;> simp [LoopStage.call]

/-- With one call at a time nobody is refused, and what is answered is that call. -/
theorem HandoffCase.sole {s s' : Server} {m : Message} {fx : List Effect}
    (h : HandoffCase s m s' fx) {takers calls untaken : List Caller} (hcalls : calls.length ≤ 1)
    (hopen : m.taker.toList ++ takers ++ s.waiter.toList ++ untaken = calls) :
    takers ++ s'.waiter.toList ++ (untaken ++ (fx.filterMap Effect.handed).map Prod.fst) = calls ∧
      fx.filterMap Effect.busy = [] := by
  have hbusy := h.busy_eq
  subst hopen
  simp only [List.length_append] at hcalls
  cases h with
  | frame hsession htaker hin hwaiter hfx =>
      refine ⟨?_, by rw [hbusy, htaker]; rfl⟩
      rw [htaker, hwaiter, (filterMap_inert hfx).1, List.map_nil, List.append_nil]
      rfl
  | @take caller session _ hwaiter hin hwaiter' =>
      have hcaller : (Message.call .takeIncoming caller).taker.toList.length = 1 := rfl
      rw [hcaller] at hcalls
      obtain rfl : takers = [] := List.length_eq_zero_iff.mp (by omega)
      obtain rfl : untaken = [] := List.length_eq_zero_iff.mp (by omega)
      refine ⟨?_, by rw [hbusy, hwaiter]; rfl⟩
      rw [hwaiter, hwaiter']
      rfl
  | @wait caller _ hwaiter hin hin' hwaiter' =>
      have hcaller : (Message.call .takeIncoming caller).taker.toList.length = 1 := rfl
      rw [hcaller] at hcalls
      obtain rfl : takers = [] := List.length_eq_zero_iff.mp (by omega)
      refine ⟨?_, by rw [hbusy, hwaiter]; rfl⟩
      rw [hwaiter, hwaiter', List.filterMap_nil, List.map_nil, List.append_nil]
      rfl
  | @busy caller other hwaiter =>
      -- two calls at a time
      rw [hwaiter] at hcalls
      change 1 + takers.length + 1 + untaken.length ≤ 1 at hcalls
      omega
  | enqueue hwaiter hin hin' hwaiter' =>
      refine ⟨?_, rfl⟩
      rw [hwaiter, hwaiter', List.filterMap_nil, List.map_nil, List.append_nil]
      rfl
  | refuse hwaiter hin =>
      refine ⟨?_, rfl⟩
      show takers ++ s.waiter.toList ++ (untaken ++ []) = _
      rw [List.append_nil]
      rfl
  | @hand session caller _ hwaiter hin' hwaiter' =>
      rw [hwaiter] at hcalls
      change 0 + takers.length + 1 + untaken.length ≤ 1 at hcalls
      obtain rfl : takers = [] := List.length_eq_zero_iff.mp (by omega)
      obtain rfl : untaken = [] := List.length_eq_zero_iff.mp (by omega)
      refine ⟨?_, rfl⟩
      rw [hwaiter, hwaiter']
      rfl

/-- The server handles a message. -/
theorem handled_asks {s : Pipeline} {untaken : List (Caller × Session)} (hs : s.Asks untaken)
    (halive : s.handoff.alive = true) {m : Message} {rest : List Message}
    (hbox : s.handoff.mailbox = m :: rest) :
    ∃ untaken', Pipeline.Asks { s with handoff := s.handoff.handled m rest } untaken' := by
  have hopen : m.taker.toList ++ rest.filterMap Message.taker ++
      s.handoff.server.waiter.toList ++ untaken.map Prod.fst = s.loop.call := by
    have hcall := hs.call halive
    rw [Handoff.open, hbox] at hcall
    rw [← hcall]
    cases hm : m.taker <;> simp [hm]
  obtain ⟨hcall, hbusy⟩ := (handle_case m s.handoff.server).sole (call_length s.loop) hopen
  refine ⟨untaken ++ (handle m s.handoff.server).2.1.filterMap Effect.handed, ?_, ?_, ?_, hs.past,
    hs.current, ?_⟩
  · show (s.handoff.log ++ _).filterMap Effect.handed = _
    rw [List.filterMap_append, ← List.append_assoc, ← hs.handed]
    rfl
  · rw [← hcall, List.map_append]
    exact List.sublist_append_right _ _
  · intro _
    rw [List.map_append]
    exact hcall
  · show (s.handoff.log ++ _).filterMap Effect.busy = _
    rw [List.filterMap_append, hbusy, List.append_nil]
    exact hs.busy

/-- The server ends. -/
theorem finish_asks {s : Pipeline} {untaken : List (Caller × Session)} (hs : s.Asks untaken)
    (endpointAlive : Bool) :
    Pipeline.Asks { s with handoff := s.handoff.finish endpointAlive } untaken := by
  refine ⟨?_, hs.once, fun halive => (by cases halive), hs.past, hs.current, ?_⟩
  · show (s.handoff.finish endpointAlive).handed = _
    rw [finish_handed]
    exact hs.handed
  · show (s.handoff.finish endpointAlive).busy = _
    rw [finish_busy]
    exact hs.busy

/-- A step of the server, or of another process that sends to it. -/
theorem server_asks {s : Pipeline} {handoff : Handoff} {a : HandoffAction}
    {untaken : List (Caller × Session)} (hs : s.Asks untaken) (hothers : a.others = true)
    (h : handoffStep s.handoff a = some handoff) :
    ∃ untaken', Pipeline.Asks { s with handoff } untaken' := by
  cases a with
  | post m =>
      obtain ⟨-, -, rfl⟩ := post_cases h
      have hm : m.taker = none := Option.isNone_iff_eq_none.mp hothers
      refine ⟨untaken, hs.handed, hs.once, fun halive => ?_, hs.past, hs.current, hs.busy⟩
      show (s.handoff.mailbox ++ [m]).filterMap Message.taker ++ _ ++ _ = _
      rw [List.filterMap_append, List.filterMap_cons_none hm, List.filterMap_nil, List.append_nil]
      exact hs.call halive
  | turn endpointAlive =>
      obtain ⟨halive, m, rest, hbox, rfl | ⟨-, rfl⟩⟩ := turn_cases h
      · exact handled_asks hs halive hbox
      · obtain ⟨untaken', hs'⟩ := handled_asks hs halive hbox
        exact ⟨untaken', finish_asks hs' endpointAlive⟩
  | stop endpointAlive =>
      obtain ⟨-, rfl⟩ := stop_cases h
      exact ⟨untaken, finish_asks hs endpointAlive⟩

/-! ### Steps of the loop -/

/-- While the loop is in no call it has received all it was sent. -/
theorem Pipeline.Asks.nothing {s : Pipeline} {untaken : List (Caller × Session)}
    (hs : s.Asks untaken) (hcall : s.loop.call = []) : untaken = [] := by
  have honce := hs.once
  rw [hcall] at honce
  exact List.map_eq_nil_iff.mp (List.sublist_nil.mp honce)

/-- The loop calls `take_incoming/1`. -/
theorem ask_asks {s : Pipeline} {handoff : Handoff} (hs : ∃ untaken, s.Asks untaken)
    (hloop : s.loop = .ready)
    (h : handoffStep s.handoff (.post (.call .takeIncoming s.calls)) = some handoff) :
    ∃ untaken, Pipeline.Asks
      { s with handoff, loop := .asking s.calls, calls := s.calls + 1 } untaken := by
  obtain ⟨untaken, hs⟩ := hs
  obtain ⟨halive, -, rfl⟩ := post_cases h
  obtain rfl := hs.nothing (by rw [hloop]; rfl)
  have hopen : s.handoff.open = [] := by
    have hcall := hs.call halive
    rwa [hloop, List.map_nil, List.append_nil] at hcall
  obtain ⟨htakers, hwaiter⟩ := List.append_eq_nil_iff.mp hopen
  refine ⟨[], hs.handed, List.nil_sublist _, fun _ => ?_, ?_, ?_, hs.busy⟩
  · show (s.handoff.mailbox ++ [_]).filterMap Message.taker ++ _ ++ _ = _
    rw [List.filterMap_append, htakers, hwaiter]
    rfl
  · intro entry hentry
    obtain ⟨hlt, -⟩ := hs.past entry hentry
    exact ⟨Nat.lt_succ_of_lt hlt, fun hmem => hlt.ne (List.mem_singleton.mp hmem)⟩
  · intro caller hcaller
    rw [List.mem_singleton.mp hcaller]
    exact Nat.lt_succ_self _

/-- The loop gets the answer to its call. -/
theorem answered_asks {s : Pipeline} {caller : Caller} {session : Session}
    (hs : ∃ untaken, s.Asks untaken) (hloop : s.loop = .asking caller)
    (hlookup : s.handoff.handed.lookup caller = some session) :
    ∃ untaken, Pipeline.Asks
      { s with
        loop := .offered session
        received := s.received ++ [(caller, session)]
        offers := s.offers ++ [session] } untaken := by
  obtain ⟨untaken, hs⟩ := hs
  have hcalls : s.loop.call = [caller] := by rw [hloop]; rfl
  have hold : s.received.lookup caller = none := by
    rw [List.lookup_eq_none_iff]
    intro entry hentry
    have hne := (hs.past entry hentry).2
    rw [hcalls] at hne
    rw [bne_iff_ne]
    exact fun heq => hne (heq ▸ List.mem_singleton_self _)
  rw [hs.handed, List.lookup_append, hold, Option.none_or] at hlookup
  obtain ⟨rest, hrest⟩ : ∃ rest, untaken = (caller, session) :: rest := by
    have honce := hs.once
    rw [hcalls] at honce
    cases untaken with
    | nil => cases hlookup
    | cons entry rest =>
        obtain ⟨caller', session'⟩ := entry
        obtain rfl : caller' = caller := List.mem_singleton.mp (honce.subset List.mem_cons_self)
        rw [List.lookup_cons_self] at hlookup
        exact ⟨rest, by rw [Option.some.inj hlookup]⟩
  obtain rfl : rest = [] := by
    have hlength := hs.once.length_le
    rw [hrest, hcalls] at hlength
    exact List.length_eq_zero_iff.mp (by simpa using hlength)
  refine ⟨[], ?_, List.nil_sublist _, fun halive => ?_, ?_, fun c hc => (by cases hc), hs.busy⟩
  · rw [hs.handed, hrest, List.append_nil]
  · have hcall := hs.call halive
    rw [hrest, hcalls] at hcall
    have hopen : s.handoff.open = [] := List.append_left_eq_self.mp hcall
    show s.handoff.open ++ [] = []
    rw [hopen]
    rfl
  · intro entry hentry
    refine ⟨?_, List.not_mem_nil⟩
    rcases List.mem_append.mp hentry with hentry | hentry
    · exact (hs.past entry hentry).1
    · rw [List.mem_singleton.mp hentry]
      exact hs.current caller (by rw [hcalls]; exact List.mem_singleton_self _)

/-- What is handed to a caller answers its call. -/
theorem answered_of_handed {s : Handoff} {entry : Caller × Session} (h : entry ∈ s.handed) :
    entry.1 ∈ s.answered := by
  obtain ⟨e, he, hhanded⟩ := List.mem_filterMap.mp h
  refine List.mem_filterMap.mpr ⟨e, he, ?_⟩
  cases e with
  | reply caller reply =>
      cases reply with
      | session session =>
          obtain rfl := Option.some.inj hhanded
          rfl
      | _ => cases hhanded
  | _ => cases hhanded

/-- The loop leaves its call, because the server is gone. -/
theorem down_asks {s : Pipeline} {loop : LoopStage} (hs : ∃ untaken, s.Asks untaken)
    (hdead : s.handoff.alive = false) (hcall : loop.call = [])
    (hanswered : ∀ caller ∈ s.loop.call, caller ∉ s.handoff.answered) :
    ∃ untaken, Pipeline.Asks { s with loop } untaken := by
  obtain ⟨untaken, hs⟩ := hs
  obtain rfl : untaken = [] := by
    rw [List.eq_nil_iff_forall_not_mem]
    intro entry hentry
    have hhanded : entry ∈ s.handoff.handed := by
      rw [hs.handed]
      exact List.mem_append_right _ hentry
    exact hanswered entry.1 (hs.once.subset (List.mem_map_of_mem hentry))
      (answered_of_handed hhanded)
  refine ⟨[], hs.handed, List.nil_sublist _, fun halive => ?_, ?_, ?_, hs.busy⟩
  · rw [hdead] at halive
    cases halive
  · intro entry hentry
    exact ⟨(hs.past entry hentry).1, by rw [hcall]; exact List.not_mem_nil⟩
  · intro caller hcaller
    rw [hcall] at hcaller
    cases hcaller

/-- A step that leaves the calls. -/
theorem Pipeline.Asks.congr {s s' : Pipeline} (hs : ∃ untaken, s.Asks untaken)
    (hhandoff : s'.handoff = s.handoff) (hcall : s'.loop.call = s.loop.call)
    (hcalls : s'.calls = s.calls) (hreceived : s'.received = s.received) :
    ∃ untaken, s'.Asks untaken := by
  obtain ⟨untaken, hs⟩ := hs
  refine ⟨untaken, ?_, ?_, ?_, ?_, ?_, ?_⟩
  · rw [hhandoff, hreceived]
    exact hs.handed
  · rw [hcall]
    exact hs.once
  · rw [hhandoff, hcall]
    exact hs.call
  · rw [hreceived, hcalls, hcall]
    exact hs.past
  · rw [hcall, hcalls]
    exact hs.current
  · rw [hhandoff]
    exact hs.busy

/-! ### Steps behind the loop -/

/-- A process starts its controller. -/
theorem Placed.start {received offers closed : List Session} {loop : LoopStage}
    {answer : Option KernelAnswer} {acceptors : List (Session × AcceptorPhase)} {i : ℕ}
    {session : Session} (h : Placed received loop offers answer acceptors closed)
    (hget : acceptors[i]? = some (session, .told)) :
    Placed received loop offers answer (acceptors.set i (session, .started)) closed := by
  -- what a process goes by and what it has had stay the same
  have hset : ∀ {l : List (Session × AcceptorPhase)}, l[i]? = some (session, .told) →
      (∀ a ∈ l, a.2 ≠ .waiting) →
      (l.set i (session, .started)).map Prod.fst = l.map Prod.fst ∧
        ∀ a ∈ l.set i (session, .started), a.2 ≠ .waiting := by
    intro l hl hphase
    exact ⟨map_set_of_eq hl rfl, forall_set hphase AcceptorPhase.noConfusion⟩
  cases h with
  | idle hstage hreceived hphase =>
      obtain ⟨hmap, hphase'⟩ := hset hget hphase
      exact .idle hstage (by rw [hmap, hreceived]) hphase'
  | offered hreceived hphase =>
      obtain ⟨hmap, hphase'⟩ := hset hget hphase
      exact .offered (by rw [hmap, hreceived]) hphase'
  | @spawned session' acceptors hreceived hphase =>
      have hlt : i < acceptors.length := by
        by_contra hge
        rw [List.getElem?_append_right (Nat.le_of_not_lt hge)] at hget
        have hmem := List.mem_of_getElem? hget
        cases List.mem_singleton.mp hmem
      rw [List.getElem?_append_left hlt] at hget
      obtain ⟨hmap, hphase'⟩ := hset hget hphase
      rw [List.set_append_left _ _ hlt]
      have hspawned := @Placed.spawned received session' _ (by rw [hmap, hreceived]) hphase'
      rwa [List.length_set] at hspawned
  | refused hreceived hphase =>
      obtain ⟨hmap, hphase'⟩ := hset hget hphase
      exact .refused (by rw [hmap, hreceived]) hphase'
  | closed hreceived hphase =>
      obtain ⟨hmap, hphase'⟩ := hset hget hphase
      exact .closed (by rw [hmap, hreceived]) hphase'

/-- A loop that has offered nothing has nothing of its own. -/
theorem Placed.idle_of {received offers closed : List Session} {loop : LoopStage}
    {answer : Option KernelAnswer} {acceptors : List (Session × AcceptorPhase)}
    (h : Placed received loop offers answer acceptors closed)
    (hloop : loop = .ready ∨ ∃ caller, loop = .asking caller) :
    offers = [] ∧ answer = none ∧ closed = [] ∧ received = acceptors.map Prod.fst ∧
      ∀ a ∈ acceptors, a.2 ≠ .waiting := by
  cases h with
  | idle hstage hreceived hphase => exact ⟨rfl, rfl, rfl, hreceived, hphase⟩
  | _ => rcases hloop with hloop | ⟨caller, hloop⟩ <;> cases hloop

/-- The kernel has an offer to take. -/
theorem Placed.offered_of {received rest closed : List Session} {session : Session}
    {loop : LoopStage} {answer : Option KernelAnswer} {acceptors : List (Session × AcceptorPhase)}
    (h : Placed received loop (session :: rest) answer acceptors closed) :
    loop = .offered session ∧ rest = [] ∧ closed = [] ∧
      received = acceptors.map Prod.fst ++ [session] ∧ ∀ a ∈ acceptors, a.2 ≠ .waiting := by
  cases h with
  | offered hreceived hphase => exact ⟨rfl, rfl, rfl, hreceived, hphase⟩

/-- The kernel has spawned a process. -/
theorem Placed.spawned_of {received offers closed : List Session} {session : Session} {i : ℕ}
    {acceptors : List (Session × AcceptorPhase)}
    (h : Placed received (.offered session) offers (some (.controller i)) acceptors closed) :
    ∃ before, offers = [] ∧ closed = [] ∧ i = before.length ∧
      acceptors = before ++ [(session, .waiting)] ∧
      received = before.map Prod.fst ++ [session] ∧ ∀ a ∈ before, a.2 ≠ .waiting := by
  cases h with
  | spawned hreceived hphase => exact ⟨_, rfl, rfl, rfl, rfl, hreceived, hphase⟩

/-- The kernel has refused. -/
theorem Placed.refused_of {received offers closed : List Session} {session : Session}
    {acceptors : List (Session × AcceptorPhase)}
    (h : Placed received (.offered session) offers (some .unsupportedProtocol) acceptors closed) :
    offers = [] ∧ closed = [] ∧ received = acceptors.map Prod.fst ++ [session] ∧
      ∀ a ∈ acceptors, a.2 ≠ .waiting := by
  cases h with
  | refused hreceived hphase => exact ⟨rfl, rfl, hreceived, hphase⟩

theorem modify_last {α : Type*} (l : List α) (x : α) (f : α → α) :
    (l ++ [x]).modify l.length f = l ++ [f x] := by
  induction l with
  | nil => rfl
  | cons y l ih =>
      show y :: (l ++ [x]).modify l.length f = _
      rw [ih]
      rfl

/-- **The step lemma**: every step keeps the invariant. -/
theorem pipelineStep_inv (s : Pipeline) (a : PipelineAction) (s' : Pipeline) (hs : s.Inv)
    (h : pipelineStep s a = some s') : s'.Inv := by
  obtain ⟨hhandoff, hasks, hplaced⟩ := hs
  cases a with
  | server a =>
      simp only [pipelineStep] at h
      split at h
      · next hothers =>
          obtain ⟨handoff, hstep, rfl⟩ := Option.map_eq_some_iff.mp h
          obtain ⟨untaken, hasks⟩ := hasks
          exact ⟨handoffStep_inv _ _ _ hhandoff hstep, server_asks hasks hothers hstep, hplaced⟩
      · cases h
  | ask =>
      simp only [pipelineStep] at h
      split at h
      · next hloop =>
          obtain ⟨hoffers, hanswer, hclosed, hreceived, hphase⟩ := hplaced.idle_of (.inl hloop)
          split at h
          · obtain ⟨handoff, hstep, rfl⟩ := Option.map_eq_some_iff.mp h
            refine ⟨handoffStep_inv _ _ _ hhandoff hstep, ask_asks hasks hloop hstep, ?_⟩
            show Placed _ _ s.offers s.answer _ s.closed
            rw [hoffers, hanswer, hclosed]
            exact .idle (fun _ => LoopStage.noConfusion) hreceived hphase
          · next hdead =>
              obtain rfl := Option.some.inj h
              refine ⟨hhandoff, down_asks hasks (Bool.eq_false_iff.mpr hdead) rfl ?_, ?_⟩
              · rw [hloop]
                exact fun caller hcaller => (by cases hcaller)
              · show Placed _ _ s.offers s.answer _ s.closed
                rw [hoffers, hanswer, hclosed]
                exact .idle (fun _ => LoopStage.noConfusion) hreceived hphase
      · cases h
  | answered =>
      simp only [pipelineStep] at h
      split at h
      · next caller hloop =>
          split at h
          · next session hlookup =>
              obtain rfl := Option.some.inj h
              obtain ⟨hoffers, hanswer, hclosed, hreceived, hphase⟩ :=
                hplaced.idle_of (.inr ⟨caller, hloop⟩)
              refine ⟨hhandoff, answered_asks hasks hloop hlookup, ?_⟩
              show Placed ((s.received ++ [(caller, session)]).map Prod.snd) _
                (s.offers ++ [session]) s.answer _ s.closed
              rw [hoffers, hanswer, hclosed]
              refine .offered ?_ hphase
              rw [List.map_append, hreceived]
              rfl
          · split at h
            · next hbusy =>
                -- no call is refused
                obtain ⟨untaken, hasks⟩ := hasks
                rw [hasks.busy] at hbusy
                cases hbusy
            · cases h
      · cases h
  | down =>
      simp only [pipelineStep] at h
      split at h
      · next caller hloop =>
          split at h
          · next hdown =>
              obtain rfl := Option.some.inj h
              obtain ⟨hoffers, hanswer, hclosed, hreceived, hphase⟩ :=
                hplaced.idle_of (.inr ⟨caller, hloop⟩)
              refine ⟨hhandoff, down_asks hasks hdown.1 rfl ?_, ?_⟩
              · rw [hloop]
                intro caller' hcaller
                rw [List.mem_singleton.mp hcaller]
                exact hdown.2
              · show Placed _ _ s.offers s.answer _ s.closed
                rw [hoffers, hanswer, hclosed]
                exact .idle (fun _ => LoopStage.noConfusion) hreceived hphase
          · cases h
      · cases h
  | kernel supported =>
      simp only [pipelineStep] at h
      split at h
      · next session rest hoffers =>
          rw [hoffers] at hplaced
          obtain ⟨hloop, rfl, hclosed, hreceived, hphase⟩ := hplaced.offered_of
          have hcall : s.loop.call = [] := by rw [hloop]; rfl
          split at h
          · obtain rfl := Option.some.inj h
            refine ⟨hhandoff, Pipeline.Asks.congr hasks rfl rfl rfl rfl, ?_⟩
            show Placed _ s.loop _ _ _ s.closed
            rw [hloop, hclosed]
            exact .spawned hreceived hphase
          · obtain rfl := Option.some.inj h
            refine ⟨hhandoff, Pipeline.Asks.congr hasks rfl rfl rfl rfl, ?_⟩
            show Placed _ s.loop _ _ _ s.closed
            rw [hloop, hclosed]
            exact .refused hreceived hphase
      · cases h
  | told =>
      simp only [pipelineStep] at h
      split at h
      · next session i hloop hanswer =>
          obtain rfl := Option.some.inj h
          rw [hloop, hanswer] at hplaced
          obtain ⟨before, hoffers, hclosed, rfl, hacceptors, hreceived, hphase⟩ :=
            hplaced.spawned_of
          refine ⟨hhandoff, Pipeline.Asks.congr hasks rfl (by rw [hloop]; rfl) rfl rfl, ?_⟩
          show Placed _ _ s.offers _ (s.acceptors.modify _ _) s.closed
          rw [hoffers, hclosed, hacceptors, modify_last]
          refine .idle (fun _ => LoopStage.noConfusion) ?_ ?_
          · rw [hreceived, List.map_append]
            rfl
          · intro a ha
            rcases List.mem_append.mp ha with ha | ha
            · exact hphase a ha
            · rw [List.mem_singleton.mp ha]
              exact AcceptorPhase.noConfusion
      · cases h
  | refused =>
      simp only [pipelineStep] at h
      split at h
      · next session hloop hanswer =>
          obtain rfl := Option.some.inj h
          rw [hloop, hanswer] at hplaced
          obtain ⟨hoffers, hclosed, hreceived, hphase⟩ := hplaced.refused_of
          refine ⟨hhandoff, Pipeline.Asks.congr hasks rfl (by rw [hloop]; rfl) rfl rfl, ?_⟩
          show Placed _ _ s.offers _ _ (s.closed ++ [session])
          rw [hoffers, hclosed]
          exact .closed hreceived hphase
      · cases h
  | startController i =>
      simp only [pipelineStep] at h
      split at h
      · next session hget =>
          obtain rfl := Option.some.inj h
          exact ⟨hhandoff, Pipeline.Asks.congr hasks rfl rfl rfl rfl, hplaced.start hget⟩
      · cases h

/-! ### Runs -/

/-- The session the kernel has refused, until the loop closes it. -/
def refusing : LoopStage → Option KernelAnswer → List Session
  | .offered session, some .unsupportedProtocol => [session]
  | _, _ => []

/-- The sessions sent to the loop that it has not received. -/
def Pipeline.untaken (s : Pipeline) : List Session :=
  (s.handoff.handed.drop s.received.length).map Prod.snd

/-- The sessions in the hands of the loop and the kernel. -/
def Pipeline.between (s : Pipeline) : List Session :=
  s.untaken ++ s.offers ++ refusing s.loop s.answer

/-- What the pipeline does with the sessions that arrive. -/
structure Pipeline.Custody (s : Pipeline) : Prop where
  /-- A session is in one place at any time. -/
  places : s.handoff.arrived.Perm (s.handoff.inflight ++ s.handoff.server.incoming ++ s.between ++
    s.acceptors.map Prod.fst ++ s.closed ++ s.handoff.closed)
  distinct : s.handoff.arrived.Nodup
  order : (s.acceptors.map Prod.fst).Sublist s.handoff.arrived
  /-- One session at a time is between the queue and a process that may start. -/
  single : s.between.length + s.acceptors.countP (fun a => a.2 = .waiting) ≤ 1
  busy : s.handoff.busy = []
  /-- Whoever waits is there. -/
  waiter : s.handoff.alive = true → ∀ caller, s.handoff.server.waiter = some caller →
    s.loop = .asking caller
  /-- A session is queued only while the loop has another, or its call is unread. -/
  queued : s.handoff.alive = true → s.handoff.server.incoming ≠ [] → ∀ caller,
    s.loop = .asking caller → s.untaken ≠ [] ∨ .call .takeIncoming caller ∈ s.handoff.mailbox
  /-- A loop that ends leaves nothing behind. -/
  ended : ∀ reason, s.loop = .ended reason →
    s.between = [] ∧ ∀ a ∈ s.acceptors, a.2 ≠ .waiting

/-- What the loop has received, by where it is. -/
theorem Placed.received_eq {received offers closed : List Session} {loop : LoopStage}
    {answer : Option KernelAnswer} {acceptors : List (Session × AcceptorPhase)}
    (h : Placed received loop offers answer acceptors closed) :
    received = acceptors.map Prod.fst ++ (offers ++ refusing loop answer) ++ closed := by
  cases h with
  | idle hstage hreceived _ =>
      have hnone : refusing loop none = [] := by cases loop <;> rfl
      rw [hreceived, hnone]
      simp
  | spawned hreceived _ => simp [hreceived, refusing]
  | _ hreceived _ => simp [hreceived, refusing]

theorem Placed.single {received offers closed : List Session} {loop : LoopStage}
    {answer : Option KernelAnswer} {acceptors : List (Session × AcceptorPhase)}
    (h : Placed received loop offers answer acceptors closed) :
    (offers ++ refusing loop answer).length + acceptors.countP (fun a => a.2 = .waiting) +
      loop.call.length ≤ 1 := by
  have hcount : ∀ {l : List (Session × AcceptorPhase)}, (∀ a ∈ l, a.2 ≠ .waiting) →
      l.countP (fun a => a.2 = .waiting) = 0 := by
    intro l hl
    rw [List.countP_eq_zero]
    intro a ha
    simpa using hl a ha
  cases h with
  | idle hstage _ hphase =>
      have hnone : refusing loop none = [] := by cases loop <;> rfl
      rw [hcount hphase, hnone]
      simpa using call_length loop
  | spawned _ hphase =>
      rw [List.countP_append, hcount hphase]
      simp [refusing, LoopStage.call]
  | _ _ hphase =>
      rw [hcount hphase]
      simp [refusing, LoopStage.call]

/-- A loop that has ended has nothing to hand on. -/
theorem Placed.ended {received offers closed : List Session} {reason : LoopEnd}
    {answer : Option KernelAnswer} {acceptors : List (Session × AcceptorPhase)}
    (h : Placed received (.ended reason) offers answer acceptors closed) :
    offers = [] ∧ ∀ a ∈ acceptors, a.2 ≠ .waiting := by
  cases h with
  | idle _ _ hphase => exact ⟨rfl, hphase⟩
  | closed _ hphase => exact ⟨rfl, hphase⟩

theorem Pipeline.Inv.custody {s : Pipeline} (hs : s.Inv) : s.Custody := by
  obtain ⟨hhandoff, ⟨untaken, hasks⟩, hplaced⟩ := hs
  have huntaken : s.untaken = untaken.map Prod.snd := by
    rw [Pipeline.untaken, hasks.handed, List.drop_left]
  have hsessions : s.handoff.handed.map Prod.snd = s.acceptors.map Prod.fst ++
      (s.offers ++ refusing s.loop s.answer) ++ s.closed ++ s.untaken := by
    rw [hasks.handed, List.map_append, hplaced.received_eq, huntaken]
  refine ⟨?_, hhandoff.distinct.of_map _, ?_, ?_, hasks.busy, ?_, ?_, ?_⟩
  · have hplaces := hhandoff.places
    rw [hsessions] at hplaces
    rw [List.perm_iff_count] at hplaces ⊢
    intro session
    have hcount := hplaces session
    simp only [Pipeline.between, List.count_append] at hcount ⊢
    omega
  · obtain ⟨taken, htaken, hsub⟩ := hhandoff.order
    rw [hsessions] at hsub
    have hfront : (s.acceptors.map Prod.fst).Sublist taken := by
      refine List.Sublist.trans ?_ hsub
      simp only [List.append_assoc]
      exact List.sublist_append_left _ _
    rw [htaken]
    exact hfront.trans (List.sublist_append_left _ _)
  · have hlength := hasks.once.length_le
    have hsingle := hplaced.single
    rw [List.length_map] at hlength
    rw [Pipeline.between, huntaken, List.append_assoc, List.length_append, List.length_map]
    omega
  · intro halive caller hwaiter
    have hcall := hasks.call halive
    rw [Handoff.open, hwaiter] at hcall
    have hmem : caller ∈ s.loop.call := by
      rw [← hcall]
      simp
    cases hloop : s.loop with
    | asking caller' =>
        rw [hloop] at hmem
        rw [List.mem_singleton.mp hmem]
    | _ =>
        rw [hloop] at hmem
        cases hmem
  · intro halive hqueue caller hloop
    have hcall := hasks.call halive
    have hwaiter : s.handoff.server.waiter = none := by
      by_contra hne
      exact hqueue (hhandoff.tidy.waiter hne)
    rw [Handoff.open, hwaiter, hloop, Option.toList_none, List.append_nil] at hcall
    have hmem : caller ∈ s.handoff.mailbox.filterMap Message.taker ++ untaken.map Prod.fst := by
      rw [hcall]
      exact List.mem_singleton_self _
    rcases List.mem_append.mp hmem with hmem | hmem
    · right
      obtain ⟨m, hm, htaker⟩ := List.mem_filterMap.mp hmem
      rcases event_cases m with ⟨session, rfl⟩ | ⟨caller', rfl⟩ | ⟨-, -, hnone⟩
      · cases htaker
      · obtain rfl := Option.some.inj htaker
        exact hm
      · rw [hnone] at htaker
        cases htaker
    · left
      rw [huntaken]
      intro hnil
      rw [List.map_eq_nil_iff.mp hnil] at hmem
      cases hmem
  · intro reason hloop
    rw [hloop] at hplaced
    obtain ⟨hoffers, hphase⟩ := hplaced.ended
    refine ⟨?_, hphase⟩
    rw [Pipeline.between, huntaken, hasks.nothing (by rw [hloop]; rfl), hoffers, hloop]
    rfl

/-- **Every incoming session gets to a process of its own or is closed**, in
every run of the server with its accept loop and the kernel. -/
theorem accept_pipeline (config : Config) (endpoint : Pid) (endpointId : EndpointId)
    (endpointAddr : EndpointAddr) (creation : ℕ) (acceptor : Pid) {as : List PipelineAction}
    {s : Pipeline}
    (h : run pipelineStep
      (.start (.start config endpoint endpointId endpointAddr creation acceptor)) as = some s) :
    s.Custody :=
  (run_invariant pipelineStep_inv h (pipelineStart_inv rfl rfl)).custody

def samplePipeline : Pipeline :=
  .start (.start sampleConfig 0 samplePeerId ⟨samplePeerId, [], []⟩ 0 1)

/-- The first session gets to its controller while the second one is queued and
the third one closed. -/
def sampleAccepts : List PipelineAction :=
  [.ask, .server (.turn true), .server (.post (.incoming (sampleConfig.session 0 0 samplePeerId))),
    .server (.turn true), .answered, .kernel true,
    .server (.post (.incoming (sampleConfig.session 1 1 samplePeerId))), .server (.turn true),
    .server (.post (.incoming (sampleConfig.session 2 2 samplePeerId))), .server (.turn true),
    .told, .startController 0]

theorem accept_pipeline_sample :
    ∃ s, run pipelineStep samplePipeline sampleAccepts = some s ∧
      s.acceptors = [(sampleConfig.session 0 0 samplePeerId, .started)] ∧
      s.handoff.server.incoming = [sampleConfig.session 1 1 samplePeerId] ∧
      s.handoff.closed = [sampleConfig.session 2 2 samplePeerId] ∧ s.Custody := by
  obtain ⟨s, hrun, hacceptors, hqueue, hclosed⟩ :
      ∃ s, run pipelineStep samplePipeline sampleAccepts = some s ∧
        s.acceptors = [(sampleConfig.session 0 0 samplePeerId, .started)] ∧
        s.handoff.server.incoming = [sampleConfig.session 1 1 samplePeerId] ∧
        s.handoff.closed = [sampleConfig.session 2 2 samplePeerId] :=
    ⟨_, rfl, rfl, rfl, rfl⟩
  exact ⟨s, hrun, hacceptors, hqueue, hclosed, accept_pipeline _ _ _ _ _ _ hrun⟩

end IrohBeam
