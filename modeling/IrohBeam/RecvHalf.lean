/-
IrohBeam/RecvHalf.lean

The receive half of `IrohBeam/StreamRecv.lean` is a half of
`IrohBeam/StreamReset.lean`.

`recvOpStep` and `recvStep` take some of the atomic steps of a half together: a
call looks at the closed flag and claims the half, the drop of a lease looks at
the flag and puts the half back, and a stop is a whole request.  What the caller,
the supervisor and the bytes do is not seen on the half.

So a step of a receive is some steps of its lease (`recvOpStep_lease`), and what
holds of every run of the half holds of the half under `recv/3`
(`receiver_on_half`): every call has the number of an operation there, those that
were refused included.
-/
import IrohBeam.StreamRecv
import IrohBeam.StreamReset

namespace IrohBeam

open Transition

/-! ### One operation -/

/-- What the operation does next whose lease is there. -/
def Lease.stage : Lease → LeaseStage
  | .reading => .select
  | .dropping _ => .dropBusy
  | .storing _ => .loadClosed
  | .returned => .over none

/-- The same flags, and the handle in the slot of both or of neither. -/
structure Half.Is (half : Half) (h : StreamHalf) : Prop where
  busy : h.busy = half.busy
  closed : h.closed = half.closed
  slot : h.place = .slot ↔ half.slot = true
  emptied : half.closed = true → half.slot = false

/-- One step of operation `k`, with the half it works on. -/
def operationStep (kind : HalfKind) (k : ℕ) (x : StreamHalf × LeaseStage) (a : LeaseAction) :
    Option (StreamHalf × LeaseStage) :=
  leaseStep kind x.1 k a x.2

/-- **The step lemma**: a step of a receive is some steps of its lease. -/
theorem recvOpStep_lease {half half' : Half} {o o' : RecvOp} {a : RecvOpAction} {h : StreamHalf}
    (hh : half.Is h) (k : ℕ) (hstep : recvOpStep half o a = some (half', o')) :
    ∃ h', Reaches (operationStep .recv k) (h, o.lease.stage) (h', o'.lease.stage) ∧
      half'.Is h' := by
  cases a with
  | read n =>
      simp only [recvOpStep] at hstep
      split at hstep
      · next hlease =>
          split at hstep
          · obtain ⟨rfl, rfl⟩ := Prod.mk.inj (Option.some.inj hstep)
            rw [hlease]
            exact ⟨h, .single (a := .ended) rfl, hh.busy, hh.closed, hh.slot, hh.emptied⟩
          · cases hstep
      · cases hstep
  | endRead result =>
      simp only [recvOpStep] at hstep
      split at hstep
      · next hlease =>
          split at hstep
          · obtain ⟨rfl, rfl⟩ := Prod.mk.inj (Option.some.inj hstep)
            rw [hlease]
            exact ⟨h, .single (a := .ended) rfl, hh⟩
          · cases hstep
      · cases hstep
  | drop =>
      simp only [recvOpStep] at hstep
      split at hstep
      · next hlease _ =>
          obtain ⟨rfl, rfl⟩ := Prod.mk.inj (Option.some.inj hstep)
          rw [hlease]
          exact ⟨h, .single (a := .ended) rfl, hh⟩
      · cases hstep
  | clearBusy =>
      simp only [recvOpStep] at hstep
      split at hstep
      · next hlease =>
          obtain ⟨rfl, rfl⟩ := Prod.mk.inj (Option.some.inj hstep)
          rw [hlease]
          exact ⟨_, .single (a := .dropBusy) rfl, rfl, hh.closed, hh.slot, hh.emptied⟩
      · cases hstep
  | store =>
      obtain ⟨result, hlease, hhalf, hreturned⟩ : ∃ result, o.lease = .storing result ∧
          half' = (if half.closed then half else { half with slot := true }) ∧
          o'.lease = .returned := by
        simp only [recvOpStep] at hstep
        split at hstep
        · next hlease =>
            obtain ⟨rfl, rfl⟩ := Prod.mk.inj (Option.some.inj hstep)
            exact ⟨none, hlease, rfl, rfl⟩
        · next result hlease =>
            obtain ⟨op, -, hnext⟩ := Option.map_eq_some_iff.mp hstep
            obtain ⟨rfl, rfl⟩ := Prod.mk.inj hnext
            exact ⟨some result, hlease, rfl, rfl⟩
        · cases hstep
      rw [hlease, hreturned, hhalf]
      -- the drop looks at the closed flag, then puts the handle back or drops it
      by_cases hclosed : half.closed = true
      · have hload : operationStep .recv k (h, .loadClosed) .loadClosed = some (h, .discard) :=
          if_pos (hh.closed.trans hclosed)
        rw [if_pos hclosed]
        refine ⟨_, (Reaches.single hload).tail (a := .discard) rfl, hh.busy, hh.closed, ?_, hh.emptied⟩
        rw [hh.emptied hclosed]
        exact ⟨fun h => (by cases h), fun h => (by cases h)⟩
      · have hload : operationStep .recv k (h, .loadClosed) .loadClosed = some (h, .store) :=
          if_neg fun h => hclosed (hh.closed.symm.trans h)
        rw [if_neg hclosed]
        exact ⟨_, (Reaches.single hload).tail (a := .store) rfl, hh.busy, hh.closed, ⟨fun _ => rfl, fun _ => rfl⟩,
          fun h => absurd h hclosed⟩
  | supervise a =>
      simp only [recvOpStep] at hstep
      split at hstep
      · obtain ⟨op, -, hnext⟩ := Option.map_eq_some_iff.mp hstep
        obtain ⟨rfl, rfl⟩ := Prod.mk.inj hnext
        exact ⟨h, .refl _, hh⟩
      · cases hstep

/-- What an operation does by itself, it does on a half with everything around it. -/
theorem reaches_operation {kind : HalfKind} {t : HalfState} {k : ℕ} {h : StreamHalf}
    {stage : LeaseStage}
    (hreach : Reaches (operationStep kind k) (t.half, t.operations k) (h, stage)) :
    Reaches (halfStep kind) t
      { t with half := h, operations := Function.update t.operations k stage } := by
  refine hreach.invariant (P := fun x => Reaches (halfStep kind) t
    { t with half := x.1, operations := Function.update t.operations k x.2 }) ?_ ?_
  · rintro x a x' hx hstep
    refine hx.tail (a := .operation k a) ?_
    have hown : leaseStep kind x.1 k a (Function.update t.operations k x.2 k) = some x' := by
      rw [Function.update_self]
      exact hstep
    simp only [halfStep, hown, Option.map_some, Function.update_idem]
  · rw [Function.update_eq_self]
    exact .refl t

/-- A request by itself, with the half it works on. -/
def closingStep (x : StreamHalf × RequestStage) (a : RequestAction) :
    Option (StreamHalf × RequestStage) :=
  requestStep x.1 a x.2

theorem reaches_request {kind : HalfKind} {t : HalfState} {k : ℕ} {h : StreamHalf}
    {stage : RequestStage} (hreach : Reaches closingStep (t.half, t.requests k) (h, stage)) :
    Reaches (halfStep kind) t
      { t with half := h, requests := Function.update t.requests k stage } := by
  refine hreach.invariant (P := fun x => Reaches (halfStep kind) t
    { t with half := x.1, requests := Function.update t.requests k x.2 }) ?_ ?_
  · rintro x a x' hx hstep
    refine hx.tail (a := .request k a) ?_
    have hown : requestStep x.1 a (Function.update t.requests k x.2 k) = some x' := by
      rw [Function.update_self]
      exact hstep
    simp only [halfStep, hown, Option.map_some, Function.update_idem]
  · rw [Function.update_eq_self]
    exact .refl t

/-- **A stop is a whole request.** -/
theorem stop_request {half : Half} {h : StreamHalf} (hh : half.Is h) :
    ∃ h', Reaches closingStep (h, .idle) (h', .returned) ∧
      Half.Is { half with closed := true, slot := false } h' := by
  have hcode : closingStep (h, .idle) (.storeCode 0) =
      some ({ h with code := 0, requested := true }, .storeClosed 0) := rfl
  have hsteps : Reaches closingStep (h, .idle)
      ({ h with code := 0, requested := true, closed := true, permit := true }, .take 0) :=
    ((Reaches.single hcode).tail (a := .storeClosed) rfl).tail (a := .notify) rfl
  by_cases hslot : h.place = .slot
  · have htake : closingStep
        ({ h with code := 0, requested := true, closed := true, permit := true }, .take 0) .take =
        some ({ h with code := 0, requested := true, closed := true, permit := true, place := .gone,
                       fate := .reset 0 }, .returned) := if_pos hslot
    exact ⟨_, hsteps.tail htake, hh.busy, rfl, ⟨fun h => (by cases h), fun h => (by cases h)⟩,
      fun _ => rfl⟩
  · have hmiss : closingStep
        ({ h with code := 0, requested := true, closed := true, permit := true }, .take 0) .take =
        some ({ h with code := 0, requested := true, closed := true, permit := true }, .returned) :=
      if_neg hslot
    exact ⟨_, hsteps.tail hmiss, hh.busy, rfl, ⟨fun h => absurd h hslot, fun h => (by cases h)⟩,
      fun _ => rfl⟩

/-! ### The receiver -/

/-- The leases of the operations, in the order of their calls. -/
def Receiver.leases (s : Receiver) : List Lease := s.ops.map RecvOp.lease

/-- The receiver works on the half: its operation `i` is the operation `number i`
there, a call that has claimed the half is an operation that is about to look into
the slot, and from `next` on no operation has begun. -/
structure Receiver.On (s : Receiver) (t : HalfState) (number : ℕ → ℕ) (next : ℕ) : Prop where
  half : s.half.Is t.half
  stages : ∀ i l, s.leases[i]? = some l → t.operations (number i) = l.stage ∧ number i < next
  distinct : Set.InjOn number {i | i < s.leases.length}
  claiming : ∀ maxBytes, s.caller = .claiming maxBytes → ∃ k < next, t.operations k = .take
  fresh : ∀ k, next ≤ k → t.operations k = .idle
  requests : ∃ m, ∀ k, m ≤ k → t.requests k = .idle

/-- The receiver works on the half, under some numbers. -/
def Receiver.OnHalf (s : Receiver) (t : HalfState) : Prop :=
  ∃ number next, s.On t number next

theorem start_onHalf : Receiver.start.OnHalf HalfState.init :=
  ⟨id, 0, ⟨rfl, rfl, ⟨fun _ => rfl, fun _ => rfl⟩, fun h => (by cases h)⟩, fun i l h => (by cases h),
    Function.injective_id.injOn, fun _ h => (by cases h), fun _ _ => rfl,
    0, fun _ _ => rfl⟩

theorem Lease.stage_ne_take (l : Lease) : l.stage ≠ .take := by
  cases l <;> exact LeaseStage.noConfusion

section Step

variable {s s' : Receiver} {t : HalfState} {number : ℕ → ℕ} {next : ℕ}

/-- What the half does not see. -/
theorem Receiver.On.frame (hs : s.On t number next) (hhalf : s'.half.Is t.half)
    (hleases : s'.leases = s.leases)
    (hcaller : ∀ maxBytes, s'.caller = .claiming maxBytes → ∃ k < next, t.operations k = .take) :
    s'.On t number next :=
  ⟨hhalf, hleases ▸ hs.stages, hleases ▸ hs.distinct, hcaller, hs.fresh, hs.requests⟩

/-- A step of operation `k` leaves the operations of other numbers where they are. -/
theorem Receiver.On.stages_update (hs : s.On t number next) {k : ℕ}
    (hk : ∀ i, i < s.leases.length → number i ≠ k) (stage : LeaseStage) (i : ℕ) (l : Lease)
    (hl : s.leases[i]? = some l) :
    Function.update t.operations k stage (number i) = l.stage ∧ number i < next := by
  obtain ⟨hstage, hnext⟩ := hs.stages i l hl
  have hne := hk i (List.getElem?_eq_some_iff.mp hl).1
  exact ⟨(Function.update_of_ne hne ..).trans hstage, hnext⟩

theorem Receiver.On.fresh_update (hs : s.On t number next) {k : ℕ} (hk : k < next)
    (stage : LeaseStage) (j : ℕ) (hj : next ≤ j) :
    Function.update t.operations k stage j = .idle :=
  (Function.update_of_ne (by omega) ..).trans (hs.fresh j hj)

/-- An operation of the receiver moves. -/
theorem Receiver.On.move (hs : s.On t number next) {i : ℕ} {o : RecvOp} (ho : s.ops[i]? = some o)
    {a : RecvOpAction} {half' : Half} {o' : RecvOp}
    (hstep : recvOpStep s.half o a = some (half', o')) :
    ∃ t', Reaches (halfStep .recv) t t' ∧
      ({ s with half := half', ops := s.ops.set i o' } : Receiver).On t' number next := by
  have hlease : s.leases[i]? = some o.lease := by
    rw [Receiver.leases, List.getElem?_map, ho]
    rfl
  obtain ⟨hstage, hbelow⟩ := hs.stages i _ hlease
  obtain ⟨h', hreach, hhalf⟩ := recvOpStep_lease hs.half (number i) hstep
  rw [← hstage] at hreach
  refine ⟨_, reaches_operation hreach, hhalf, ?_, ?_, ?_, hs.fresh_update hbelow _, hs.requests⟩
  · intro j l hl
    rw [Receiver.leases, List.map_set, List.getElem?_set] at hl
    split at hl
    · next hij =>
        subst hij
        split at hl
        · obtain rfl := Option.some.inj hl
          exact ⟨Function.update_self .., hbelow⟩
        · cases hl
    · next hij =>
        obtain ⟨hj, hlt⟩ := hs.stages j l hl
        have hne : number j ≠ number i := by
          intro heq
          exact hij (hs.distinct (List.getElem?_eq_some_iff.mp hlease).1
            (List.getElem?_eq_some_iff.mp hl).1 heq.symm)
        exact ⟨(Function.update_of_ne hne ..).trans hj, hlt⟩
  · simp only [Receiver.leases, List.length_map, List.length_set]
    simpa only [Receiver.leases, List.length_map] using hs.distinct
  · intro maxBytes hcaller
    obtain ⟨k, hk, htake⟩ := hs.claiming maxBytes hcaller
    have hne : k ≠ number i := by
      rintro rfl
      exact o.lease.stage_ne_take (hstage.symm.trans htake)
    exact ⟨k, hk, (Function.update_of_ne hne ..).trans htake⟩

/-- The next operation takes a step of its own, or some. -/
theorem Receiver.On.begin (hs : s.On t number next) {h : StreamHalf} {stage : LeaseStage}
    (hreach : Reaches (operationStep .recv next) (t.half, .idle) (h, stage))
    (hhalf : s'.half.Is h) (hleases : s'.leases = s.leases)
    (hcaller : ∀ maxBytes, s'.caller = .claiming maxBytes → stage = .take) :
    ∃ t', Reaches (halfStep .recv) t t' ∧ s'.OnHalf t' := by
  rw [← hs.fresh next le_rfl] at hreach
  refine ⟨_, reaches_operation hreach, number, next + 1, hhalf, ?_, hleases ▸ hs.distinct, ?_, ?_, hs.requests⟩
  · rw [hleases]
    intro i l hl
    have hne : ∀ j, j < s.leases.length → number j ≠ next := fun j hj =>
      (hs.stages j _ (List.getElem?_eq_getElem hj)).2.ne
    exact (hs.stages_update hne stage i l hl).imp_right Nat.lt_succ_of_lt
  · intro maxBytes hclaiming
    exact ⟨next, Nat.lt_succ_self next, (Function.update_self ..).trans (hcaller maxBytes hclaiming)⟩
  · intro k hk
    exact (Function.update_of_ne (by omega) ..).trans (hs.fresh k (by omega))

/-- A call looks at the flags. -/
theorem call_onHalf (hs : s.On t number next) {maxBytes : ℕ}
    (hstep : recvStep s (.call maxBytes) = some s') :
    ∃ t', Reaches (halfStep .recv) t t' ∧ s'.OnHalf t' := by
  simp only [recvStep] at hstep
  split at hstep
  · split at hstep
    · obtain rfl := Option.some.inj hstep
      exact ⟨t, .refl t, number, next, hs.frame hs.half rfl fun _ h => (by cases h)⟩
    · split at hstep
      · next hclosed =>
          obtain rfl := Option.some.inj hstep
          have hload : operationStep .recv next (t.half, .idle) .begin = _ :=
            if_pos (hs.half.closed.trans hclosed)
          exact hs.begin (.single hload) hs.half rfl fun _ h => (by cases h)
      · next hopen =>
          have hload : operationStep .recv next (t.half, .idle) .begin = some (t.half, .claim) :=
            if_neg fun h => hopen (hs.half.closed.symm.trans h)
          split at hstep
          · next hbusy =>
              obtain rfl := Option.some.inj hstep
              have hclaim : operationStep .recv next (t.half, .claim) .claim = _ :=
                if_pos (hs.half.busy.trans hbusy)
              exact hs.begin ((Reaches.single hload).tail hclaim) hs.half rfl
                fun _ h => (by cases h)
          · next hfree =>
              obtain rfl := Option.some.inj hstep
              have hclaim : operationStep .recv next (t.half, .claim) .claim =
                  some ({ t.half with busy := true }, .take) :=
                if_neg fun h => hfree (hs.half.busy.symm.trans h)
              exact hs.begin ((Reaches.single hload).tail hclaim)
                ⟨rfl, hs.half.closed, hs.half.slot, hs.half.emptied⟩ rfl fun _ _ => rfl
  · cases hstep

/-- The number of the call that is about to look into the slot is that of no
operation yet. -/
theorem Receiver.On.number_ne (hs : s.On t number next) {k : ℕ} (hk : t.operations k = .take)
    {i : ℕ} (hi : i < s.leases.length) : number i ≠ k := by
  rintro rfl
  have hstage := (hs.stages i _ (List.getElem?_eq_getElem hi)).1
  exact Lease.stage_ne_take _ (hstage.symm.trans hk)

/-- It finds the handle there, and is the next operation. -/
theorem Receiver.On.take (hs : s.On t number next) {k : ℕ} (hbelow : k < next)
    (hk : t.operations k = .take) {h : StreamHalf} (hhalf : s'.half.Is h)
    (hleases : s'.leases = s.leases ++ [.reading])
    (hcaller : ∀ maxBytes, s'.caller ≠ .claiming maxBytes) :
    s'.On { t with half := h, operations := Function.update t.operations k .select }
      (Function.update number s.leases.length k) next := by
  have hold : ∀ {i}, i < s.leases.length →
      Function.update number s.leases.length k i = number i := fun hi =>
    Function.update_of_ne hi.ne ..
  refine ⟨hhalf, ?_, ?_, fun maxBytes h => absurd h (hcaller maxBytes), hs.fresh_update hbelow _,
    hs.requests⟩
  · rw [hleases]
    intro i l hl
    rcases Ledger.getElem?_concat_cases hl with hl | rfl
    · have hi : i < s.leases.length := (List.getElem?_eq_some_iff.mp hl).1
      rw [hold hi]
      exact hs.stages_update (fun j hj => hs.number_ne hk hj) _ i l hl
    · rw [List.getElem?_concat_length] at hl
      obtain rfl := Option.some.inj hl
      rw [Function.update_self]
      exact ⟨Function.update_self .., hbelow⟩
  · rw [hleases, List.length_append, List.length_singleton]
    intro i hi j hj heq
    rcases Nat.lt_succ_iff_lt_or_eq.mp hi with hi | rfl <;>
      rcases Nat.lt_succ_iff_lt_or_eq.mp hj with hj | rfl
    · rw [hold hi, hold hj] at heq
      exact hs.distinct hi hj heq
    · rw [hold hi, Function.update_self] at heq
      exact absurd heq (hs.number_ne hk hi)
    · rw [hold hj, Function.update_self] at heq
      exact absurd heq.symm (hs.number_ne hk hj)
    · rfl

/-- A call that has claimed the half looks into the slot. -/
theorem take_onHalf (hs : s.On t number next) (hstep : recvStep s .take = some s') :
    ∃ t', Reaches (halfStep .recv) t t' ∧ s'.OnHalf t' := by
  simp only [recvStep] at hstep
  split at hstep
  · next maxBytes hcaller =>
      obtain ⟨k, hk, hstage⟩ := hs.claiming maxBytes hcaller
      split at hstep
      · next hslot =>
          obtain rfl := Option.some.inj hstep
          have htake : operationStep .recv k (t.half, .take) .take =
              some ({ t.half with place := .lease k }, .select) :=
            if_pos (hs.half.slot.mpr hslot)
          have hfound : Reaches (operationStep .recv k) (t.half, t.operations k)
              ({ t.half with place := .lease k }, .select) := by
            rw [hstage]
            exact .single htake
          refine ⟨_, reaches_operation hfound, _, next, hs.take hk hstage ?_ List.map_append
            fun _ h => by cases h⟩
          exact ⟨hs.half.busy, hs.half.closed, ⟨fun h => (by cases h), fun h => (by cases h)⟩,
            fun _ => rfl⟩
      · next hslot =>
          obtain rfl := Option.some.inj hstep
          have htake : operationStep .recv k (t.half, .take) .take = some (t.half, .clearBusy) :=
            if_neg fun h => hslot (hs.half.slot.mp h)
          have hmiss : Reaches (operationStep .recv k) (t.half, t.operations k)
              ({ t.half with busy := false },
                .over (some (halfError .recv .streamRecv .closed "is unavailable"))) := by
            rw [hstage]
            exact (Reaches.single htake).tail (a := .clearBusy) rfl
          exact ⟨_, reaches_operation hmiss, number, next,
            ⟨rfl, hs.half.closed, hs.half.slot, hs.half.emptied⟩,
            hs.stages_update (fun j hj => hs.number_ne hstage hj) _, hs.distinct,
            fun _ h => (by cases h), hs.fresh_update hk _, hs.requests⟩
  · cases hstep

/-- The caller changes an operation under its supervisor, with the lease where it
is, and goes on to wait or returns. -/
theorem Receiver.On.caller (hs : s.On t number next) {i : ℕ} {o : RecvOp} (ho : s.ops[i]? = some o)
    {op : Operation ReadResult} {caller : RecvCaller} {results : List RecvResult}
    (hcaller : ∀ maxBytes, caller ≠ .claiming maxBytes) :
    ({ s with ops := s.ops.set i { o with op }, caller, results } : Receiver).On t number next :=
  hs.frame hs.half (Ledger.map_set_of_eq ho rfl) fun maxBytes h => absurd h (hcaller maxBytes)

end Step

/-- **The step lemma**: a step of the receiver is some steps of its half. -/
theorem recvStep_onHalf {s s' : Receiver} {t : HalfState} {a : RecvAction} (hs : s.OnHalf t)
    (hstep : recvStep s a = some s') : ∃ t', Reaches (halfStep .recv) t t' ∧ s'.OnHalf t' := by
  obtain ⟨number, next, hs⟩ := hs
  have hstill : s'.On t number next → ∃ t', Reaches (halfStep .recv) t t' ∧ s'.OnHalf t' :=
    fun h => ⟨t, .refl t, number, next, h⟩
  cases a with
  | arrive bytes =>
      obtain rfl := Option.some.inj hstep
      exact hstill (hs.frame ⟨hs.half.busy, hs.half.closed, hs.half.slot, hs.half.emptied⟩ rfl
        hs.claiming)
  | stop =>
      obtain rfl := Option.some.inj hstep
      obtain ⟨m, hm⟩ := hs.requests
      obtain ⟨h', hreach, hhalf⟩ := stop_request hs.half
      rw [← hm m le_rfl] at hreach
      refine ⟨_, reaches_request hreach, number, next, hhalf, hs.stages, hs.distinct, hs.claiming,
        hs.fresh, m + 1, ?_⟩
      intro k hk
      exact (Function.update_of_ne (by omega) ..).trans (hm k (by omega))
  | op i a =>
      simp only [recvStep] at hstep
      split at hstep
      · next o ho =>
          obtain ⟨r, hr, rfl⟩ := Option.map_eq_some_iff.mp hstep
          obtain ⟨t', hreach, ht'⟩ := hs.move ho hr
          exact ⟨t', hreach, number, next, ht'⟩
      · cases hstep
  | call maxBytes => exact call_onHalf hs hstep
  | take => exact take_onHalf hs hstep
  | receive =>
      simp only [recvStep] at hstep
      split at hstep
      · split at hstep
        · split at hstep
          · obtain rfl := Option.some.inj hstep
            exact hstill (hs.frame hs.half rfl fun _ h => (by cases h))
          · cases hstep
        · cases hstep
      · cases hstep
  | timeout =>
      simp only [recvStep] at hstep
      split at hstep
      · split at hstep
        · split at hstep
          · obtain rfl := Option.some.inj hstep
            exact hstill (hs.frame hs.half rfl fun _ h => (by cases h))
          · cases hstep
        · cases hstep
      · cases hstep
  | cancel =>
      simp only [recvStep] at hstep
      split at hstep
      · split at hstep
        · next o ho =>
            split at hstep
            · obtain rfl := Option.some.inj hstep
              exact hstill (hs.caller ho fun _ h => by cases h)
            · obtain rfl := Option.some.inj hstep
              exact hstill (hs.caller ho fun _ h => by cases h)
        · cases hstep
      · cases hstep
  | notify =>
      simp only [recvStep] at hstep
      split at hstep
      · split at hstep
        · next o ho =>
            obtain ⟨op, -, rfl⟩ := Option.map_eq_some_iff.mp hstep
            exact hstill (hs.caller ho fun _ h => by cases h)
        · cases hstep
      · cases hstep

/-- **The receive half of a process is a half**: every run of `recv/3` calls is a
run of operations and requests on a half, with the flags, the slot and every lease
where they are there. -/
theorem receiver_on_half {as : List RecvAction} {s : Receiver}
    (h : run recvStep .start as = some s) :
    ∃ t, Reaches (halfStep .recv) HalfState.init t ∧ s.OnHalf t :=
  run_simulated (R := Receiver.OnHalf) (fun _ _ _ _ => recvStep_onHalf) h start_onHalf

end IrohBeam
