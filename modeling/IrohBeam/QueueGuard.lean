/-
IrohBeam/QueueGuard.lean

`QueueGuard` (`native/iroh_beam_nif/src/stream.rs`), one atomic access at a
time: the `fetch_add`, the load and the loop of `compare_exchange_weak` in
`new`, and the `fetch_sub` in `drop`.

The counters are `usize`.  A guard counts the bytes of a buffer that its call
holds with it, and buffers in use do not overlap, so the sum of the live guards
is less than the address space and no addition wraps around.  With that,
`QUEUED_BYTES` and `PEAK_QUEUED_BYTES` are the level and the mark of a meter
(`IrohBeam/HighWater.lean`).

Left out: that the buffer of a datagram may go to the connection a moment
before its guard is dropped.
-/
import IrohBeam.HighWater
import IrohBeam.Ledger
import Mathlib.Order.Interval.Finset.Nat

namespace IrohBeam

open Transition Ledger HighWater

/-! ### Guards -/

/-- The bytes a call holds in memory. -/
structure Buffer where
  first : ℕ
  length : ℕ
  deriving DecidableEq, Repr

/-- The allocator gave the buffer out: behind the null address and inside the
address space. -/
def Buffer.Allocated (b : Buffer) : Prop := 0 < b.first ∧ b.first + b.length ≤ 2 ^ 64

/-- The buffers do not overlap. -/
def Buffer.Apart (b b' : Buffer) : Prop :=
  b.first + b.length ≤ b'.first ∨ b'.first + b'.length ≤ b.first

instance (b : Buffer) : Decidable b.Allocated := inferInstanceAs (Decidable (_ ∧ _))

instance (b b' : Buffer) : Decidable (b.Apart b') := inferInstanceAs (Decidable (_ ∨ _))

/-- Where a guard is: in `new` before the load of `PEAK_QUEUED_BYTES`, in `new`
before a `compare_exchange_weak`, in use, or dropped. -/
inductive GuardStage where
  | loading (current : UInt64)
  | exchanging (current peak : UInt64)
  | held
  | dropped
  deriving DecidableEq, Repr

structure QueueGuard where
  buffer : Buffer
  stage : GuardStage
  deriving DecidableEq, Repr

/-- `self.0`. -/
def QueueGuard.bytes (g : QueueGuard) : UInt64 := UInt64.ofNat g.buffer.length

/-- `QUEUED_BYTES`, `PEAK_QUEUED_BYTES` and all guards there have been. -/
structure Queue where
  queuedBytes : UInt64
  peakQueuedBytes : UInt64
  guards : List QueueGuard
  deriving DecidableEq, Repr

def Queue.start : Queue := ⟨0, 0, []⟩

/-- The head of the loop in `new`. -/
def GuardStage.head (current peak : UInt64) : GuardStage :=
  if peak < current then .exchanging current peak else .held

def Queue.setStage (s : Queue) (i : ℕ) (g : QueueGuard) (stage : GuardStage) : Queue :=
  { s with guards := s.guards.set i { g with stage } }

/-- A buffer is free if it is apart from those of the live guards. -/
def Queue.Free (s : Queue) (b : Buffer) : Prop :=
  b.Allocated ∧ ∀ g ∈ s.guards, g.stage ≠ .dropped → g.buffer.Apart b

instance (s : Queue) (b : Buffer) : Decidable (s.Free b) := inferInstanceAs (Decidable (_ ∧ _))

inductive QueueAction where
  | fetchAdd (buffer : Buffer)
  | load (i : ℕ)
  /-- `spurious`: the exchange fails whatever it finds. -/
  | compareExchangeWeak (i : ℕ) (spurious : Bool)
  | fetchSub (i : ℕ)
  deriving DecidableEq, Repr

/-- One atomic access. -/
def queueStep (s : Queue) : QueueAction → Option Queue
  | .fetchAdd buffer =>
      if s.Free buffer then
        let current := s.queuedBytes + UInt64.ofNat buffer.length
        some { s with
          queuedBytes := current
          guards := s.guards ++ [⟨buffer, .loading current⟩] }
      else none
  | .load i =>
      match s.guards[i]? with
      | some g =>
          match g.stage with
          | .loading current => some (s.setStage i g (.head current s.peakQueuedBytes))
          | _ => none
      | none => none
  | .compareExchangeWeak i spurious =>
      match s.guards[i]? with
      | some g =>
          match g.stage with
          | .exchanging current peak =>
              if s.peakQueuedBytes = peak ∧ spurious = false then
                some ({ s with peakQueuedBytes := current }.setStage i g .held)
              else some (s.setStage i g (.head current s.peakQueuedBytes))
          | _ => none
      | none => none
  | .fetchSub i =>
      match s.guards[i]? with
      | some g =>
          match g.stage with
          | .held =>
              some ({ s with queuedBytes := s.queuedBytes - g.bytes }.setStage i g .dropped)
          | _ => none
      | none => none

/-- What one access does. -/
inductive QueueMove (s : Queue) : Queue → Prop
  | fetchAdd (buffer : Buffer) (hfree : s.Free buffer) :
      QueueMove s { s with
        queuedBytes := s.queuedBytes + UInt64.ofNat buffer.length
        guards := s.guards ++ [⟨buffer, .loading (s.queuedBytes + UInt64.ofNat buffer.length)⟩] }
  | load {i : ℕ} {g : QueueGuard} {current : UInt64} (hg : s.guards[i]? = some g)
      (hs : g.stage = .loading current) :
      QueueMove s (s.setStage i g (.head current s.peakQueuedBytes))
  | exchange {i : ℕ} {g : QueueGuard} {current : UInt64} (hg : s.guards[i]? = some g)
      (hs : g.stage = .exchanging current s.peakQueuedBytes) :
      QueueMove s ({ s with peakQueuedBytes := current }.setStage i g .held)
  | retry {i : ℕ} {g : QueueGuard} {current peak : UInt64} (hg : s.guards[i]? = some g)
      (hs : g.stage = .exchanging current peak) :
      QueueMove s (s.setStage i g (.head current s.peakQueuedBytes))
  | fetchSub {i : ℕ} {g : QueueGuard} (hg : s.guards[i]? = some g) (hs : g.stage = .held) :
      QueueMove s ({ s with queuedBytes := s.queuedBytes - g.bytes }.setStage i g .dropped)

theorem queueStep_move {s s' : Queue} {a : QueueAction} (h : queueStep s a = some s') :
    QueueMove s s' := by
  unfold queueStep at h
  split at h
  · split at h
    · next hfree =>
        obtain rfl := Option.some.inj h
        exact .fetchAdd _ hfree
    · cases h
  · split at h
    · next g hg =>
        split at h
        · next current hs =>
            obtain rfl := Option.some.inj h
            exact .load hg hs
        · cases h
    · cases h
  · split at h
    · next g hg =>
        split at h
        · next current peak hs =>
            split at h
            · next hpeak =>
                obtain rfl := Option.some.inj h
                exact .exchange hg (hpeak.1 ▸ hs)
            · obtain rfl := Option.some.inj h
              exact .retry hg hs
        · cases h
    · cases h
  · split at h
    · next g hg =>
        split at h
        · next hs =>
            obtain rfl := Option.some.inj h
            exact .fetchSub hg hs
        · cases h
    · cases h

/-! ### What is in memory -/

/-- The addresses of the buffer of a live guard. -/
def QueueGuard.addresses (g : QueueGuard) : Finset ℕ :=
  if g.stage = .dropped then ∅ else Finset.Ico g.buffer.first (g.buffer.first + g.buffer.length)

/-- The bytes of a live guard. -/
def QueueGuard.liveBytes (g : QueueGuard) : ℤ := g.addresses.card

/-- The addresses of all live guards. -/
def occupied : List QueueGuard → Finset ℕ
  | [] => ∅
  | g :: gs => g.addresses ∪ occupied gs

/-- Live guards share no address, and `QUEUED_BYTES` is the number of addresses
they have. -/
structure Queue.Inv (s : Queue) : Prop where
  queued : (s.queuedBytes.toNat : ℤ) = total QueueGuard.liveBytes s.guards
  apart : s.guards.Pairwise fun g g' => Disjoint g.addresses g'.addresses
  range : ∀ g ∈ s.guards, g.addresses ⊆ Finset.Ico 1 (2 ^ 64)

theorem Queue.Inv.start : Queue.start.Inv where
  queued := rfl
  apart := .nil
  range g hg := by cases hg

section Memory

variable {gs : List QueueGuard} {g : QueueGuard} {stage : GuardStage} {b : Buffer}

theorem QueueGuard.addresses_of_ne (h : g.stage ≠ .dropped) :
    g.addresses = Finset.Ico g.buffer.first (g.buffer.first + g.buffer.length) :=
  if_neg h

theorem QueueGuard.addresses_setStage (h : g.stage ≠ .dropped) (h' : stage ≠ .dropped) :
    ({ g with stage } : QueueGuard).addresses = g.addresses :=
  (if_neg h').trans (if_neg h).symm

/-- The bytes of a live guard fit a `usize`. -/
theorem QueueGuard.toNat_bytes (h : g.stage ≠ .dropped)
    (hrange : g.addresses ⊆ Finset.Ico 1 (2 ^ 64)) : (g.bytes.toNat : ℤ) = g.liveBytes := by
  have hcard : g.addresses.card = g.buffer.length := by
    rw [QueueGuard.addresses_of_ne h, Nat.card_Ico, Nat.add_sub_cancel_left]
  have hle : g.buffer.length ≤ 2 ^ 64 - 1 := by
    have := Finset.card_le_card hrange
    rwa [hcard, Nat.card_Ico] at this
  have hlt : g.buffer.length < UInt64.size := Nat.lt_of_le_sub_one (by decide) hle
  rw [QueueGuard.liveBytes, hcard, QueueGuard.bytes, UInt64.toNat_ofNat_of_lt' hlt]

theorem disjoint_occupied {u : Finset ℕ} (h : ∀ g ∈ gs, Disjoint u g.addresses) :
    Disjoint u (occupied gs) := by
  induction gs with
  | nil => exact Finset.disjoint_empty_right u
  | cons g gs ih =>
      rw [occupied, Finset.disjoint_union_right]
      exact ⟨h g List.mem_cons_self, ih fun g hg => h g (List.mem_cons_of_mem _ hg)⟩

theorem total_liveBytes (h : gs.Pairwise fun g g' => Disjoint g.addresses g'.addresses) :
    total QueueGuard.liveBytes gs = (occupied gs).card := by
  induction gs with
  | nil => rfl
  | cons g gs ih =>
      obtain ⟨hg, hgs⟩ := List.pairwise_cons.mp h
      rw [total_cons, ih hgs, occupied, Finset.card_union_of_disjoint (disjoint_occupied hg),
        Nat.cast_add]
      rfl

theorem occupied_subset {u : Finset ℕ} (h : ∀ g ∈ gs, g.addresses ⊆ u) : occupied gs ⊆ u := by
  induction gs with
  | nil => exact Finset.empty_subset u
  | cons g gs ih =>
      exact Finset.union_subset (h g List.mem_cons_self)
        (ih fun g hg => h g (List.mem_cons_of_mem _ hg))

/-- **No sum of live guards reaches the address space.** -/
theorem total_liveBytes_lt (h : gs.Pairwise fun g g' => Disjoint g.addresses g'.addresses)
    (hrange : ∀ g ∈ gs, g.addresses ⊆ Finset.Ico 1 (2 ^ 64)) :
    total QueueGuard.liveBytes gs < 2 ^ 64 := by
  have hcard : (occupied gs).card ≤ 2 ^ 64 - 1 := by
    have := Finset.card_le_card (occupied_subset hrange)
    rwa [Nat.card_Ico] at this
  rw [total_liveBytes h]
  omega

theorem Buffer.Apart.disjoint {b b' : Buffer} (h : b.Apart b') :
    Disjoint (Finset.Ico b.first (b.first + b.length))
      (Finset.Ico b'.first (b'.first + b'.length)) := by
  rw [Finset.disjoint_left]
  intro a ha ha'
  rw [Finset.mem_Ico] at ha ha'
  rcases h with h | h <;> omega

end Memory

/-! ### One access -/

section Step

variable {s s' : Queue} {a : QueueAction} {i : ℕ} {g : QueueGuard} {stage : GuardStage}

/-- A live guard moves on in `new`. -/
theorem Queue.Inv.setStage (h : s.Inv) (hg : s.guards[i]? = some g) (hlive : g.stage ≠ .dropped)
    (hstage : stage ≠ .dropped) (peak : UInt64) :
    ({ s with peakQueuedBytes := peak }.setStage i g stage).Inv := by
  have hmap : ({ g with stage } : QueueGuard).addresses = g.addresses :=
    QueueGuard.addresses_setStage hlive hstage
  refine ⟨?_, ?_, ?_⟩
  · show (s.queuedBytes.toNat : ℤ) = total QueueGuard.liveBytes (s.guards.set i { g with stage })
    rw [h.queued, total_set_of_eq hg]
    rw [QueueGuard.liveBytes, hmap, QueueGuard.liveBytes]
  · apply pairwise_set h.apart hg
    · intro z hz
      rwa [hmap]
    · intro z hz
      rwa [hmap]
  · apply forall_set h.range
    rw [hmap]
    exact h.range g (List.mem_of_getElem? hg)

/-- `fetch_add` does not wrap around. -/
theorem Queue.Inv.fetchAdd (h : s.Inv) {b : Buffer} (hfree : s.Free b) (stage : GuardStage)
    (hstage : stage ≠ .dropped) :
    Queue.Inv { s with
      queuedBytes := s.queuedBytes + UInt64.ofNat b.length
      guards := s.guards ++ [⟨b, stage⟩] } := by
  obtain ⟨⟨hfirst, hlast⟩, hapart⟩ := hfree
  have hnew : (⟨b, stage⟩ : QueueGuard).addresses = Finset.Ico b.first (b.first + b.length) :=
    QueueGuard.addresses_of_ne hstage
  have hrange : ∀ g ∈ s.guards ++ [⟨b, stage⟩], g.addresses ⊆ Finset.Ico 1 (2 ^ 64) := by
    apply forall_append h.range
    rw [hnew]
    exact Finset.Ico_subset_Ico hfirst hlast
  have hpairs : (s.guards ++ [(⟨b, stage⟩ : QueueGuard)]).Pairwise fun g g' =>
      Disjoint g.addresses g'.addresses := by
    rw [List.pairwise_append]
    refine ⟨h.apart, List.pairwise_singleton _ _, ?_⟩
    intro g hg g' hg'
    rw [List.mem_singleton.mp hg', hnew]
    by_cases hdropped : g.stage = .dropped
    · rw [QueueGuard.addresses, if_pos hdropped]
      exact Finset.disjoint_empty_left _
    · rw [QueueGuard.addresses_of_ne hdropped]
      exact (hapart g hg hdropped).disjoint
  refine ⟨?_, hpairs, hrange⟩
  -- the new guard is among those that fit the address space together
  have hlt := total_liveBytes_lt hpairs hrange
  have hbytes := QueueGuard.toNat_bytes (g := ⟨b, stage⟩) hstage
    (hrange _ (List.mem_append_right _ (List.mem_singleton_self _)))
  rw [total_append, total_singleton, ← h.queued, ← hbytes, ← Nat.cast_add] at hlt ⊢
  have hsum : s.queuedBytes.toNat + (UInt64.ofNat b.length).toNat < 2 ^ 64 := by exact_mod_cast hlt
  show ((s.queuedBytes + UInt64.ofNat b.length).toNat : ℤ) = _
  rw [UInt64.toNat_add, Nat.mod_eq_of_lt hsum]
  rfl

/-- `fetch_sub` takes off no more than there is. -/
theorem Queue.Inv.bytes_le (h : s.Inv) (hg : s.guards[i]? = some g) (hlive : g.stage ≠ .dropped) :
    g.bytes ≤ s.queuedBytes := by
  have hmem : g ∈ s.guards := List.mem_of_getElem? hg
  have hle : g.liveBytes ≤ total QueueGuard.liveBytes s.guards :=
    le_total (fun g _ => Int.natCast_nonneg _) hmem
  rw [← h.queued, ← QueueGuard.toNat_bytes hlive (h.range g hmem)] at hle
  exact UInt64.le_iff_toNat_le.mpr (by exact_mod_cast hle)

theorem Queue.Inv.fetchSub (h : s.Inv) (hg : s.guards[i]? = some g) (hlive : g.stage ≠ .dropped) :
    ({ s with queuedBytes := s.queuedBytes - g.bytes }.setStage i g .dropped).Inv := by
  have hempty : ({ g with stage := .dropped } : QueueGuard).addresses = ∅ := if_pos rfl
  refine ⟨?_, ?_, ?_⟩
  · show ((s.queuedBytes - g.bytes).toNat : ℤ) =
      total QueueGuard.liveBytes (s.guards.set i { g with stage := .dropped })
    have hle := UInt64.le_iff_toNat_le.mp (h.bytes_le hg hlive)
    have hbytes := QueueGuard.toNat_bytes hlive (h.range g (List.mem_of_getElem? hg))
    have hnone : ({ g with stage := .dropped } : QueueGuard).liveBytes = 0 := by
      rw [QueueGuard.liveBytes, hempty]
      rfl
    rw [UInt64.toNat_sub_of_le _ _ (h.bytes_le hg hlive), Nat.cast_sub hle, total_set _ hg,
      h.queued, hbytes, hnone]
    omega
  · apply pairwise_set h.apart hg
    · intro z _
      rw [hempty]
      exact Finset.disjoint_empty_left _
    · intro z _
      rw [hempty]
      exact Finset.disjoint_empty_right _
  · apply forall_set h.range
    rw [hempty]
    exact Finset.empty_subset _

theorem GuardStage.head_ne_dropped (current peak : UInt64) :
    GuardStage.head current peak ≠ .dropped := by
  unfold GuardStage.head
  split <;> simp

theorem Queue.Inv.move (h : s.Inv) (hmove : QueueMove s s') : s'.Inv := by
  cases hmove with
  | fetchAdd buffer hfree => exact h.fetchAdd hfree _ (by simp)
  | load hg hs => exact h.setStage hg (by simp [hs]) (GuardStage.head_ne_dropped _ _) _
  | exchange hg hs => exact h.setStage hg (by simp [hs]) (by simp) _
  | retry hg hs => exact h.setStage hg (by simp [hs]) (GuardStage.head_ne_dropped _ _) _
  | fetchSub hg hs => exact h.fetchSub hg (by simp [hs])

end Step

/-! ### The meter -/

/-- The loop of a `QueueGuard::new` that has not returned. -/
def GuardStage.raise : GuardStage → Option (Raise ℕ)
  | .loading current => some (.load current.toNat)
  | .exchanging current peak => some (.exchange current.toNat peak.toNat)
  | .held | .dropped => none

/-- What guard `i` does to the mark. -/
def Queue.raising (s : Queue) (i : ℕ) : Option (Raise ℕ) :=
  (s.guards[i]?).elim none fun g => g.stage.raise

def Queue.meter (s : Queue) : Meter ℕ ℕ where
  level := s.queuedBytes.toNat
  mark := s.peakQueuedBytes.toNat
  raising := s.raising

section Meter

variable {s s' : Queue} {a : QueueAction} {i : ℕ} {g : QueueGuard} {stage : GuardStage}

theorem Queue.raising_of_get (hg : s.guards[i]? = some g) : s.raising i = g.stage.raise := by
  rw [Queue.raising, hg]
  rfl

/-- The comparison of two `usize` is that of their values. -/
theorem GuardStage.raise_head (current peak : UInt64) :
    (GuardStage.head current peak).raise = Raise.head current.toNat peak.toNat := by
  unfold GuardStage.head Raise.head
  by_cases hlt : peak < current
  · rw [if_pos hlt, if_pos (UInt64.lt_iff_toNat_lt.mp hlt)]
    rfl
  · rw [if_neg hlt, if_neg (fun h => hlt (UInt64.lt_iff_toNat_lt.mpr h))]
    rfl

theorem Queue.meter_setStage (hg : s.guards[i]? = some g) :
    (s.setStage i g stage).meter = s.meter.setRaising i stage.raise := by
  rw [Queue.meter, Meter.setRaising, Meter.mk.injEq]
  refine ⟨rfl, rfl, ?_⟩
  funext j
  rw [Function.update_apply]
  exact elim_set hg j

theorem Queue.raising_append (guards : List QueueGuard) (g : QueueGuard) (j : ℕ) :
    ((guards ++ [g])[j]?).elim none (fun g => g.stage.raise) =
      if j = guards.length then g.stage.raise
      else (guards[j]?).elim none fun g => g.stage.raise := by
  rw [List.getElem?_append]
  split
  · next hlt => rw [if_neg (Nat.ne_of_lt hlt)]
  · next hle =>
      rw [List.getElem?_eq_none (Nat.le_of_not_lt hle)]
      split
      · next hj =>
          rw [hj, Nat.sub_self]
          rfl
      · next hj =>
          have hlt : 1 ≤ j - guards.length := by omega
          rw [List.getElem?_eq_none hlt]

theorem Queue.meter_fetchAdd (s : Queue) (queuedBytes : UInt64) (g : QueueGuard) :
    Queue.meter { s with queuedBytes, guards := s.guards ++ [g] } =
      Meter.setRaising { s.meter with level := queuedBytes.toNat } s.guards.length
        g.stage.raise := by
  rw [Queue.meter, Meter.setRaising, Meter.mk.injEq]
  refine ⟨rfl, rfl, ?_⟩
  funext j
  rw [Function.update_apply]
  exact Queue.raising_append s.guards g j

/-- **Every access is a move of the meter.** -/
theorem QueueMove.meter (h : s.Inv) (hmove : QueueMove s s') : Move s.meter s'.meter := by
  cases hmove with
  | fetchAdd buffer hfree =>
      have hidle : s.meter.raising s.guards.length = none := by
        show (s.guards[s.guards.length]?).elim none _ = none
        rw [List.getElem?_eq_none le_rfl]
        rfl
      rw [Queue.meter_fetchAdd]
      exact .raise _ hidle
  | @load i g current hg hs =>
      have hraising : s.meter.raising i = some (.load current.toNat) :=
        (Queue.raising_of_get hg).trans (by rw [hs, GuardStage.raise])
      rw [Queue.meter_setStage hg, GuardStage.raise_head]
      exact .load hraising
  | @exchange i g current hg hs =>
      have hraising : s.meter.raising i = some (.exchange current.toNat s.meter.mark) :=
        (Queue.raising_of_get hg).trans (by rw [hs, GuardStage.raise]; rfl)
      have hmeter : (Queue.setStage { s with peakQueuedBytes := current } i g .held).meter =
          Meter.setRaising { s.meter with mark := current.toNat } i none :=
        Queue.meter_setStage hg
      rw [hmeter]
      exact .exchange hraising
  | @retry i g current peak hg hs =>
      have hraising : s.meter.raising i = some (.exchange current.toNat peak.toNat) :=
        (Queue.raising_of_get hg).trans (by rw [hs, GuardStage.raise])
      rw [Queue.meter_setStage hg, GuardStage.raise_head]
      exact .retry hraising
  | @fetchSub i g hg hs =>
      have hmeter : (Queue.setStage { s with queuedBytes := s.queuedBytes - g.bytes } i g
            .dropped).meter =
          Meter.setRaising { s.meter with level := (s.queuedBytes - g.bytes).toNat } i none :=
        Queue.meter_setStage hg
      have hidle : s.raising i = none :=
        (Queue.raising_of_get hg).trans (by rw [hs, GuardStage.raise])
      -- a guard that is dropped has left its loop
      have hsame : Function.update s.raising i none = s.raising := by
        rw [← hidle, Function.update_eq_self]
      have hle : (s.queuedBytes - g.bytes).toNat ≤ s.queuedBytes.toNat := by
        rw [UInt64.toNat_sub_of_le _ _ (h.bytes_le hg (by simp [hs]))]
        exact Nat.sub_le _ _
      rw [hmeter]
      show Move s.meter ⟨_, _, Function.update s.raising i none⟩
      rw [hsame]
      exact .lower _ hle

theorem queue_tracks : Tracks queueStep Queue.Inv Queue.meter where
  inv _ _ _ h hstep := h.move (queueStep_move hstep)
  move _ _ _ h hstep := (queueStep_move hstep).meter h

end Meter

/-! ### The high-water mark -/

/-- No `QueueGuard::new` is between its `fetch_add` and its return. -/
def Queue.Settled (s : Queue) : Prop :=
  ∀ g ∈ s.guards, g.stage = .held ∨ g.stage = .dropped

theorem Queue.Settled.idle {s : Queue} (h : s.Settled) : s.meter.Idle := by
  intro i
  show (s.guards[i]?).elim none _ = none
  cases hg : s.guards[i]? with
  | none => rfl
  | some g =>
      show g.stage.raise = none
      rcases h g (List.mem_of_getElem? hg) with hs | hs
      · rw [hs, GuardStage.raise]
      · rw [hs, GuardStage.raise]

/-- What holds of `PEAK_QUEUED_BYTES` after the accesses `as`. -/
structure Queue.PeakExact (as : List QueueAction) (s : Queue) : Prop where
  /-- It never decreases. -/
  mono : ∀ bs t, run queueStep s bs = some t → s.peakQueuedBytes ≤ t.peakQueuedBytes
  /-- It is at most the largest value `QUEUED_BYTES` has had, and that value
  when no guard is being made. -/
  greatest : ∃ top, IsGreatest (Levels queueStep (fun t => t.queuedBytes.toNat) .start as) top ∧
    s.peakQueuedBytes.toNat ≤ top ∧ (s.Settled → s.peakQueuedBytes.toNat = top)

/-- **The high-water mark is exact.**  However creations and drops interleave,
and whichever exchanges fail. -/
theorem peak_queued_bytes_exact {as : List QueueAction} {s : Queue}
    (h : run queueStep .start as = some s) : s.PeakExact as := by
  have hidle : Queue.start.meter.Idle := fun _ => rfl
  obtain ⟨top, hgreatest, htop⟩ := queue_tracks.mark_spec h .start rfl hidle
  have hinv : s.Inv := run_invariant queue_tracks.inv h .start
  refine ⟨?_, top, hgreatest, htop.mark_le, fun hsettled => htop.mark_eq hsettled.idle⟩
  intro bs t hrun
  exact UInt64.le_iff_toNat_le.mpr (queue_tracks.mark_mono hrun hinv htop)

/-- Guards of 3 and 4 bytes: the second raises the peak to 7, after a spurious
failure, and the first then finds nothing to raise. -/
theorem peak_queued_bytes_exact_sample :
    ∃ s, run queueStep .start [.fetchAdd ⟨16, 3⟩, .load 0, .fetchAdd ⟨32, 4⟩, .load 1,
        .compareExchangeWeak 1 true, .compareExchangeWeak 1 false, .compareExchangeWeak 0 false,
        .fetchSub 0] = some s ∧
      s.queuedBytes = 4 ∧ s.peakQueuedBytes = 7 ∧
      s.PeakExact [.fetchAdd ⟨16, 3⟩, .load 0, .fetchAdd ⟨32, 4⟩, .load 1,
        .compareExchangeWeak 1 true, .compareExchangeWeak 1 false, .compareExchangeWeak 0 false,
        .fetchSub 0] := by
  refine ⟨_, rfl, rfl, rfl, ?_⟩
  exact peak_queued_bytes_exact rfl

end IrohBeam
