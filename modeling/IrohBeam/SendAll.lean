/-
IrohBeam/SendAll.lean

The send-all loop of `start_stream_send` (`native/iroh_beam_nif/src/stream.rs`)
in machine arithmetic.

The loop adds a chunk size that the caller chooses to an offset, both of them
`usize`.  The future is at rest only in `write_all`, so a state of it is the
slice it is writing there; it goes on when the slice is written, and ends there
if the write fails, the half is reset or the future is dropped.

`SendAll.Inv` says where the loop is after `m` slices: at `m` times the chunk
size, which is inside the data as long as there is something left.  That a
second round is made at all bounds the chunk size by the length of the data, so
no sum of the two wraps around.  `sendAll_startStreamSend` connects the loop to
the send of `IrohBeam/Stream.lean`, which takes one step for all of it.
-/
import IrohBeam.Stream
import IrohBeam.Run

namespace IrohBeam

open Bytes Transition

/-! ### The loop -/

/-- `data.len()`. -/
def lenUsize (data : Binary) : UInt64 := UInt64.ofNat data.length

/-- `data[first..last]`; `none` stands for the panic on a range that is not one
of the data. -/
def sliceRange (data : Binary) (first last : UInt64) : Option Binary :=
  if first ≤ last ∧ last.toNat ≤ data.length then
    some ((data.drop first.toNat).take (last.toNat - first.toNat))
  else none

/-- Where the future is: in the `write_all` of a slice that ends at `last`, or
over, or dropped before it was over. -/
inductive SendStage where
  | writing (last : UInt64) (slice : Binary)
  | over (result : Except Error UInt64)
  | dropped
  | panicked

/-- The future of a send-all: its offset, the slices `write_all` has completed,
and what the stream has accepted of one it has not. -/
structure SendAll where
  written : UInt64
  slices : List Binary
  accepted : Binary
  stage : SendStage

/-- From the head of the loop to the next `write_all`, or to the end. -/
def SendAll.head (data : Binary) (chunkSize written : UInt64) (slices : List Binary) : SendAll :=
  { written, slices
    accepted := []
    stage :=
      if written < lenUsize data then
        let last := min (written + chunkSize) (lenUsize data)
        match sliceRange data written last with
        | some slice => .writing last slice
        | none => .panicked
      else .over (.ok (lenUsize data)) }

def SendAll.start (data : Binary) (chunkSize : UInt64) : SendAll := .head data chunkSize 0 []

/-- How a `write_all` may end that does not complete: with an error, by the
`reset_notify` branch of the `select!`, or with the future. -/
inductive SendInterrupt where
  | failed | reset | dropped
  deriving DecidableEq, Repr

def SendInterrupt.stage : SendInterrupt → SendStage
  | .failed => .over (.error ⟨.peerAborted, .streamSend, "stream send failed"⟩)
  | .reset => .over (.error ⟨.peerAborted, .streamSend, "send half was reset"⟩)
  | .dropped => .dropped

inductive SendAction where
  | complete
  | interrupt (accepted : ℕ) (how : SendInterrupt)
  deriving DecidableEq, Repr

/-- One end of a `write_all`. -/
def sendAllStep (data : Binary) (chunkSize : UInt64) (s : SendAll) : SendAction → Option SendAll
  | .complete =>
      match s.stage with
      | .writing last slice => some (.head data chunkSize last (s.slices ++ [slice]))
      | _ => none
  | .interrupt accepted how =>
      match s.stage with
      | .writing _ slice => some { s with accepted := slice.take accepted, stage := how.stage }
      | _ => none

/-! ### Where the loop is -/

/-- The number of writes for `length` bytes in chunks of `size`. -/
def writeCount (length size : ℕ) : ℕ := (length + size - 1) / size

/-- After `m` slices, all of the chunk size but for the last one of the data,
the loop is at `m` times the chunk size. -/
structure SendAll.Inv (data : Binary) (size : ℕ) (s : SendAll) : Prop where
  flatten : s.slices.flatten = data.take (s.slices.length * size)
  slices : ∀ slice ∈ s.slices, slice ≠ [] ∧ slice.length ≤ size
  /-- Every slice began inside the data. -/
  begun : ∀ m < s.slices.length, m * size < data.length
  stage : match s.stage with
    | .writing last slice =>
        s.written.toNat = s.slices.length * size ∧ s.slices.length * size < data.length ∧
          last.toNat = min (s.slices.length * size + size) data.length ∧
          slice = (data.drop (s.slices.length * size)).take size
    | .over (.ok n) => n.toNat = data.length ∧ data.length ≤ s.slices.length * size
    | .over (.error _) | .dropped => s.slices.length * size < data.length
    | .panicked => False

section Loop

variable {data : Binary} {chunkSize : UInt64}

/-- The whole of the data fits a `usize`. -/
theorem toNat_lenUsize (hlen : data.length < 2 ^ 63) : (lenUsize data).toNat = data.length :=
  UInt64.toNat_ofNat_of_lt' (hlen.trans (by decide))

/-- **No sum wraps around**: the first offset is zero, and after it the chunk
size is no longer than the data. -/
theorem add_chunkSize_lt (hlen : data.length < 2 ^ 63) {m : ℕ}
    (hm : m * chunkSize.toNat < data.length) : m * chunkSize.toNat + chunkSize.toNat < 2 ^ 64 := by
  cases m with
  | zero =>
      rw [Nat.zero_mul, Nat.zero_add]
      exact chunkSize.toNat_lt
  | succ m =>
      have hchunk : chunkSize.toNat ≤ (m + 1) * chunkSize.toNat :=
        Nat.le_mul_of_pos_left _ m.succ_pos
      omega

/-- From the head of the loop, with the offset at `m` times the chunk size or at
the end of the data. -/
theorem head_inv (hlen : data.length < 2 ^ 63) {written : UInt64} {slices : List Binary}
    (hwritten : written.toNat = min (slices.length * chunkSize.toNat) data.length)
    (hflatten : slices.flatten = data.take (slices.length * chunkSize.toNat))
    (hslices : ∀ slice ∈ slices, slice ≠ [] ∧ slice.length ≤ chunkSize.toNat)
    (hbegun : ∀ m < slices.length, m * chunkSize.toNat < data.length) :
    (SendAll.head data chunkSize written slices).Inv data chunkSize.toNat := by
  have hlenUsize := toNat_lenUsize hlen
  refine ⟨hflatten, hslices, hbegun, ?_⟩
  simp only [SendAll.head]
  by_cases hmore : written < lenUsize data
  · have hlt : slices.length * chunkSize.toNat < data.length := by
      rw [UInt64.lt_iff_toNat_lt, hwritten, hlenUsize] at hmore
      omega
    have hat : written.toNat = slices.length * chunkSize.toNat := by
      rw [hwritten, min_eq_left hlt.le]
    have hsum : (written + chunkSize).toNat =
        slices.length * chunkSize.toNat + chunkSize.toNat := by
      rw [UInt64.toNat_add, hat, Nat.mod_eq_of_lt (add_chunkSize_lt hlen hlt)]
    have hlast : (min (written + chunkSize) (lenUsize data)).toNat =
        min (slices.length * chunkSize.toNat + chunkSize.toNat) data.length := by
      rw [UInt64.toNat_min, hsum, hlenUsize]
    have hrange : written ≤ min (written + chunkSize) (lenUsize data) ∧
        (min (written + chunkSize) (lenUsize data)).toNat ≤ data.length := by
      rw [UInt64.le_iff_toNat_le, hlast, hat]
      omega
    rw [if_pos hmore, sliceRange, if_pos hrange]
    refine ⟨hat, hlt, hlast, ?_⟩
    -- what is cut off at the end of the data is cut off by `take` as well
    rw [hlast, hat, List.take_eq_take_iff, List.length_drop]
    omega
  · rw [if_neg hmore]
    rw [UInt64.lt_iff_toNat_lt, hwritten, hlenUsize] at hmore
    exact ⟨hlenUsize, by omega⟩

theorem sendAll_start_inv (hlen : data.length < 2 ^ 63) :
    (SendAll.start data chunkSize).Inv data chunkSize.toNat := by
  apply head_inv hlen
  · simp
  · simp
  · simp
  · simp

/-- Every step of the future. -/
inductive SendMove (data : Binary) (chunkSize : UInt64) (s : SendAll) : SendAction → SendAll → Prop
  | complete {last slice} : s.stage = .writing last slice →
      SendMove data chunkSize s .complete (.head data chunkSize last (s.slices ++ [slice]))
  | interrupt {last slice accepted how} : s.stage = .writing last slice →
      SendMove data chunkSize s (.interrupt accepted how)
        { s with accepted := slice.take accepted, stage := how.stage }

theorem sendAllStep_move {s s' : SendAll} {a : SendAction}
    (h : sendAllStep data chunkSize s a = some s') : SendMove data chunkSize s a s' := by
  cases a with
  | complete =>
      simp only [sendAllStep] at h
      split at h
      · next hstage => exact Option.some.inj h ▸ .complete hstage
      · cases h
  | interrupt accepted how =>
      simp only [sendAllStep] at h
      split at h
      · next hstage => exact Option.some.inj h ▸ .interrupt hstage
      · cases h

theorem SendAll.Inv.writing {size : ℕ} {s : SendAll} (hs : s.Inv data size) {last : UInt64}
    {slice : Binary} (hstage : s.stage = .writing last slice) :
    s.written.toNat = s.slices.length * size ∧ s.slices.length * size < data.length ∧
      last.toNat = min (s.slices.length * size + size) data.length ∧
      slice = (data.drop (s.slices.length * size)).take size := by
  have h := hs.stage
  rwa [hstage] at h

/-- Every step keeps the invariant. -/
theorem sendAllStep_inv (hlen : data.length < 2 ^ 63) (hchunk : 0 < chunkSize.toNat) (s : SendAll)
    (a : SendAction) (s' : SendAll) (hs : s.Inv data chunkSize.toNat)
    (h : sendAllStep data chunkSize s a = some s') : s'.Inv data chunkSize.toNat := by
  cases sendAllStep_move h with
  | @complete last slice hstage =>
      obtain ⟨-, hlt, hlast, hslice⟩ := hs.writing hstage
      have hnext : (s.slices ++ [slice]).length * chunkSize.toNat =
          s.slices.length * chunkSize.toNat + chunkSize.toNat := by
        rw [List.length_append, List.length_singleton, Nat.add_mul, Nat.one_mul]
      apply head_inv hlen
      · rw [hnext, hlast]
      · rw [hnext, List.flatten_append, hs.flatten, hslice, List.take_add]
        simp
      · intro x hx
        rcases List.mem_append.mp hx with hx | hx
        · exact hs.slices x hx
        · obtain rfl := List.mem_singleton.mp hx
          refine ⟨?_, ?_⟩
          · rw [hslice]
            apply List.ne_nil_of_length_pos
            rw [List.length_take, List.length_drop]
            omega
          · rw [hslice, List.length_take]
            exact min_le_left _ _
      · intro m hm
        rw [List.length_append, List.length_singleton] at hm
        rcases Nat.lt_succ_iff_lt_or_eq.mp hm with hm | rfl
        · exact hs.begun m hm
        · exact hlt
  | @interrupt last slice accepted how hstage =>
      obtain ⟨-, hlt, -⟩ := hs.writing hstage
      refine ⟨hs.flatten, hs.slices, hs.begun, ?_⟩
      cases how <;> exact hlt

/-- The invariant holds along every run. -/
theorem sendAll_inv (hlen : data.length < 2 ^ 63) (hchunk : 0 < chunkSize.toNat)
    {as : List SendAction} {s : SendAll}
    (h : run (sendAllStep data chunkSize) (.start data chunkSize) as = some s) :
    s.Inv data chunkSize.toNat :=
  run_invariant (sendAllStep_inv hlen hchunk) h (sendAll_start_inv hlen)

end Loop

/-! ### The number of writes -/

section Count

variable {length size m : ℕ}

theorem lt_writeCount (h : m * size < length) (hsize : 0 < size) : m < writeCount length size := by
  rw [writeCount, Nat.lt_iff_add_one_le, Nat.le_div_iff_mul_le hsize, Nat.add_mul, Nat.one_mul]
  omega

theorem writeCount_le (h : length ≤ m * size) (hsize : 0 < size) : writeCount length size ≤ m := by
  rw [writeCount, ← Nat.lt_succ_iff, Nat.div_lt_iff_lt_mul hsize, Nat.succ_mul]
  omega

end Count

section Loop

variable {data : Binary} {chunkSize : UInt64} {s : SendAll} {size : ℕ}

/-- Every slice began inside the data, so there are no more than it takes. -/
theorem SendAll.Inv.length_le (hs : s.Inv data size) (hsize : 0 < size) :
    s.slices.length ≤ writeCount data.length size := by
  cases hm : s.slices.length with
  | zero => exact Nat.zero_le _
  | succ m => exact lt_writeCount (hs.begun m (by omega)) hsize

/-- The loop is over with all of the data, or it has not completed its last write. -/
theorem SendAll.Inv.over (hs : s.Inv data size) (hsize : 0 < size) {n : UInt64}
    (hstage : s.stage = .over (.ok n)) :
    n.toNat = data.length ∧ s.slices.flatten = data ∧
      s.slices.length = writeCount data.length size := by
  have h := hs.stage
  rw [hstage] at h
  obtain ⟨hn, hall⟩ := h
  refine ⟨hn, ?_, ?_⟩
  · rw [hs.flatten, List.take_of_length_le hall]
  · exact (hs.length_le hsize).antisymm (writeCount_le hall hsize)

theorem SendAll.Inv.unfinished (hs : s.Inv data size) (hstage : ∀ n, s.stage ≠ .over (.ok n)) :
    s.slices.length * size < data.length := by
  have h := hs.stage
  split at h
  · exact h.2.1
  · next n hover => exact absurd hover (hstage n)
  · exact h
  · exact h
  · exact h.elim

/-- From the head of the loop a slice is written, or the loop is over. -/
theorem head_stage (data : Binary) (chunkSize written : UInt64) (slices : List Binary) :
    (∃ last slice, (SendAll.head data chunkSize written slices).stage = .writing last slice) ∨
      (∃ n, (SendAll.head data chunkSize written slices).stage = .over (.ok n)) ∨
      (SendAll.head data chunkSize written slices).stage = .panicked := by
  simp only [SendAll.head]
  split
  · split
    · exact .inl ⟨_, _, rfl⟩
    · exact .inr (.inr rfl)
  · exact .inr (.inl ⟨_, rfl⟩)

/-- As long as the writes complete, there is one more to do until there are as
many as it takes. -/
theorem run_complete (hlen : data.length < 2 ^ 63) (hchunk : 0 < chunkSize.toNat) {m : ℕ}
    (hm : m ≤ writeCount data.length chunkSize.toNat) :
    ∃ s, run (sendAllStep data chunkSize) (.start data chunkSize) (List.replicate m .complete) =
        some s ∧ s.slices.length = m ∧
      ((∃ last slice, s.stage = .writing last slice) ∨ ∃ n, s.stage = .over (.ok n)) := by
  have hhead : ∀ {written : UInt64} {slices : List Binary},
      (SendAll.head data chunkSize written slices).Inv data chunkSize.toNat →
      (∃ last slice, (SendAll.head data chunkSize written slices).stage = .writing last slice) ∨
        ∃ n, (SendAll.head data chunkSize written slices).stage = .over (.ok n) := by
    intro written slices hinv
    rcases head_stage data chunkSize written slices with h | h | h
    · exact .inl h
    · exact .inr h
    · -- within the invariant no range is out of bounds
      have hstage := hinv.stage
      rw [h] at hstage
      exact hstage.elim
  -- the invariant of each run gives the range of the write that comes next
  induction m with
  | zero => exact ⟨_, rfl, rfl, hhead (sendAll_start_inv hlen)⟩
  | succ m ih =>
      obtain ⟨s, hrun, hlength, hstage⟩ := ih (Nat.le_of_succ_le hm)
      have hs := sendAll_inv hlen hchunk hrun
      rcases hstage with ⟨last, slice, hstage⟩ | ⟨n, hstage⟩
      · have hstep : sendAllStep data chunkSize s .complete =
            some (.head data chunkSize last (s.slices ++ [slice])) := by
          simp only [sendAllStep, hstage]
        refine ⟨_, ?_, ?_, hhead (sendAllStep_inv hlen hchunk s .complete _ hs hstep)⟩
        · rw [List.replicate_succ', run_append, hrun, Option.bind_some, run_cons_of_step _ hstep,
            run_nil]
        · show (s.slices ++ [slice]).length = m + 1
          rw [List.length_append, List.length_singleton, hlength]
      · -- the loop would be over too early
        have hcount := (hs.over hchunk hstage).2.2
        omega

end Loop

/-! ### Chunked sends -/

/-- What holds of a send-all in any state: of the slice being written, and of
those completed. -/
structure SendAll.Exact (data : Binary) (chunkSize : UInt64) (s : SendAll) : Prop where
  /-- The range of the slice being written does not wrap around and is one of
  the data, neither empty nor longer than a chunk, next after those completed. -/
  writing : ∀ last slice, s.stage = .writing last slice →
    s.written.toNat + chunkSize.toNat < 2 ^ 64 ∧ s.written < last ∧ last ≤ lenUsize data ∧
      sliceRange data s.written last = some slice ∧ slice ≠ [] ∧
      slice.length ≤ chunkSize.toNat ∧
      s.slices.flatten ++ slice ++ data.drop last.toNat = data
  completed : ∀ slice ∈ s.slices, slice ≠ [] ∧ slice.length ≤ chunkSize.toNat
  /-- A send that is over has written the data. -/
  whole : ∀ n, s.stage = .over (.ok n) → n.toNat = data.length ∧ s.slices.flatten = data ∧
    s.slices.length = writeCount data.length chunkSize.toNat
  /-- Until then whole chunks are completed, and fewer than it takes. -/
  prefix_of : (∀ n, s.stage ≠ .over (.ok n)) → s.slices.flatten <+: data ∧
    s.slices.flatten.length = s.slices.length * chunkSize.toNat ∧
    s.slices.length < writeCount data.length chunkSize.toNat
  unpanicked : s.stage ≠ .panicked

theorem SendAll.Inv.exact {data : Binary} {chunkSize : UInt64} {s : SendAll}
    (hlen : data.length < 2 ^ 63) (hchunk : 0 < chunkSize.toNat)
    (hs : s.Inv data chunkSize.toNat) : s.Exact data chunkSize where
  writing last slice hstage := by
    obtain ⟨hat, hlt, hlast, hslice⟩ := hs.writing hstage
    have hlenUsize := toNat_lenUsize hlen
    have hsize : slice.length = last.toNat - s.written.toNat := by
      rw [hslice, List.length_take, List.length_drop, hlast, hat]
      omega
    have hwithin : s.written.toNat < last.toNat ∧ last.toNat ≤ data.length := by
      rw [hlast, hat]
      omega
    refine ⟨?_, ?_, ?_, ?_, ?_, ?_, ?_⟩
    · rw [hat]
      exact add_chunkSize_lt hlen hlt
    · exact UInt64.lt_iff_toNat_lt.mpr hwithin.1
    · rw [UInt64.le_iff_toNat_le, hlenUsize]
      exact hwithin.2
    · rw [sliceRange, if_pos ⟨UInt64.le_iff_toNat_le.mpr hwithin.1.le, hwithin.2⟩, hslice,
        ← hat, Option.some.injEq, List.take_eq_take_iff, List.length_drop]
      omega
    · apply List.ne_nil_of_length_pos
      omega
    · rw [hslice, List.length_take]
      exact min_le_left _ _
    · -- the last slice may be short, and then ends with the data
      have htake : slice = (data.drop (s.slices.length * chunkSize.toNat)).take
          (last.toNat - s.slices.length * chunkSize.toNat) := by
        rw [hslice, List.take_eq_take_iff, List.length_drop, hlast]
        omega
      rw [hs.flatten, htake, ← List.take_add, Nat.add_sub_cancel' (by omega),
        List.take_append_drop]
  completed := hs.slices
  whole n hstage := hs.over hchunk hstage
  prefix_of hstage := by
    have hlt := hs.unfinished hstage
    refine ⟨?_, ?_, lt_writeCount hlt hchunk⟩
    · rw [hs.flatten]
      exact List.take_prefix _ _
    · rw [hs.flatten, List.length_take, min_eq_left hlt.le]
  unpanicked hstage := by
    have h := hs.stage
    rw [hstage] at h
    exact h

/-- What the stream has of the data. -/
def SendAll.sent (s : SendAll) : Binary := s.slices.flatten ++ s.accepted

section Sent

variable {data : Binary} {chunkSize : UInt64} {as : List SendAction} {s : SendAll}

/-- The stream has a prefix of the data at any time. -/
theorem sent_prefix (hlen : data.length < 2 ^ 63) (hchunk : 0 < chunkSize.toNat)
    (h : run (sendAllStep data chunkSize) (.start data chunkSize) as = some s) :
    s.sent <+: data := by
  refine (run_invariant (P := fun s => s.Inv data chunkSize.toNat ∧ s.sent <+: data) ?_ h
    ⟨sendAll_start_inv hlen, List.nil_prefix⟩).2
  rintro s a s' ⟨hs, -⟩ hstep
  have hs' := sendAllStep_inv hlen hchunk s a s' hs hstep
  refine ⟨hs', ?_⟩
  cases sendAllStep_move hstep with
  | complete _ =>
      show _ ++ [] <+: data
      rw [List.append_nil, hs'.flatten]
      exact List.take_prefix _ _
  | @interrupt last slice accepted how hstage =>
      obtain ⟨-, -, -, hslice⟩ := hs.writing hstage
      show s.slices.flatten ++ slice.take accepted <+: data
      rw [hs.flatten, hslice, List.take_take, ← List.take_add]
      exact List.take_prefix _ _

/-- **The loop is the send of `Wire.send`**: once it is over, the stream has the
same bytes, and the result is the same. -/
theorem sendAll_startStreamSend (hdata : data ≠ []) (hlen : data.length < 2 ^ 63)
    (hchunk : 0 < chunkSize.toNat)
    (h : run (sendAllStep data chunkSize) (.start data chunkSize) as = some s) :
    (∀ n, s.stage = .over (.ok n) →
      startStreamSend data chunkSize.toNat .complete = (s.sent, .ok n.toNat)) ∧
    ∀ e, s.stage = .over (.error e) →
      startStreamSend data chunkSize.toNat (.failed s.sent.length e) = (s.sent, .error e) := by
  have hsent := sent_prefix hlen hchunk h
  have hvalid : ¬ (data = [] ∨ chunkSize.toNat = 0) := by
    rintro (hnil | hzero)
    · exact hdata hnil
    · exact hchunk.ne' hzero
  refine ⟨?_, ?_⟩
  · intro n hstage
    obtain ⟨hn, hall, -⟩ := (sendAll_inv hlen hchunk h).over hchunk hstage
    have heq : s.sent = data := by
      -- a prefix that is as long
      apply hsent.eq_of_length_le
      rw [SendAll.sent, hall, List.length_append]
      exact Nat.le_add_right _ _
    rw [startStreamSend, if_neg hvalid, heq, hn]
  · intro e _
    rw [startStreamSend, if_neg hvalid, ← List.prefix_iff_eq_take.mp hsent]

end Sent

/-- **Chunked sends are exact.**  For any data and any chunk size a `usize` can
hold, in every state of a send-all no sum has wrapped around, and the slices are
those of the data in order; if the writes complete, the loop is over after as
many as it takes. -/
theorem send_all_exact {data : Binary} {chunkSize : UInt64} (hlen : data.length < 2 ^ 63)
    (hchunk : chunkSize ≠ 0) :
    (∀ as s, run (sendAllStep data chunkSize) (.start data chunkSize) as = some s →
      s.Exact data chunkSize) ∧
    ∃ s n, run (sendAllStep data chunkSize) (.start data chunkSize)
        (List.replicate (writeCount data.length chunkSize.toNat) .complete) = some s ∧
      s.stage = .over (.ok n) := by
  have hpos : 0 < chunkSize.toNat := by
    apply Nat.pos_of_ne_zero
    intro hzero
    exact hchunk (UInt64.toNat_inj.mp hzero)
  refine ⟨fun as s h => (sendAll_inv hlen hpos h).exact hlen hpos, ?_⟩
  obtain ⟨s, hrun, hlength, hstage⟩ := run_complete hlen hpos le_rfl
  refine ⟨s, ?_⟩
  rcases hstage with ⟨last, slice, hstage⟩ | ⟨n, hstage⟩
  · -- a slice more would begin behind the data
    have hs := sendAll_inv hlen hpos hrun
    have hlt := lt_writeCount (hs.writing hstage).2.1 hpos
    omega
  · exact ⟨n, hrun, hstage⟩

/-- Five bytes in chunks of two, and in one of the largest size. -/
theorem send_all_exact_sample :
    (∃ s, run (sendAllStep [1, 2, 3, 4, 5] 2) (.start [1, 2, 3, 4, 5] 2)
        [.complete, .complete, .complete] = some s ∧ s.slices = [[1, 2], [3, 4], [5]] ∧
        s.Exact [1, 2, 3, 4, 5] 2) ∧
      ∃ s, run (sendAllStep [1, 2, 3, 4, 5] 0xffffffffffffffff)
          (.start [1, 2, 3, 4, 5] 0xffffffffffffffff) [.complete] = some s ∧
        s.slices = [[1, 2, 3, 4, 5]] ∧
        s.Exact [1, 2, 3, 4, 5] 0xffffffffffffffff := by
  have hlen : ([1, 2, 3, 4, 5] : Binary).length < 2 ^ 63 := by
    show 5 < 2 ^ 63
    omega
  refine ⟨⟨_, rfl, rfl, ?_⟩, ⟨_, rfl, rfl, ?_⟩⟩
  · exact (send_all_exact hlen (by decide)).1 [.complete, .complete, .complete] _ rfl
  · exact (send_all_exact hlen (by decide)).1 [.complete] _ rfl

end IrohBeam
