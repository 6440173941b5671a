/-
IrohBeam/ReadToEnd.lean

`recv_to_end/3` of `lib/iroh_beam/stream.ex`.

The loop asks for what is left of the limit, at most 64 KiB at a time, and goes
on until the stream ends or the limit is reached.  At the limit it asks for one
byte more, to tell a stream that ends there from one that does not.

A run records its calls of `recv/3`: what each asks for and what it gets.
`recvToEndLoop_spec` says what the loop does from any point on, on every
chunking and with every failure; the fuel is the number of rounds, and what is
left of the limit is always enough, since each round takes a byte off it.
-/
import IrohBeam.Stream

namespace IrohBeam

open Bytes

/-! ### The loop -/

/-- `@default_chunk_size`. -/
def defaultChunkSize : ℕ := 64 * 1024

/-- The error at the limit. -/
def limitExhausted : Error :=
  ⟨.invalidArgument, .streamRecv, "read-to-end hard limit was exhausted"⟩

/-- What `recv_to_end` returns, the stream as it leaves it, and its calls of
`recv`. -/
structure ReadToEnd where
  result : Except Error Binary
  wire : Wire
  calls : List (ℕ × RecvResult)

/-- The same after one call more at the front. -/
def ReadToEnd.after (r : ReadToEnd) (limit : ℕ) (result : RecvResult) : ReadToEnd :=
  { r with calls := (limit, result) :: r.calls }

/-- `recv(stream, 1, options)` at the limit. -/
def Wire.probe (w : Wire) (timeout : ℕ) (chunks : List Binary) : ReadToEnd :=
  match w.recv 1 timeout with
  | (.eof, w') => ⟨.ok chunks.reverse.flatten, w', [(1, .eof)]⟩
  | (.data extra, w') => ⟨.error limitExhausted, w', [(1, .data extra)]⟩
  | (.error e, w') => ⟨.error e, w', [(1, .error e)]⟩

/-- `recv_to_end/5`; `none` if it has not returned after `fuel` rounds. -/
def recvToEndLoop (hardLimit timeout : ℕ) : ℕ → List Binary → ℕ → Wire → Option ReadToEnd
  | 0, _, _, _ => none
  | fuel + 1, chunks, total, w =>
      let remaining := hardLimit - total
      let chunkSize := min remaining defaultChunkSize
      match w.recv chunkSize timeout with
      | (.eof, w') => some ⟨.ok chunks.reverse.flatten, w', [(chunkSize, .eof)]⟩
      | (.data data, w') =>
          let nextTotal := total + data.length
          let rest :=
            if nextTotal = hardLimit then some (w'.probe timeout (data :: chunks))
            else recvToEndLoop hardLimit timeout fuel (data :: chunks) nextTotal w'
          rest.map fun r => r.after chunkSize (.data data)
      | (.error e, w') => some ⟨.error e, w', [(chunkSize, .error e)]⟩

/-- `recv_to_end/3` with the `timeout` option given. -/
def Wire.recvToEnd (w : Wire) (fuel hardLimit timeout : ℕ) : Option ReadToEnd :=
  if 0 < hardLimit then recvToEndLoop hardLimit timeout fuel [] 0 w
  else
    some ⟨.error ⟨.invalidArgument, .streamRecv, "read-to-end requires a positive hard limit"⟩, w, []⟩

/-! ### One call of `recv` -/

/-- Every receive returns at least one byte, the end of the stream, or an error. -/
def Wire.Answers (w : Wire) : Prop :=
  ∀ i, (∃ n, 0 < n ∧ w.replies i = .bytes n) ∨ ∃ e, w.replies i = .failed e

theorem Wire.Flows.answers {w : Wire} (h : w.Flows) : w.Answers := fun i => .inl (h i)

/-- The bytes of a reply. -/
def RecvResult.taken : RecvResult → Binary
  | .data bytes => bytes
  | _ => []

/-- What one call does to the stream. -/
inductive RecvMove (maxBytes : ℕ) (w : Wire) : RecvResult → Wire → Prop
  | error {e w'} : w'.unread = w.unread → RecvMove maxBytes w (.error e) w'
  | eof {w'} : w.unread = [] → w'.unread = [] → RecvMove maxBytes w .eof w'
  | data {data w'} : 1 ≤ data.length → data.length ≤ maxBytes →
      w.unread = data ++ w'.unread → w'.Answers → RecvMove maxBytes w (.data data) w'

theorem recv_move {w : Wire} (hw : w.Answers) (maxBytes timeout : ℕ) :
    RecvMove maxBytes w (w.recv maxBytes timeout).1 (w.recv maxBytes timeout).2 := by
  unfold Wire.recv
  split
  · next hmax =>
      split
      · have hnext : Wire.Answers { w with replies := fun i => w.replies (i + 1) } :=
          fun i => hw (i + 1)
        rcases hw 0 with ⟨n, hn, hreply⟩ | ⟨e, hreply⟩
        · simp only [hreply]
          split
          · next hnil => exact .eof hnil hnil
          · next hne =>
              have hpos := List.length_pos_iff.mpr hne
              refine .data ?_ ?_ (List.take_append_drop _ _).symm hnext
              · rw [List.length_take]
                omega
              · rw [List.length_take]
                omega
        · simp only [hreply]
          exact .error rfl
      · exact .error rfl
  · exact .error rfl

/-- A stream that flows gives no error. -/
theorem recv_flows_move {w : Wire} (hw : w.Flows) {maxBytes timeout : ℕ}
    (hmax : 1 ≤ maxBytes ∧ maxBytes ≤ 16 * 1024 * 1024) (ht : 0 < timeout) :
    (∀ e, (w.recv maxBytes timeout).1 ≠ .error e) ∧ (w.recv maxBytes timeout).2.Flows := by
  obtain ⟨n, -, hreply⟩ := hw 0
  simp only [Wire.recv, if_pos hmax, if_pos ht, hreply]
  split
  · exact ⟨fun e => RecvResult.noConfusion, fun i => hw (i + 1)⟩
  · exact ⟨fun e => RecvResult.noConfusion, fun i => hw (i + 1)⟩

/-! ### The loop on every chunking -/

/-- The bytes taken off the stream. -/
def ReadToEnd.taken (r : ReadToEnd) : Binary := (r.calls.map fun call => call.2.taken).flatten

/-- No call of `recv` has failed. -/
def ReadToEnd.Unfailing (r : ReadToEnd) : Prop := ∀ limit e, (limit, .error e) ∉ r.calls

/-- What the calls ask for, the first of them with `total` bytes received: at
most what is left of the limit and 64 KiB, or one byte at the limit. -/
def Asks (hardLimit : ℕ) : ℕ → List (ℕ × RecvResult) → Prop
  | _, [] => True
  | total, (limit, result) :: calls =>
      (total < hardLimit ∧ 1 ≤ limit ∧ limit ≤ min (hardLimit - total) defaultChunkSize ∨
        total = hardLimit ∧ limit = 1) ∧
      Asks hardLimit (total + result.taken.length) calls

/-- What the loop does from the point where it has `total` bytes in `chunks`. -/
structure ReadToEnd.Spec (hardLimit total : ℕ) (chunks : List Binary) (w : Wire)
    (r : ReadToEnd) : Prop where
  asks : Asks hardLimit total r.calls
  split : w.unread = r.taken ++ r.wire.unread
  bounded : total + r.taken.length ≤ hardLimit + 1
  failed : ∀ limit e, (limit, .error e) ∈ r.calls → r.result = .error e
  whole : r.Unfailing → r.result =
    if total + w.unread.length ≤ hardLimit then .ok (chunks.reverse.flatten ++ w.unread)
    else .error limitExhausted

section Loop

variable {hardLimit total timeout : ℕ} {chunks : List Binary} {w : Wire}

/-- A call that fails ends the loop with its error. -/
theorem ReadToEnd.Spec.error {limit : ℕ} {e : Error} {w' : Wire} (htotal : total ≤ hardLimit)
    (hasks : Asks hardLimit total [(limit, .error e)]) (hunread : w'.unread = w.unread) :
    ReadToEnd.Spec hardLimit total chunks w ⟨.error e, w', [(limit, .error e)]⟩ where
  asks := hasks
  split := hunread.symm
  bounded := Nat.le_succ_of_le htotal
  failed limit' e' h := by
    obtain ⟨-, he⟩ := Prod.mk.inj (List.mem_singleton.mp h)
    rw [RecvResult.error.inj he]
  whole h := absurd (List.mem_singleton.mpr rfl) (h limit e)

/-- At the end of the stream the chunks are all there was. -/
theorem ReadToEnd.Spec.eof {limit : ℕ} {w' : Wire} (htotal : total ≤ hardLimit)
    (hasks : Asks hardLimit total [(limit, .eof)]) (hnil : w.unread = [])
    (hnil' : w'.unread = []) :
    ReadToEnd.Spec hardLimit total chunks w ⟨.ok chunks.reverse.flatten, w', [(limit, .eof)]⟩ where
  asks := hasks
  split := by rw [hnil, hnil']; rfl
  bounded := Nat.le_succ_of_le htotal
  failed limit' e h := by
    obtain ⟨-, he⟩ := Prod.mk.inj (List.mem_singleton.mp h)
    cases he
  whole _ := by
    rw [hnil, List.length_nil, Nat.add_zero, if_pos htotal, List.append_nil]

/-- A chunk in front. -/
theorem ReadToEnd.Spec.after {limit : ℕ} {data : Binary} {w' : Wire} {r : ReadToEnd}
    (h : r.Spec hardLimit (total + data.length) (data :: chunks) w')
    (htotal : total < hardLimit) (hlimit : 1 ≤ limit)
    (hle : limit ≤ min (hardLimit - total) defaultChunkSize) (hunread : w.unread = data ++ w'.unread) :
    (r.after limit (.data data)).Spec hardLimit total chunks w where
  asks := ⟨.inl ⟨htotal, hlimit, hle⟩, h.asks⟩
  split := by
    rw [hunread, h.split]
    simp [ReadToEnd.taken, ReadToEnd.after, RecvResult.taken]
  bounded := by
    have hbounded := h.bounded
    simp only [ReadToEnd.taken, ReadToEnd.after, RecvResult.taken, List.map_cons, List.flatten_cons,
      List.length_append] at hbounded ⊢
    omega
  failed limit' e hmem := by
    rcases List.mem_cons.mp hmem with heq | hmem
    · cases (Prod.mk.inj heq).2
    · exact h.failed limit' e hmem
  whole hok := by
    have hrest : r.Unfailing := fun limit' e hmem => hok limit' e (List.mem_cons_of_mem _ hmem)
    show r.result = _
    rw [h.whole hrest, hunread, List.length_append, Nat.add_assoc, List.reverse_cons,
      List.flatten_append, List.append_assoc]
    simp

/-- The probe tells a stream that ends at the limit from a longer one. -/
theorem probe_spec (hw : w.Answers) (timeout : ℕ) (chunks : List Binary) :
    (w.probe timeout chunks).Spec hardLimit hardLimit chunks w := by
  have hmove := recv_move hw 1 timeout
  unfold Wire.probe
  generalize w.recv 1 timeout = answer at hmove ⊢
  obtain ⟨result, w'⟩ := answer
  have hasks : Asks hardLimit hardLimit [(1, result)] := ⟨.inr ⟨rfl, rfl⟩, trivial⟩
  cases hmove with
  | error hunread => exact .error le_rfl hasks hunread
  | eof hnil hnil' => exact .eof le_rfl hasks hnil hnil'
  | @data extra w' hpos hone hunread _ =>
      refine ⟨hasks, ?_, ?_, ?_, ?_⟩
      · simpa [ReadToEnd.taken, RecvResult.taken] using hunread
      · simpa [ReadToEnd.taken, RecvResult.taken] using hone
      · intro limit e h
        cases (Prod.mk.inj (List.mem_singleton.mp h)).2
      · intro _
        -- the byte of the probe is one above the limit
        rw [if_neg]
        rw [hunread, List.length_append]
        omega

/-- **Spec of the loop**: with as much fuel as is left of the limit it returns,
and does as it should. -/
theorem recvToEndLoop_spec (fuel : ℕ) (hw : w.Answers) (htotal : total < hardLimit)
    (hfuel : hardLimit - total ≤ fuel) :
    ∃ r, recvToEndLoop hardLimit timeout fuel chunks total w = some r ∧
      r.Spec hardLimit total chunks w := by
  induction fuel generalizing total chunks w with
  | zero => omega
  | succ fuel ih =>
      have hlimit : 1 ≤ min (hardLimit - total) defaultChunkSize :=
        le_min (Nat.sub_pos_of_lt htotal) (by decide)
      have hmove := recv_move hw (min (hardLimit - total) defaultChunkSize) timeout
      simp only [recvToEndLoop]
      generalize w.recv (min (hardLimit - total) defaultChunkSize) timeout = answer at hmove ⊢
      obtain ⟨result, w'⟩ := answer
      have hasks : ∀ calls, Asks hardLimit (total + result.taken.length) calls →
          Asks hardLimit total ((min (hardLimit - total) defaultChunkSize, result) :: calls) :=
        fun calls h => ⟨.inl ⟨htotal, hlimit, le_rfl⟩, h⟩
      cases hmove with
      | error hunread => exact ⟨_, rfl, .error htotal.le (hasks [] trivial) hunread⟩
      | eof hnil hnil' => exact ⟨_, rfl, .eof htotal.le (hasks [] trivial) hnil hnil'⟩
      | @data data w' hpos hle hunread hw' =>
          have hleft : data.length ≤ hardLimit - total := hle.trans (min_le_left _ _)
          by_cases hfull : total + data.length = hardLimit
          · -- the limit is reached: the probe is the last call
            simp only [if_pos hfull]
            refine ⟨_, rfl, .after ?_ htotal hlimit le_rfl hunread⟩
            rw [hfull]
            exact probe_spec hw' timeout _
          · -- data is never empty, so the fuel lasts
            have hnext : ∃ r, recvToEndLoop hardLimit timeout fuel (data :: chunks)
                (total + data.length) w' = some r ∧
                r.Spec hardLimit (total + data.length) (data :: chunks) w' :=
              ih hw' (by omega) (by omega)
            obtain ⟨r, hr, hspec⟩ := hnext
            simp only [if_neg hfull, hr]
            exact ⟨_, rfl, hspec.after htotal hlimit le_rfl hunread⟩

/-- More fuel changes nothing. -/
theorem recvToEndLoop_mono {r : ReadToEnd} {fuel fuel' : ℕ} (hle : fuel ≤ fuel')
    (h : recvToEndLoop hardLimit timeout fuel chunks total w = some r) :
    recvToEndLoop hardLimit timeout fuel' chunks total w = some r := by
  induction fuel generalizing fuel' total chunks w r with
  | zero => cases h
  | succ fuel ih =>
      obtain ⟨fuel', rfl⟩ := Nat.exists_eq_add_of_le' (Nat.lt_of_lt_of_le fuel.succ_pos hle)
      simp only [recvToEndLoop] at h ⊢
      split
      · next hrecv => simpa only [hrecv] using h
      · next data w' hrecv =>
          simp only [hrecv] at h
          obtain ⟨r', hr', rfl⟩ := Option.map_eq_some_iff.mp h
          refine Option.map_eq_some_iff.mpr ⟨r', ?_, rfl⟩
          split at hr'
          · next hfull => rwa [if_pos hfull]
          · next hfull =>
              rw [if_neg hfull]
              exact ih (Nat.le_of_succ_le_succ hle) hr'
      · next hrecv => simpa only [hrecv] using h

theorem ReadToEnd.Unfailing.after {r : ReadToEnd} (h : r.Unfailing) {limit : ℕ}
    {result : RecvResult} (hresult : ∀ e, result ≠ .error e) :
    (r.after limit result).Unfailing := by
  intro limit' e hmem
  rcases List.mem_cons.mp hmem with heq | hmem
  · exact hresult e (Prod.mk.inj heq).2.symm
  · exact h limit' e hmem

theorem probe_unfailing (hw : w.Flows) (ht : 0 < timeout) (chunks : List Binary) :
    (w.probe timeout chunks).Unfailing := by
  have hok : ∀ e, (w.recv 1 timeout).1 ≠ .error e := (recv_flows_move hw (by decide) ht).1
  unfold Wire.probe
  split
  · intro limit e h
    cases (Prod.mk.inj (List.mem_singleton.mp h)).2
  · intro limit e h
    cases (Prod.mk.inj (List.mem_singleton.mp h)).2
  · next e _ hrecv => exact absurd (congrArg Prod.fst hrecv) (hok e)

/-- On a stream that flows no call fails. -/
theorem recvToEndLoop_unfailing {r : ReadToEnd} (fuel : ℕ) (hw : w.Flows) (ht : 0 < timeout)
    (htotal : total < hardLimit)
    (h : recvToEndLoop hardLimit timeout fuel chunks total w = some r) : r.Unfailing := by
  induction fuel generalizing total chunks w r with
  | zero => cases h
  | succ fuel ih =>
      have hmax : 1 ≤ min (hardLimit - total) defaultChunkSize ∧
          min (hardLimit - total) defaultChunkSize ≤ 16 * 1024 * 1024 := by
        rw [defaultChunkSize]
        omega
      have hmove := recv_move hw.answers (min (hardLimit - total) defaultChunkSize) timeout
      obtain ⟨hok, hflows⟩ := recv_flows_move hw hmax ht
      simp only [recvToEndLoop] at h
      generalize w.recv (min (hardLimit - total) defaultChunkSize) timeout = answer
        at h hmove hok hflows
      obtain ⟨result, w'⟩ := answer
      -- what flows answers with data or its end
      cases hmove with
      | error _ => exact absurd rfl (hok _)
      | eof _ _ =>
          obtain rfl := Option.some.inj h
          intro limit e hmem
          cases (Prod.mk.inj (List.mem_singleton.mp hmem)).2
      | @data data w' hpos hle _ _ =>
          have hleft : data.length ≤ hardLimit - total := hle.trans (min_le_left _ _)
          obtain ⟨r', hr', rfl⟩ := Option.map_eq_some_iff.mp h
          refine ReadToEnd.Unfailing.after ?_ hok
          split at hr'
          · obtain rfl := Option.some.inj hr'
            exact probe_unfailing hflows ht _
          · exact ih hflows (by omega) hr'

end Loop

/-! ### Bounded read-to-end -/

/-- What holds of the calls, whatever the chunking and whatever fails. -/
structure ReadToEnd.Bounded (hardLimit : ℕ) (w : Wire) (r : ReadToEnd) : Prop where
  /-- The calls ask for what is left of the limit, or probe at it. -/
  asks : Asks hardLimit 0 r.calls
  /-- At most one byte above the limit is taken, off the front. -/
  split : w.unread = r.taken ++ r.wire.unread
  bounded : r.taken.length ≤ hardLimit + 1
  /-- An error of `recv` is returned as it is. -/
  failed : ∀ limit e, (limit, .error e) ∈ r.calls → r.result = .error e

/-- **Bounded read-to-end.**  On every chunking `recv_to_end` returns, with the
content of the stream if and only if it is within the limit, and with the
exhausted limit otherwise; if a call of `recv` fails it returns that error; and
it asks for no more and takes no more than the limit allows. -/
theorem recvToEnd_bounded {w : Wire} (hw : w.Answers) {hardLimit : ℕ} (hlimit : 0 < hardLimit)
    (timeout : ℕ) :
    ∃ r : ReadToEnd, (∀ fuel, hardLimit ≤ fuel → w.recvToEnd fuel hardLimit timeout = some r) ∧
      r.Bounded hardLimit w ∧
      (w.Flows → 0 < timeout → r.Unfailing ∧
        (r.result = .ok w.unread ↔ w.unread.length ≤ hardLimit) ∧
        (hardLimit < w.unread.length → r.result = .error limitExhausted)) := by
  have hloop : ∃ r, recvToEndLoop hardLimit timeout hardLimit [] 0 w = some r ∧
      r.Spec hardLimit 0 [] w :=
    recvToEndLoop_spec hardLimit hw hlimit (Nat.sub_le _ _)
  obtain ⟨r, hr, hspec⟩ := hloop
  refine ⟨r, ?_, ⟨hspec.asks, hspec.split, ?_, hspec.failed⟩, ?_⟩
  · intro fuel hfuel
    rw [Wire.recvToEnd, if_pos hlimit]
    exact recvToEndLoop_mono hfuel hr
  · simpa using hspec.bounded
  · intro hflows ht
    have hok := recvToEndLoop_unfailing hardLimit hflows ht hlimit hr
    have hwhole := hspec.whole hok
    rw [Nat.zero_add, List.reverse_nil, List.flatten_nil, List.nil_append] at hwhole
    refine ⟨hok, ?_, ?_⟩
    · constructor
      · intro hresult
        by_contra hlong
        rw [hwhole, if_neg hlong] at hresult
        cases hresult
      · intro hle
        rw [hwhole, if_pos hle]
    · intro hlong
      rw [hwhole, if_neg (Nat.not_le.mpr hlong)]

/-- Three bytes, given two at a time. -/
def sampleContent : Wire where
  unread := [1, 2, 3]
  replies _ := .bytes 2
  written := []
  outcomes _ := .complete

/-- The limit is the length of the content: the probe finds the end. -/
theorem recvToEnd_bounded_sample :
    ∃ r, sampleContent.recvToEnd 3 3 5000 = some r ∧ r.result = .ok [1, 2, 3] ∧
      r.Bounded 3 sampleContent := by
  have hflows : sampleContent.Flows := fun _ => ⟨2, by decide, rfl⟩
  obtain ⟨r, hr, hbounded, hwhole⟩ := recvToEnd_bounded hflows.answers (by decide : 0 < 3) 5000
  obtain ⟨-, hresult, -⟩ := hwhole hflows (by decide)
  exact ⟨r, hr 3 le_rfl, hresult.mpr (by decide), hbounded⟩

end IrohBeam
