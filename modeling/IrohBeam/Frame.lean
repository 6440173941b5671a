/-
IrohBeam/Frame.lean

Length-prefixed frames, as a format.

A frame is a big-endian length field of `w` bytes followed by that many
payload bytes.  `greedy w hw limit b` is the meaning of a byte string `b`: the
complete frames it starts with, and why decoding stops there: the rest
is a proper part of a frame (`pending`), or a complete length field
announces more than `limit` bytes (`tooLarge`).

The facts incremental decoders are proved against:

* `greedy_reads` — the packets are the frames the byte string starts with,
  and what follows them is no frame within the limit;
* `greedy_append` — decoding goes on from the pending rest, so a byte
  string may be cut anywhere;
* `greedy_encodeAll_append` — encoded payloads decode to themselves;
* `greedy_of_prefix` — a prefix of an encoding decodes to a prefix of
  the payloads.
-/
import IrohBeam.Bytes

namespace Frame

open Bytes

/-! ### Encoding and decoding -/

/-- One frame: the payload's length in `w` bytes, then the payload. -/
def encode (w : ℕ) (p : Binary) : Binary := be w p.length ++ p

/-- The frames of a list of payloads, one after the other. -/
def encodeAll (w : ℕ) (ps : List Binary) : Binary := ps.flatMap (encode w)

/-- Why decoding stops. -/
inductive Stop where
  | pending (rest : Binary)
  | tooLarge (length : ℕ)
  deriving DecidableEq, Repr

/-- The complete frames of a byte string and why decoding stops after them. -/
structure Decoded where
  packets : List Binary
  stop : Stop
  deriving DecidableEq, Repr

/-- Put packets in front of a decoding. -/
def Decoded.prepend (ps : List Binary) (d : Decoded) : Decoded := ⟨ps ++ d.packets, d.stop⟩

/-- Greedy decoding of a byte string with length fields of `w` bytes. -/
def greedy (w : ℕ) (hw : 0 < w) (limit : ℕ) (b : Binary) : Decoded :=
  if _h : b.length < w then ⟨[], .pending b⟩
  else if ofBe (b.take w) > limit then ⟨[], .tooLarge (ofBe (b.take w))⟩
  else if b.length - w < ofBe (b.take w) then ⟨[], .pending b⟩
  else
    (greedy w hw limit (b.drop (w + ofBe (b.take w)))).prepend
      [(b.drop w).take (ofBe (b.take w))]
termination_by b.length
decreasing_by rw [List.length_drop]; omega

@[simp] theorem prepend_packets (ps : List Binary) (d : Decoded) :
    (d.prepend ps).packets = ps ++ d.packets := rfl

@[simp] theorem prepend_stop (ps : List Binary) (d : Decoded) : (d.prepend ps).stop = d.stop := rfl

@[simp] theorem prepend_nil (d : Decoded) : d.prepend [] = d := rfl

theorem prepend_prepend (ps qs : List Binary) (d : Decoded) :
    (d.prepend qs).prepend ps = d.prepend (ps ++ qs) := by
  simp [Decoded.prepend]

@[simp] theorem encodeAll_nil (w : ℕ) : encodeAll w [] = [] := rfl

@[simp] theorem encodeAll_cons (w : ℕ) (p : Binary) (ps : List Binary) :
    encodeAll w (p :: ps) = encode w p ++ encodeAll w ps := rfl

@[simp] theorem encodeAll_append (w : ℕ) (ps qs : List Binary) :
    encodeAll w (ps ++ qs) = encodeAll w ps ++ encodeAll w qs :=
  List.flatMap_append

@[simp] theorem length_encode (w : ℕ) (p : Binary) : (encode w p).length = w + p.length := by
  simp [encode]

variable {w : ℕ} {hw : 0 < w} {limit : ℕ}

/-! ### The four cases of decoding -/

theorem greedy_short {b : Binary} (h : b.length < w) :
    greedy w hw limit b = ⟨[], .pending b⟩ := by
  rw [greedy, dif_pos h]

theorem greedy_tooLarge {b : Binary} (h : w ≤ b.length) (hl : limit < ofBe (b.take w)) :
    greedy w hw limit b = ⟨[], .tooLarge (ofBe (b.take w))⟩ := by
  rw [greedy, dif_neg (Nat.not_lt.mpr h), if_pos hl]

theorem greedy_cut {b : Binary} (h : w ≤ b.length) (hl : ofBe (b.take w) ≤ limit)
    (hb : b.length < w + ofBe (b.take w)) :
    greedy w hw limit b = ⟨[], .pending b⟩ := by
  rw [greedy, dif_neg (Nat.not_lt.mpr h), if_neg (Nat.not_lt.mpr hl), if_pos (by omega)]

theorem greedy_frame {b : Binary} (h : w + ofBe (b.take w) ≤ b.length)
    (hl : ofBe (b.take w) ≤ limit) :
    greedy w hw limit b = (greedy w hw limit (b.drop (w + ofBe (b.take w)))).prepend
      [(b.drop w).take (ofBe (b.take w))] := by
  conv_lhs => rw [greedy]
  rw [dif_neg (by omega), if_neg (Nat.not_lt.mpr hl), if_neg (by omega)]

/-- A complete frame in front decodes to its payload. -/
theorem greedy_encode_append {p : Binary} (hp : p.length ≤ limit) (hfit : p.length < 256 ^ w)
    (b : Binary) :
    greedy w hw limit (encode w p ++ b) = (greedy w hw limit b).prepend [p] := by
  have htake : (encode w p ++ b).take w = be w p.length := by
    rw [encode, List.append_assoc, List.take_append_of_le_length (by simp),
      List.take_of_length_le (by simp)]
  have hlen : ofBe ((encode w p ++ b).take w) = p.length := by
    rw [htake, ofBe_be_of_lt hfit]
  have hdrop : (encode w p ++ b).drop w = p ++ b := by
    rw [encode, List.append_assoc, List.drop_left' (by simp)]
  rw [greedy_frame (by rw [hlen]; simp) (by rwa [hlen]), hlen, hdrop, List.take_left,
    ← List.drop_drop, hdrop, List.drop_left]

/-! ### Cutting a byte string -/

/-- **Decoding is incremental**: bytes that arrive later are decoded
together with the pending rest, and an announced length that is too large
stays the verdict. -/
theorem greedy_append (a b : Binary) :
    greedy w hw limit (a ++ b) =
      match (greedy w hw limit a).stop with
      | .pending rest => (greedy w hw limit (rest ++ b)).prepend (greedy w hw limit a).packets
      | .tooLarge _ => greedy w hw limit a := by
  induction h : a.length using Nat.strong_induction_on generalizing a with
  | _ n ih =>
      by_cases hshort : a.length < w
      · rw [greedy_short hshort]
        rfl
      · have hle : w ≤ a.length := Nat.not_lt.mp hshort
        have htake : (a ++ b).take w = a.take w := List.take_append_of_le_length hle
        by_cases hlarge : limit < ofBe (a.take w)
        · rw [greedy_tooLarge hle hlarge,
            greedy_tooLarge (by rw [List.length_append]; omega) (by rwa [htake]), htake]
        · have hlim : ofBe (a.take w) ≤ limit := Nat.not_lt.mp hlarge
          by_cases hcut : a.length < w + ofBe (a.take w)
          · rw [greedy_cut hle hlim hcut]
            rfl
          · -- a complete frame in `a`: decode it on both sides and recurse
            have hfull : w + ofBe (a.take w) ≤ a.length := Nat.not_lt.mp hcut
            have hbody : ((a ++ b).drop w).take (ofBe (a.take w)) =
                (a.drop w).take (ofBe (a.take w)) := by
              rw [List.drop_append_of_le_length hle,
                List.take_append_of_le_length (by rw [List.length_drop]; omega)]
            have hrest : (a ++ b).drop (w + ofBe (a.take w)) =
                a.drop (w + ofBe (a.take w)) ++ b :=
              List.drop_append_of_le_length hfull
            have hsmall : (a.drop (w + ofBe (a.take w))).length < n := by
              rw [List.length_drop]; omega
            have hrec := ih _ hsmall (a.drop (w + ofBe (a.take w))) rfl
            rw [greedy_frame (b := a ++ b) (by rw [htake, List.length_append]; omega)
              (by rwa [htake]), htake, hbody, hrest, hrec, greedy_frame hfull hlim]
            cases hs : (greedy w hw limit (a.drop (w + ofBe (a.take w)))).stop with
            | pending rest => simp only [prepend_stop, hs, prepend_packets, prepend_prepend]
            | tooLarge length => simp only [prepend_stop, hs]

theorem greedy_append_of_pending {a rest : Binary} {ps : List Binary} (b : Binary)
    (h : greedy w hw limit a = ⟨ps, .pending rest⟩) :
    greedy w hw limit (a ++ b) = (greedy w hw limit (rest ++ b)).prepend ps := by
  rw [greedy_append, h]

theorem greedy_append_of_tooLarge {a : Binary} {ps : List Binary} {length : ℕ} (b : Binary)
    (h : greedy w hw limit a = ⟨ps, .tooLarge length⟩) :
    greedy w hw limit (a ++ b) = ⟨ps, .tooLarge length⟩ := by
  rw [greedy_append, h]

/-! ### What a decoding says of its bytes -/

/-- `rest` is what a decoding leaves: a proper part of a frame, or a length
field that announces too much. -/
def Stop.Leaves (w limit : ℕ) (rest : Binary) : Stop → Prop
  | .pending r => r = rest ∧ (rest.length < w ∨
      ofBe (rest.take w) ≤ limit ∧ rest.length < w + ofBe (rest.take w))
  | .tooLarge length => w ≤ rest.length ∧ length = ofBe (rest.take w) ∧ limit < length

/-- `d` reads `b`: its packets are the frames `b` starts with, each within the
limit, and what follows them is no frame within the limit. -/
def Decoded.Reads (w limit : ℕ) (b : Binary) (d : Decoded) : Prop :=
  ∃ rest, b = encodeAll w d.packets ++ rest ∧ (∀ p ∈ d.packets, p.length ≤ limit) ∧
    d.stop.Leaves w limit rest

/-- The length field and the body in front of a byte string are a frame. -/
theorem encode_take_append_drop {b : Binary} (h : w + ofBe (b.take w) ≤ b.length) :
    encode w ((b.drop w).take (ofBe (b.take w))) ++ b.drop (w + ofBe (b.take w)) = b := by
  have hfield : (b.take w).length = w := by
    rw [List.length_take]
    omega
  have hbody : ((b.drop w).take (ofBe (b.take w))).length = ofBe (b.take w) := by
    rw [List.length_take, List.length_drop]
    omega
  have hbe : be w (ofBe (b.take w)) = b.take w := by
    have hread := be_ofBe (b.take w)
    rwa [hfield] at hread
  rw [encode, hbody, hbe, List.append_assoc, ← List.drop_drop, List.take_append_drop,
    List.take_append_drop]

/-- **Greedy decoding reads its bytes.** -/
theorem greedy_reads (b : Binary) : (greedy w hw limit b).Reads w limit b := by
  induction h : b.length using Nat.strong_induction_on generalizing b with
  | _ n ih =>
      by_cases hshort : b.length < w
      · rw [greedy_short hshort]
        exact ⟨b, rfl, by simp, rfl, .inl hshort⟩
      · have hle : w ≤ b.length := Nat.not_lt.mp hshort
        by_cases hlarge : limit < ofBe (b.take w)
        · rw [greedy_tooLarge hle hlarge]
          exact ⟨b, rfl, by simp, hle, rfl, hlarge⟩
        · have hlim : ofBe (b.take w) ≤ limit := Nat.not_lt.mp hlarge
          by_cases hcut : b.length < w + ofBe (b.take w)
          · rw [greedy_cut hle hlim hcut]
            exact ⟨b, rfl, by simp, rfl, .inr ⟨hlim, hcut⟩⟩
          · -- one frame in front, the rest by induction
            have hfull : w + ofBe (b.take w) ≤ b.length := Nat.not_lt.mp hcut
            obtain ⟨rest, hrest, hfits, hstop⟩ :=
              ih (b.drop (w + ofBe (b.take w))).length (by rw [List.length_drop]; omega) _ rfl
            rw [greedy_frame hfull hlim]
            refine ⟨rest, ?_, ?_, hstop⟩
            · rw [prepend_packets, encodeAll_append, List.append_assoc, ← hrest, encodeAll_cons,
                encodeAll_nil, List.append_nil, encode_take_append_drop hfull]
            · intro p hp
              rcases List.mem_append.mp hp with hp | hp
              · rw [List.mem_singleton.mp hp]
                exact (List.length_take_le _ _).trans hlim
              · exact hfits p hp

/-! ### Round trips -/

/-- Encoded payloads decode to themselves, whatever follows. -/
theorem greedy_encodeAll_append (hw : 0 < w) {ps : List Binary}
    (hps : ∀ p ∈ ps, p.length ≤ limit ∧ p.length < 256 ^ w) (b : Binary) :
    greedy w hw limit (encodeAll w ps ++ b) = (greedy w hw limit b).prepend ps := by
  induction ps with
  | nil => rfl
  | cons p ps ih =>
      obtain ⟨hp, hrest⟩ := List.forall_mem_cons.mp hps
      rw [encodeAll_cons, List.append_assoc, greedy_encode_append hp.1 hp.2, ih hrest,
        prepend_prepend]
      rfl

theorem greedy_encodeAll (hw : 0 < w) {ps : List Binary}
    (hps : ∀ p ∈ ps, p.length ≤ limit ∧ p.length < 256 ^ w) :
    greedy w hw limit (encodeAll w ps) = ⟨ps, .pending []⟩ := by
  have hnil : greedy w hw limit [] = ⟨[], .pending []⟩ := greedy_short hw
  have h := greedy_encodeAll_append hw hps []
  rw [List.append_nil, hnil, Decoded.prepend, List.append_nil] at h
  exact h

/-- **A prefix of an encoding decodes to a prefix of the payloads.** -/
theorem greedy_of_prefix (hw : 0 < w) {ps : List Binary}
    (hps : ∀ p ∈ ps, p.length ≤ limit ∧ p.length < 256 ^ w) {b : Binary}
    (hb : b <+: encodeAll w ps) :
    ∃ qs rest, greedy w hw limit b = ⟨qs, .pending rest⟩ ∧ qs <+: ps := by
  obtain ⟨c, hc⟩ := hb
  have hall := greedy_encodeAll hw hps
  rw [← hc] at hall
  rcases hd : greedy w hw limit b with ⟨qs, rest | length⟩
  · refine ⟨qs, rest, rfl, ?_⟩
    rw [greedy_append_of_pending c hd] at hall
    exact ⟨_, congrArg Decoded.packets hall⟩
  · rw [greedy_append_of_tooLarge c hd] at hall
    cases hall

/-- With any limit, a prefix of an encoding decodes to a prefix of the payloads. -/
theorem greedy_packets_of_prefix (hw : 0 < w) {ps : List Binary}
    (hfit : ∀ p ∈ ps, p.length < 256 ^ w) {b : Binary} (hb : b <+: encodeAll w ps) :
    (greedy w hw limit b).packets <+: ps := by
  induction ps generalizing b with
  | nil =>
      obtain rfl := List.prefix_nil.mp hb
      rw [greedy_short hw]
  | cons p ps ih =>
      obtain ⟨hp, hrest⟩ := List.forall_mem_cons.mp hfit
      rw [encodeAll_cons] at hb
      by_cases hlimit : p.length ≤ limit
      · rcases List.prefix_or_prefix_of_prefix hb (List.prefix_append (encode w p) _) with
          hshort | ⟨b, rfl⟩
        · -- the first frame is cut
          have hone : ∀ q ∈ [p], q.length ≤ limit ∧ q.length < 256 ^ w :=
            List.forall_mem_singleton.mpr ⟨hlimit, hp⟩
          have hb' : b <+: encodeAll w [p] := by
            rw [encodeAll_cons, encodeAll_nil, List.append_nil]
            exact hshort
          obtain ⟨qs, rest, hq, hqs⟩ := greedy_of_prefix hw hone hb'
          rw [hq]
          exact hqs.trans (List.prefix_append [p] ps)
        · rw [greedy_encode_append hlimit hp, prepend_packets]
          exact (List.prefix_append_right_inj [p]).mpr
            (ih hrest ((List.prefix_append_right_inj _).mp hb))
      · by_cases hshort : b.length < w
        · rw [greedy_short hshort]
          exact List.nil_prefix
        · -- the length field is complete and too large
          have hle : w ≤ b.length := Nat.not_lt.mp hshort
          have htake : b.take w = be w p.length := by
            obtain ⟨c, hc⟩ := hb
            rw [← @List.take_append_of_le_length _ _ c _ hle, hc, encode, List.append_assoc,
              List.take_append_of_le_length (by simp), List.take_of_length_le (by simp)]
          rw [greedy_tooLarge hle (by rw [htake, ofBe_be_of_lt hp]; exact Nat.not_le.mp hlimit)]
          exact List.nil_prefix

end Frame
