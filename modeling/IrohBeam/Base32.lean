/-
IrohBeam/Base32.lean

Base32 without padding, in lower case.

A byte string is a list of bits, most significant first; the digits of the
encoding are its groups of five, the last one filled up with zeros.  Decoding
lays the digits out as bits again, reads whole bytes, and accepts what is left
only if it is the filling of an encoder: fewer than five bits, all zero.

The two facts used of it are that decoding undoes encoding (`decode_encode`) and
how long the encoding is (`length_encode`).  Nothing here mentions a particular
system.
-/
import Mathlib.Data.List.Basic
import Mathlib.Tactic.IntervalCases

namespace Base32

/-! ### Digits and bits -/

/-- The character of a digit: `a` to `z`, then `2` to `7`. -/
def char (v : ℕ) : UInt8 := UInt8.ofNat (if v < 26 then 97 + v else 24 + v)

/-- The digit of a character, in either case. -/
def value (c : UInt8) : Option ℕ :=
  if 97 ≤ c ∧ c ≤ 122 then some (c.toNat - 97)
  else if 65 ≤ c ∧ c ≤ 90 then some (c.toNat - 65)
  else if 50 ≤ c ∧ c ≤ 55 then some (c.toNat - 24)
  else none

theorem value_char : ∀ v < 32, value (char v) = some v := by decide

/-- The bits of a byte. -/
def byteBits (b : UInt8) : List Bool :=
  [b.toNat.testBit 7, b.toNat.testBit 6, b.toNat.testBit 5, b.toNat.testBit 4,
    b.toNat.testBit 3, b.toNat.testBit 2, b.toNat.testBit 1, b.toNat.testBit 0]

/-- The bits of a digit. -/
def digitBits (v : ℕ) : List Bool :=
  [v.testBit 4, v.testBit 3, v.testBit 2, v.testBit 1, v.testBit 0]

/-- The number some bits stand for, most significant first. -/
def number : List Bool → ℕ := List.foldl (fun n b => 2 * n + b.toNat) 0

theorem number_byteBits (b : UInt8) : UInt8.ofNat (number (byteBits b)) = b := by
  have h : ∀ n < 256, number (byteBits (UInt8.ofNat n)) = n := by decide +kernel
  have hb := h b.toNat b.toNat_lt
  rw [UInt8.ofNat_toNat] at hb
  rw [hb, UInt8.ofNat_toNat]

theorem digitBits_number (a b c d e : Bool) :
    digitBits (number [a, b, c, d, e]) = [a, b, c, d, e] := by
  revert a b c d e
  decide

theorem number_lt (a b c d e : Bool) : number [a, b, c, d, e] < 32 := by
  revert a b c d e
  decide

/-! ### Encoding -/

/-- The groups of five as digits, the last one filled up with zeros. -/
def digits : List Bool → List ℕ
  | [] => []
  | [a] => [number [a, false, false, false, false]]
  | [a, b] => [number [a, b, false, false, false]]
  | [a, b, c] => [number [a, b, c, false, false]]
  | [a, b, c, d] => [number [a, b, c, d, false]]
  | a :: b :: c :: d :: e :: rest => number [a, b, c, d, e] :: digits rest

def encode (bytes : List UInt8) : List UInt8 := (digits (bytes.flatMap byteBits)).map char

theorem length_digits (bits : List Bool) : (digits bits).length = (bits.length + 4) / 5 := by
  fun_induction digits bits with
  | case6 a b c d e rest ih =>
      simp only [List.length_cons, ih]
      omega
  | _ => simp

theorem length_byteBits (bytes : List UInt8) :
    (bytes.flatMap byteBits).length = 8 * bytes.length := by
  induction bytes with
  | nil => rfl
  | cons b bytes ih =>
      rw [List.flatMap_cons, List.length_append, ih, List.length_cons]
      simp only [byteBits, List.length_cons, List.length_nil]
      omega

/-- Five bits to a character. -/
theorem length_encode (bytes : List UInt8) :
    (encode bytes).length = (8 * bytes.length + 4) / 5 := by
  rw [encode, List.length_map, length_digits, length_byteBits]

theorem lt_of_mem_digits {bits : List Bool} : ∀ v ∈ digits bits, v < 32 := by
  fun_induction digits bits with
  | case1 => exact fun v hv => absurd hv List.not_mem_nil
  | case6 a b c d e rest ih =>
      intro v hv
      rcases List.mem_cons.mp hv with rfl | hv
      · exact number_lt a b c d e
      · exact ih v hv
  | _ =>
      intro v hv
      rw [List.mem_singleton.mp hv]
      exact number_lt ..

/-- The digits hold the bits, and at most four zeros. -/
theorem flatMap_digits (bits : List Bool) :
    ∃ n < 5, (digits bits).flatMap digitBits = bits ++ List.replicate n false := by
  fun_induction digits bits with
  | case1 => exact ⟨0, by omega, rfl⟩
  | case2 a => exact ⟨4, by omega, by simp [digitBits_number]⟩
  | case3 a b => exact ⟨3, by omega, by simp [digitBits_number]⟩
  | case4 a b c => exact ⟨2, by omega, by simp [digitBits_number]⟩
  | case5 a b c d => exact ⟨1, by omega, by simp [digitBits_number]⟩
  | case6 a b c d e rest ih =>
      obtain ⟨n, hn, heq⟩ := ih
      refine ⟨n, hn, ?_⟩
      rw [List.flatMap_cons, heq, digitBits_number]
      rfl

/-! ### Decoding -/

/-- Whole bytes, and then no more than the filling of an encoder. -/
def readBytes : List Bool → Option (List UInt8)
  | a :: b :: c :: d :: e :: f :: g :: h :: rest =>
      (readBytes rest).map (UInt8.ofNat (number [a, b, c, d, e, f, g, h]) :: ·)
  | rest => if rest.length < 5 ∧ rest.all not then some [] else none

def decode (text : List UInt8) : Option (List UInt8) :=
  (text.mapM value).bind fun vs => readBytes (vs.flatMap digitBits)

theorem mapM_value : ∀ {vs : List ℕ}, (∀ v ∈ vs, v < 32) → (vs.map char).mapM value = some vs
  | [], _ => rfl
  | v :: vs, h => by
      rw [List.map_cons, List.mapM_cons, value_char v (h v List.mem_cons_self)]
      rw [mapM_value fun w hw => h w (List.mem_cons_of_mem v hw)]
      rfl

theorem readBytes_append (bytes : List UInt8) {n : ℕ} (hn : n < 5) :
    readBytes (bytes.flatMap byteBits ++ List.replicate n false) = some bytes := by
  induction bytes with
  | nil => interval_cases n <;> rfl
  | cons b bytes ih =>
      rw [List.flatMap_cons, List.append_assoc]
      show (readBytes (bytes.flatMap byteBits ++ List.replicate n false)).map
        (UInt8.ofNat (number (byteBits b)) :: ·) = _
      rw [ih, number_byteBits]
      rfl

/-- **Decoding undoes encoding.** -/
theorem decode_encode (bytes : List UInt8) : decode (encode bytes) = some bytes := by
  obtain ⟨n, hn, hbits⟩ := flatMap_digits (bytes.flatMap byteBits)
  rw [decode, encode, mapM_value lt_of_mem_digits, Option.bind_some, hbits]
  exact readBytes_append bytes hn

end Base32
