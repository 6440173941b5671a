/-
IrohBeam/Bytes.lean

Byte strings, fixed-width big-endian integers, and integers of variable length.

`be w n` is what a bit-syntax segment `<<N:(8*W)>>` writes: the low `w`
bytes of `n`, most significant first, silently truncated when `n` does not
fit.  `ofBe` reads such a field back.  `ofBe_be` and `be_ofBe` are the two
round trips, with the truncation visible as `% 256 ^ w`.  `varint` writes as many
bytes as a number needs, and `ofVarint` reads them back.
-/
import Mathlib.Data.Nat.Basic
import Mathlib.Data.List.Basic
import Mathlib.Tactic.Ring
import Mathlib.Tactic.Positivity

namespace Bytes

/-- A binary: a list of bytes. -/
abbrev Binary := List UInt8

/-- The bytes of an ASCII text. -/
def ascii (s : String) : Binary := s.toList.map fun c => UInt8.ofNat c.toNat

/-! ### Big-endian fields -/

/-- The low `w` bytes of `n`, most significant first. -/
def be : ℕ → ℕ → Binary
  | 0, _ => []
  | w + 1, n => UInt8.ofNat (n / 256 ^ w) :: be w n

/-- Read a big-endian field. -/
def ofBe (b : Binary) : ℕ := b.foldl (fun acc x => acc * 256 + x.toNat) 0

@[simp] theorem length_be (w n : ℕ) : (be w n).length = w := by
  induction w with
  | zero => rfl
  | succ w ih => simp [be, ih]

theorem foldl_be_acc (b : Binary) (acc : ℕ) :
    b.foldl (fun acc x => acc * 256 + x.toNat) acc = acc * 256 ^ b.length + ofBe b := by
  induction b generalizing acc with
  | nil => simp [ofBe]
  | cons x b ih =>
      rw [ofBe, List.foldl_cons, List.foldl_cons, ih, ih (0 * 256 + x.toNat),
        List.length_cons, pow_succ']
      ring

/-- The first byte is the most significant one. -/
theorem ofBe_cons (x : UInt8) (b : Binary) :
    ofBe (x :: b) = x.toNat * 256 ^ b.length + ofBe b := by
  rw [ofBe, List.foldl_cons, foldl_be_acc, Nat.zero_mul, Nat.zero_add]

/-- A field of `w` bytes reads as a number below `256 ^ w`. -/
theorem ofBe_lt (b : Binary) : ofBe b < 256 ^ b.length := by
  induction b with
  | nil => simp [ofBe]
  | cons x b ih =>
      have hx : x.toNat + 1 ≤ 256 := x.toNat_lt
      calc ofBe (x :: b) = x.toNat * 256 ^ b.length + ofBe b := ofBe_cons x b
        _ < (x.toNat + 1) * 256 ^ b.length := by rw [Nat.add_one_mul]; omega
        _ ≤ 256 * 256 ^ b.length := Nat.mul_le_mul_right _ hx
        _ = 256 ^ (x :: b).length := by rw [List.length_cons, pow_succ']

/-! ### Round trips -/

/-- Reading back a written field gives the value modulo the field's width. -/
theorem ofBe_be (w n : ℕ) : ofBe (be w n) = n % 256 ^ w := by
  induction w with
  | zero => simp [be, ofBe, Nat.mod_one]
  | succ w ih =>
      have hbyte : (UInt8.ofNat (n / 256 ^ w)).toNat = n / 256 ^ w % 256 := by simp
      rw [be, ofBe_cons, length_be, ih, hbyte, pow_succ, Nat.mod_mul]
      ring

theorem ofBe_be_of_lt {w n : ℕ} (h : n < 256 ^ w) : ofBe (be w n) = n := by
  rw [ofBe_be, Nat.mod_eq_of_lt h]

/-- A field of `w` bytes does not see what lies above them. -/
theorem be_mul_add (w k n : ℕ) : be w (k * 256 ^ w + n) = be w n := by
  induction w generalizing k with
  | zero => rfl
  | succ w ih =>
      have hpos : 0 < 256 ^ w := by positivity
      have hassoc : k * 256 ^ (w + 1) + n = k * 256 * 256 ^ w + n := by ring
      have hdiv : (k * 256 * 256 ^ w + n) / 256 ^ w = k * 256 + n / 256 ^ w := by
        rw [Nat.add_comm, Nat.add_mul_div_right _ _ hpos, Nat.add_comm]
      rw [be, be, hassoc, ih, hdiv]
      congr 1
      apply UInt8.toNat_inj.mp
      simp

/-- Writing a field that was read gives the same bytes. -/
theorem be_ofBe (b : Binary) : be b.length (ofBe b) = b := by
  induction b with
  | nil => rfl
  | cons x b ih =>
      have hdiv : (x.toNat * 256 ^ b.length + ofBe b) / 256 ^ b.length = x.toNat := by
        rw [Nat.add_comm, Nat.add_mul_div_right _ _ (by positivity),
          Nat.div_eq_of_lt (ofBe_lt b), Nat.zero_add]
      rw [List.length_cons, be, ofBe_cons, be_mul_add, ih, hdiv]
      simp

/-! ### Variable-length fields -/

/-- Seven bits to a byte, the lowest first, with the high bit where more bytes
follow. -/
def varint (n : ℕ) : Binary :=
  if n < 128 then [UInt8.ofNat n] else UInt8.ofNat (n % 128 + 128) :: varint (n / 128)
termination_by n
decreasing_by omega

/-- Read such a field, and what comes after it. -/
def ofVarint : Binary → Option (ℕ × Binary)
  | [] => none
  | x :: b =>
      if x.toNat < 128 then some (x.toNat, b)
      else (ofVarint b).map fun r => (x.toNat - 128 + 128 * r.1, r.2)

/-- A written field is read back, whatever follows it. -/
theorem ofVarint_varint (n : ℕ) (rest : Binary) : ofVarint (varint n ++ rest) = some (n, rest) := by
  fun_induction varint n with
  | case1 n hn =>
      have hbyte : (UInt8.ofNat n).toNat = n := by
        rw [UInt8.toNat_ofNat']
        omega
      rw [List.singleton_append, ofVarint, hbyte, if_pos hn]
  | case2 n hn ih =>
      have hbyte : (UInt8.ofNat (n % 128 + 128)).toNat = n % 128 + 128 := by
        rw [UInt8.toNat_ofNat']
        omega
      rw [List.cons_append, ofVarint, hbyte, if_neg (by omega), ih, Option.map_some]
      congr 2
      omega

end Bytes
