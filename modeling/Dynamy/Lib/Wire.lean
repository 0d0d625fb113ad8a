import Mathlib.Algebra.Order.Ring.Int
import Mathlib.Data.List.Induction
import Mathlib.Data.Nat.Size
import Mathlib.Tactic.Linarith
import Mathlib.Tactic.Ring

/-!
# Dynamy.Lib.Wire — length-prefixed fields and big-endian integers

A field is a 32-bit big-endian length followed by that many bytes.  `readField` takes one off the front of a byte
string, reading the length as a signed integer; `readField_field` is the round trip.  `mpint n` is the shortest
two's complement representation of a natural number (`signed_mpint`, `mpint_minimal`).
-/

namespace Dynamy.Lib.Wire

/-! ### Big-endian integers -/

/-- The value of a byte string, most significant byte first. -/
def unsigned (bs : List UInt8) : ℕ := bs.foldl (fun acc b => acc * 256 + b.toNat) 0

/-- The value in two's complement. -/
def signed : List UInt8 → ℤ
  | [] => 0
  | b :: bs => if b.toNat < 128 then unsigned (b :: bs) else unsigned (b :: bs) - 256 ^ (bs.length + 1)

/-- The last `len` bytes of `n`. -/
def bigEndian : ℕ → ℕ → List UInt8
  | 0, _ => []
  | len + 1, n => bigEndian len (n / 256) ++ [UInt8.ofNat n]

/-- The shortest two's complement representation: one bit for the sign. -/
def mpint (n : ℕ) : List UInt8 := bigEndian (n.size / 8 + 1) n

theorem unsigned_concat (bs : List UInt8) (b : UInt8) : unsigned (bs ++ [b]) = unsigned bs * 256 + b.toNat := by
  simp [unsigned]

theorem unsigned_cons (b : UInt8) (bs : List UInt8) :
    unsigned (b :: bs) = b.toNat * 256 ^ bs.length + unsigned bs := by
  induction bs using List.reverseRecOn with
  | nil => simp [unsigned]
  | append_singleton bs c ih =>
    rw [← List.cons_append, unsigned_concat, unsigned_concat, ih, List.length_append, List.length_singleton, pow_succ]
    ring

theorem unsigned_lt (bs : List UInt8) : unsigned bs < 256 ^ bs.length := by
  induction bs using List.reverseRecOn with
  | nil => simp [unsigned]
  | append_singleton bs b ih =>
    have hb := b.toNat_lt
    rw [unsigned_concat, List.length_append, List.length_singleton, pow_succ]
    omega

@[simp] theorem bigEndian_length (len n : ℕ) : (bigEndian len n).length = len := by
  induction len generalizing n with
  | zero => rfl
  | succ len ih => simp [bigEndian, ih]

theorem unsigned_bigEndian {len n : ℕ} (h : n < 256 ^ len) : unsigned (bigEndian len n) = n := by
  induction len generalizing n with
  | zero =>
    have hn : n = 0 := by simpa using h
    subst hn
    rfl
  | succ len ih =>
    have hdiv : n / 256 < 256 ^ len := by
      rw [pow_succ] at h
      exact Nat.div_lt_of_lt_mul (by omega)
    have hmod : (UInt8.ofNat n).toNat = n % 256 := UInt8.toNat_ofNat'
    rw [bigEndian, unsigned_concat, ih hdiv, hmod]
    omega

/-- A number whose sign bit is clear is its own two's complement. -/
theorem signed_of_lt {bs : List UInt8} {len n : ℕ} (hlen : bs.length = len + 1) (hn : unsigned bs = n)
    (h : n < 128 * 256 ^ len) : signed bs = n := by
  cases bs with
  | nil => simp at hlen
  | cons b bs =>
    have hl : bs.length = len := by simpa using hlen
    have hb : b.toNat < 128 := by
      rw [unsigned_cons, hl] at hn
      by_contra hge
      have hmul : 128 * 256 ^ len ≤ b.toNat * 256 ^ len := Nat.mul_le_mul_right _ (by omega)
      omega
    rw [signed, if_pos hb, hn]

theorem lt_of_size {n : ℕ} : n < 128 * 256 ^ (n.size / 8) := by
  have hpow : 128 * 256 ^ (n.size / 8) = 2 ^ (8 * (n.size / 8) + 7) := by
    rw [pow_add, pow_mul]
    norm_num [mul_comm]
  rw [hpow]
  exact Nat.size_le.mp (by omega)

/-- **Round trip** of an integer. -/
theorem signed_mpint (n : ℕ) : signed (mpint n) = n := by
  have h : n < 128 * 256 ^ (n.size / 8) := lt_of_size
  refine signed_of_lt (bigEndian_length _ _) (unsigned_bigEndian ?_) h
  rw [pow_succ]
  omega

/-- No shorter byte string has the value `n` in two's complement. -/
theorem mpint_minimal {n : ℕ} (hn : 0 < n) {bs : List UInt8} (h : signed bs = n) : (mpint n).length ≤ bs.length := by
  rw [mpint, bigEndian_length]
  cases bs with
  | nil =>
    simp only [signed] at h
    omega
  | cons b bs =>
    have hlt := unsigned_lt (b :: bs)
    rw [signed] at h
    split_ifs at h with hb
    · have hval : unsigned (b :: bs) = n := by exact_mod_cast h
      have htail := unsigned_lt bs
      have hbits : n < 2 ^ (8 * bs.length + 7) := by
        have hpow : 2 ^ (8 * bs.length + 7) = 128 * 256 ^ bs.length := by
          rw [pow_add, pow_mul]
          norm_num [mul_comm]
        have hmul : b.toNat * 256 ^ bs.length ≤ 127 * 256 ^ bs.length := Nat.mul_le_mul_right _ (by omega)
        rw [unsigned_cons] at hval
        omega
      have hsize := Nat.size_le.mpr hbits
      rw [List.length_cons]
      omega
    · have hcast : (unsigned (b :: bs) : ℤ) < 256 ^ (bs.length + 1) := by exact_mod_cast hlt
      omega

/-! ### Fields -/

/-- Four bytes as a 32-bit two's complement integer. -/
def int32 (b₃ b₂ b₁ b₀ : ℕ) : ℤ := (BitVec.ofNat 32 (b₃ * 2 ^ 24 + b₂ * 2 ^ 16 + b₁ * 2 ^ 8 + b₀)).toInt

/-- A byte string with its length in front. -/
def field (bs : List UInt8) : List UInt8 := bigEndian 4 bs.length ++ bs

def readInt32 : List UInt8 → Option (ℤ × List UInt8)
  | b₃ :: b₂ :: b₁ :: b₀ :: rest => some (int32 b₃.toNat b₂.toNat b₁.toNat b₀.toNat, rest)
  | _ => none

/-- The first field and what follows it, if the length in front fits what there is. -/
def readField (bs : List UInt8) : Option (List UInt8 × List UInt8) :=
  match readInt32 bs with
  | some (len, rest) =>
    if 0 ≤ len ∧ len ≤ rest.length then some (rest.take len.toNat, rest.drop len.toNat) else none
  | none => none

theorem readInt32_length {bs rest : List UInt8} {len : ℤ} (h : readInt32 bs = some (len, rest)) :
    bs.length = rest.length + 4 := by
  match bs with
  | b₃ :: b₂ :: b₁ :: b₀ :: rest' =>
    obtain ⟨-, rfl⟩ : int32 b₃.toNat b₂.toNat b₁.toNat b₀.toNat = len ∧ rest' = rest := by
      simpa [readInt32] using h
    rfl
  | [] | [_] | [_, _] | [_, _, _] => simp [readInt32] at h

theorem readField_eq_some {bs part rest : List UInt8} : readField bs = some (part, rest) ↔
    ∃ len rest', readInt32 bs = some (len, rest') ∧ (0 ≤ len ∧ len ≤ rest'.length) ∧
      part = rest'.take len.toNat ∧ rest = rest'.drop len.toNat := by
  unfold readField
  cases h : readInt32 bs with
  | none => simp
  | some r =>
    obtain ⟨len, rest'⟩ := r
    by_cases hfits : 0 ≤ len ∧ len ≤ rest'.length
    · simp only [if_pos hfits, Option.some.injEq, Prod.mk.injEq]
      constructor
      · rintro ⟨rfl, rfl⟩
        exact ⟨len, rest', ⟨rfl, rfl⟩, hfits, rfl, rfl⟩
      · rintro ⟨_, _, ⟨rfl, rfl⟩, -, rfl, rfl⟩
        exact ⟨rfl, rfl⟩
    · simp only [if_neg hfits, reduceCtorEq, false_iff]
      rintro ⟨_, _, hread, hfits', -⟩
      simp only [Option.some.injEq, Prod.mk.injEq] at hread
      obtain ⟨rfl, rfl⟩ := hread
      exact hfits hfits'

theorem readField_eq_none {bs : List UInt8} : readField bs = none ↔
    readInt32 bs = none ∨ ∃ len rest, readInt32 bs = some (len, rest) ∧ ¬ (0 ≤ len ∧ len ≤ rest.length) := by
  unfold readField
  cases h : readInt32 bs with
  | none => simp
  | some r =>
    obtain ⟨len, rest⟩ := r
    by_cases hfits : 0 ≤ len ∧ len ≤ rest.length
    · simp [hfits]
    · simp only [if_neg hfits, reduceCtorEq, false_or, true_iff]
      exact ⟨len, rest, rfl, hfits⟩

theorem readInt32_bigEndian {n : ℕ} (h : n < 2 ^ 31) (rest : List UInt8) :
    readInt32 (bigEndian 4 n ++ rest) = some ((n : ℤ), rest) := by
  have hbytes : bigEndian 4 n = [UInt8.ofNat (n / 256 / 256 / 256), UInt8.ofNat (n / 256 / 256),
    UInt8.ofNat (n / 256), UInt8.ofNat n] := rfl
  rw [hbytes]
  simp only [List.cons_append, List.nil_append, readInt32, UInt8.toNat_ofNat', Option.some.injEq, Prod.mk.injEq,
    and_true]
  have hsum : n / 256 / 256 / 256 % 2 ^ 8 * 2 ^ 24 + n / 256 / 256 % 2 ^ 8 * 2 ^ 16 + n / 256 % 2 ^ 8 * 2 ^ 8 +
      n % 2 ^ 8 = n := by
    omega
  rw [int32, hsum, BitVec.toInt_ofNat']
  exact Int.bmod_eq_of_le (by omega) (by omega)

/-- **Round trip** of a field. -/
theorem readField_field {bs : List UInt8} (h : bs.length < 2 ^ 31) (rest : List UInt8) :
    readField (field bs ++ rest) = some (bs, rest) := by
  have hread : readInt32 (field bs ++ rest) = some ((bs.length : ℤ), bs ++ rest) := by
    rw [field, List.append_assoc]
    exact readInt32_bigEndian h (bs ++ rest)
  have hfits : 0 ≤ (bs.length : ℤ) ∧ (bs.length : ℤ) ≤ (bs ++ rest).length := by simp
  simp only [readField, hread, if_pos hfits, Int.toNat_natCast, List.take_left', List.drop_left']

end Dynamy.Lib.Wire
