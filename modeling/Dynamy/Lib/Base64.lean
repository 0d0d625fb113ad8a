import Mathlib.Data.Nat.Basic
import Mathlib.Data.List.Basic

/-!
# Dynamy.Lib.Base64 — the Base64 encoding of byte strings

Three bytes are four characters of the standard alphabet; a last group of one or two bytes is padded with `=`.
`decode_encode` is the round trip.  The encoding contains no blank and a blob that begins with three zero bytes, as
every blob with a length below 256 in front does, has `AAAA` in front (`encode_zeros`).
-/

namespace Dynamy.Lib.Base64

/-- The characters for the values 0 to 63. -/
def alphabet : List Char := "ABCDEFGHIJKLMNOPQRSTUVWXYZabcdefghijklmnopqrstuvwxyz0123456789+/".toList

/-- The character for the last six bits of `n`. -/
def digit (n : ℕ) : Char := alphabet.getD (n % 64) 'A'

/-- The value of a character of the alphabet. -/
def value (c : Char) : Option ℕ :=
  if alphabet.idxOf c < 64 then some (alphabet.idxOf c) else none

def encodeChars : List UInt8 → List Char
  | [] => []
  | [a] => [digit (a.toNat / 4), digit (a.toNat * 16), '=', '=']
  | [a, b] => [digit (a.toNat / 4), digit (a.toNat * 16 + b.toNat / 16), digit (b.toNat * 4), '=']
  | a :: b :: c :: rest =>
    digit (a.toNat / 4) :: digit (a.toNat * 16 + b.toNat / 16) :: digit (b.toNat * 4 + c.toNat / 64) ::
      digit c.toNat :: encodeChars rest

def encode (bs : List UInt8) : String := String.ofList (encodeChars bs)

/-- The bytes of four values. -/
def quantum (v w x y : ℕ) : List UInt8 :=
  [UInt8.ofNat (v * 4 + w / 16), UInt8.ofNat (w * 16 + x / 4), UInt8.ofNat (x * 64 + y)]

def decodeChars : List Char → Option (List UInt8)
  | [] => some []
  | [a, b, '=', '='] => do
    let v ← value a
    let w ← value b
    return (quantum v w 0 0).take 1
  | [a, b, c, '='] => do
    let v ← value a
    let w ← value b
    let x ← value c
    return (quantum v w x 0).take 2
  | a :: b :: c :: d :: rest => do
    let v ← value a
    let w ← value b
    let x ← value c
    let y ← value d
    let bs ← decodeChars rest
    return quantum v w x y ++ bs
  | _ => none

def decode (s : String) : Option (List UInt8) := decodeChars s.toList

/-! ### Digits -/

theorem value_digit (n : ℕ) : value (digit n) = some (n % 64) := by
  have h : ∀ i : Fin 64, value (alphabet.getD i 'A') = some i.val := by
    decide +kernel
  exact h ⟨n % 64, Nat.mod_lt n (by decide)⟩

theorem digit_mem (n : ℕ) : digit n ∈ alphabet := by
  have hlen : n % 64 < alphabet.length := Nat.mod_lt n (by decide)
  rw [digit, List.getD_eq_getElem?_getD, List.getElem?_eq_getElem hlen]
  exact List.getElem_mem hlen

theorem digit_ne_pad (n : ℕ) : digit n ≠ '=' := fun h => absurd (h ▸ digit_mem n) (by decide)

/-! ### Round trip -/

theorem decodeChars_quantum (a b c d : ℕ) (rest : List Char) :
    decodeChars (digit a :: digit b :: digit c :: digit d :: rest) =
      (decodeChars rest).map (quantum (a % 64) (b % 64) (c % 64) (d % 64) ++ ·) := by
  have hd : digit d ≠ '=' := digit_ne_pad d
  rw [decodeChars.eq_4 _ _ _ _ _ (fun _ h _ => hd h) (fun h _ => hd h)]
  simp only [value_digit, Option.bind_eq_bind, Option.bind_some]
  cases decodeChars rest <;> rfl

theorem quantum_bytes (a b c : UInt8) :
    quantum (a.toNat / 4 % 64) ((a.toNat * 16 + b.toNat / 16) % 64) ((b.toNat * 4 + c.toNat / 64) % 64)
      (c.toNat % 64) = [a, b, c] := by
  have ha := a.toNat_lt
  have hb := b.toNat_lt
  have hc := c.toNat_lt
  simp only [quantum, List.cons.injEq, and_true]
  refine ⟨?_, ?_, ?_⟩ <;> rw [← UInt8.toNat_inj, UInt8.toNat_ofNat'] <;> omega

/-- **Round trip**: decoding undoes encoding. -/
theorem decodeChars_encodeChars (bs : List UInt8) : decodeChars (encodeChars bs) = some bs := by
  induction bs using encodeChars.induct with
  | case1 => rfl
  | case2 a =>
    have h : quantum (a.toNat / 4 % 64) (a.toNat * 16 % 64) 0 0 = [a, 0, 0] := quantum_bytes a 0 0
    simp only [encodeChars, decodeChars, value_digit, Option.bind_eq_bind, Option.bind_some, h]
    rfl
  | case3 a b =>
    have h : quantum (a.toNat / 4 % 64) ((a.toNat * 16 + b.toNat / 16) % 64) (b.toNat * 4 % 64) 0 = [a, b, 0] :=
      quantum_bytes a b 0
    have hd : digit (b.toNat * 4) ≠ '=' := digit_ne_pad _
    rw [encodeChars, decodeChars.eq_3 _ _ _ hd]
    simp only [value_digit, Option.bind_eq_bind, Option.bind_some, h]
    rfl
  | case4 a b c rest ih =>
    rw [encodeChars, decodeChars_quantum, ih, quantum_bytes]
    rfl

theorem decode_encode (bs : List UInt8) : decode (encode bs) = some bs := by
  rw [decode, encode, String.toList_ofList, decodeChars_encodeChars]

/-! ### Shape -/

theorem mem_encodeChars {c : Char} {bs : List UInt8} (h : c ∈ encodeChars bs) : c ∈ alphabet ∨ c = '=' := by
  induction bs using encodeChars.induct with
  | case1 => cases h
  | case2 a =>
    simp only [encodeChars, List.mem_cons, List.not_mem_nil, or_false] at h
    rcases h with rfl | rfl | rfl | rfl
    · exact .inl (digit_mem _)
    · exact .inl (digit_mem _)
    · exact .inr rfl
    · exact .inr rfl
  | case3 a b =>
    simp only [encodeChars, List.mem_cons, List.not_mem_nil, or_false] at h
    rcases h with rfl | rfl | rfl | rfl
    · exact .inl (digit_mem _)
    · exact .inl (digit_mem _)
    · exact .inl (digit_mem _)
    · exact .inr rfl
  | case4 a b c' rest ih =>
    simp only [encodeChars, List.mem_cons] at h
    rcases h with rfl | rfl | rfl | rfl | h
    · exact .inl (digit_mem _)
    · exact .inl (digit_mem _)
    · exact .inl (digit_mem _)
    · exact .inl (digit_mem _)
    · exact ih h

/-- The encoding is one word. -/
theorem blank_not_mem_encode (bs : List UInt8) : ' ' ∉ (encode bs).toList := by
  rw [encode, String.toList_ofList]
  intro h
  rcases mem_encodeChars h with h | h
  · exact absurd h (by decide)
  · exact absurd h (by decide)

/-- Three zero bytes in front are `AAAA`. -/
theorem encode_zeros (rest : List UInt8) :
    (encode (0 :: 0 :: 0 :: rest)).toList = 'A' :: 'A' :: 'A' :: 'A' :: encodeChars rest := by
  rw [encode, String.toList_ofList, encodeChars]
  rfl

end Dynamy.Lib.Base64
