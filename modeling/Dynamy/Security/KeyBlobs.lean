import Dynamy.Lib.Base64
import Dynamy.Lib.Wire
import Dynamy.Security.PublicKeyStringDecoder

/-!
# Dynamy.Security.KeyBlobs — the decoder as a reader of length-prefixed fields

With its cursor inside the blob, the decoder does what the wire format's `readField` does on the bytes behind the
cursor: it takes the same field and moves past it, and where there is no such field it throws an index or
negative-size error (`run_decodeType_field`, `run_decodeBigInt_field` and their `_none` companions).  From this it
is read off for which lines the decoder fails gracefully.
-/

namespace Dynamy.Security

open Dynamy.Java Dynamy.Lib

/-- The decoder with its cursor at byte `p` of the blob. -/
def Decoder.at (blob : List UInt8) (p : ℕ) : Decoder := { bytes := some blob, pos := p }

/-! ### Bytes -/

theorem run_getAndIncPos (d : Decoder) : getAndIncPos.run d = ⟨.ok d.pos, { d with pos := d.pos + 1 }, []⟩ := rfl

/-- `nextByte` reads the byte under the cursor and moves past it in any case. -/
theorem run_nextByte (blob : List UInt8) (p : ℕ) : nextByte.run (.at blob p) =
    match blob[p]? with
    | some b => ⟨.ok b.toNat, .at blob (p + 1), []⟩
    | none => ⟨.error ⟨.arrayIndexOutOfBounds, none⟩, .at blob (p + 1), []⟩ := by
  rw [nextByte, Prog.run_bind_of_ok (run_getAndIncPos _), Prog.run_read_bind]
  simp only [Decoder.at, deref_some, Prog.run_ok_bind, Int.toNat_natCast]
  cases blob[p]? <;> rfl

variable {blob rest part : List UInt8} {p : ℕ}

theorem run_nextByte_cons {b : UInt8} (h : blob.drop p = b :: rest) :
    nextByte.run (.at blob p) = ⟨.ok b.toNat, .at blob (p + 1), []⟩ ∧ blob.drop (p + 1) = rest := by
  have hget : blob[p]? = some b := by
    have h0 : (blob.drop p)[0]? = some b := by rw [h]; rfl
    simpa using h0
  have hdrop : blob.drop (p + 1) = rest := by
    rw [← List.drop_drop, h]
    rfl
  exact ⟨by rw [run_nextByte, hget], hdrop⟩

theorem run_nextByte_nil (h : blob.drop p = []) :
    nextByte.run (.at blob p) = ⟨.error ⟨.arrayIndexOutOfBounds, none⟩, .at blob (p + 1), []⟩ := by
  have hget : blob[p]? = none := by
    have h0 : (blob.drop p)[0]? = none := by rw [h]; rfl
    simpa using h0
  rw [run_nextByte, hget]

/-! ### Lengths -/

theorem run_decodeInt_some {len : ℤ} (h : Wire.readInt32 (blob.drop p) = some (len, rest)) :
    decodeInt.run (.at blob p) = ⟨.ok len, .at blob (p + 4), []⟩ ∧ blob.drop (p + 4) = rest := by
  match hd : blob.drop p with
  | b₃ :: b₂ :: b₁ :: b₀ :: rest' =>
    rw [hd] at h
    obtain ⟨hlen, hrest⟩ : Wire.int32 b₃.toNat b₂.toNat b₁.toNat b₀.toNat = len ∧ rest' = rest := by
      simpa [Wire.readInt32] using h
    obtain ⟨h₃, hd₃⟩ := run_nextByte_cons hd
    obtain ⟨h₂, hd₂⟩ := run_nextByte_cons hd₃
    obtain ⟨h₁, hd₁⟩ := run_nextByte_cons hd₂
    obtain ⟨h₀, hd₀⟩ := run_nextByte_cons hd₁
    refine ⟨?_, hd₀.trans hrest⟩
    rw [decodeInt, Prog.run_bind_of_ok h₃, Prog.run_bind_of_ok h₂, Prog.run_bind_of_ok h₁, Prog.run_bind_of_ok h₀,
      ← hlen]
    rfl
  | [] | [_] | [_, _] | [_, _, _] => simp [hd, Wire.readInt32] at h

theorem run_decodeInt_none (h : Wire.readInt32 (blob.drop p) = none) :
    ∃ d, decodeInt.run (.at blob p) = ⟨.error ⟨.arrayIndexOutOfBounds, none⟩, d, []⟩ := by
  match hd : blob.drop p with
  | _ :: _ :: _ :: _ :: _ => simp [hd, Wire.readInt32] at h
  | [] => exact ⟨_, Prog.run_bind_of_error (run_nextByte_nil hd) _⟩
  | [_] =>
    obtain ⟨h₃, hd₃⟩ := run_nextByte_cons hd
    rw [decodeInt, Prog.run_bind_of_ok h₃]
    exact ⟨_, Prog.run_bind_of_error (run_nextByte_nil hd₃) _⟩
  | [_, _] =>
    obtain ⟨h₃, hd₃⟩ := run_nextByte_cons hd
    obtain ⟨h₂, hd₂⟩ := run_nextByte_cons hd₃
    rw [decodeInt, Prog.run_bind_of_ok h₃, Prog.run_bind_of_ok h₂]
    exact ⟨_, Prog.run_bind_of_error (run_nextByte_nil hd₂) _⟩
  | [_, _, _] =>
    obtain ⟨h₃, hd₃⟩ := run_nextByte_cons hd
    obtain ⟨h₂, hd₂⟩ := run_nextByte_cons hd₃
    obtain ⟨h₁, hd₁⟩ := run_nextByte_cons hd₂
    rw [decodeInt, Prog.run_bind_of_ok h₃, Prog.run_bind_of_ok h₂, Prog.run_bind_of_ok h₁]
    exact ⟨_, Prog.run_bind_of_error (run_nextByte_nil hd₁) _⟩

/-! ### Fields -/

/-- The errors of an access outside an array, and of an array of negative size. -/
def OutOfBounds (e : Throwable) : Prop :=
  e.cls ∈ [ThrowableClass.arrayIndexOutOfBounds, .stringIndexOutOfBounds, .negativeArraySize]

theorem slice_at {len : ℤ} (hp : p ≤ blob.length) : slice blob p len =
    if 0 ≤ len ∧ len ≤ (blob.drop p).length then some ((blob.drop p).take len.toNat) else none := by
  have hiff : (0 ≤ (p : ℤ) ∧ 0 ≤ len ∧ p + len ≤ blob.length) ↔ 0 ≤ len ∧ len ≤ (blob.drop p).length := by
    rw [List.length_drop]
    omega
  simp only [slice, hiff, Int.toNat_natCast]

/-- A field behind the cursor is the slice of its length, and what follows it begins at its end. -/
theorem slice_field {len : ℤ} {rest' : List UInt8} (h : Wire.readInt32 (blob.drop p) = some (len, rest'))
    (hfits : 0 ≤ len ∧ len ≤ rest'.length) :
    slice blob (p + 4 : ℕ) len = some (rest'.take len.toNat) ∧
      blob.drop (p + 4 + (rest'.take len.toNat).length) = rest'.drop len.toNat ∧
      ((p + 4 : ℕ) : ℤ) + len = (p + 4 + (rest'.take len.toNat).length : ℕ) ∧
      (rest'.take len.toNat).length ≤ blob.length := by
  have hlength := Wire.readInt32_length h
  rw [List.length_drop] at hlength
  obtain ⟨-, hdrop⟩ := run_decodeInt_some h
  have htake : (rest'.take len.toNat).length = len.toNat := by
    rw [List.length_take]
    omega
  refine ⟨?_, ?_, ?_, ?_⟩
  · rw [slice_at (by omega), hdrop, if_pos hfits]
  · rw [← List.drop_drop, hdrop, htake]
  · rw [htake]
    omega
  · rw [htake]
    omega

theorem slice_none {len : ℤ} {rest' : List UInt8} (h : Wire.readInt32 (blob.drop p) = some (len, rest'))
    (hfits : ¬ (0 ≤ len ∧ len ≤ rest'.length)) : slice blob (p + 4 : ℕ) len = none := by
  have hlength := Wire.readInt32_length h
  rw [List.length_drop] at hlength
  obtain ⟨-, hdrop⟩ := run_decodeInt_some h
  rw [slice_at (by omega), hdrop, if_neg hfits]

section Fields

variable {PublicKey : Type} {kp : KeyProvider PublicKey}

variable (kp) in
/-- `decodeType` takes the field behind the cursor as a string. -/
theorem run_decodeType_field (h : Wire.readField (blob.drop p) = some (part, rest)) :
    (decodeType kp).run (.at blob p) = ⟨.ok (kp.newString part), .at blob (p + 4 + part.length), []⟩ ∧
      blob.drop (p + 4 + part.length) = rest := by
  obtain ⟨len, rest', hread, hfits, rfl, rfl⟩ := Wire.readField_eq_some.mp h
  obtain ⟨hslice, hdrop, hpos, -⟩ := slice_field hread hfits
  refine ⟨?_, hdrop⟩
  rw [decodeType, Prog.run_bind_of_ok (run_decodeInt_some hread).1, Prog.run_read_bind]
  simp only [Decoder.at, deref_some, Prog.run_ok_bind, hslice, Prog.run_update_bind, hpos]
  rfl

variable (kp) in
theorem run_decodeType_none (h : Wire.readField (blob.drop p) = none) :
    ∃ e d, (decodeType kp).run (.at blob p) = ⟨.error e, d, []⟩ ∧ OutOfBounds e := by
  rcases Wire.readField_eq_none.mp h with hread | ⟨len, rest', hread, hfits⟩
  · obtain ⟨d, hd⟩ := run_decodeInt_none hread
    exact ⟨_, d, Prog.run_bind_of_error hd _, by simp [OutOfBounds]⟩
  · have hslice := slice_none hread hfits
    refine ⟨⟨.stringIndexOutOfBounds, none⟩, .at blob (p + 4), ?_, by simp [OutOfBounds]⟩
    rw [decodeType, Prog.run_bind_of_ok (run_decodeInt_some hread).1, Prog.run_read_bind]
    simp only [Decoder.at, deref_some, Prog.run_ok_bind, hslice]
    rfl

/-- `decodeBigInt` allocates an array for the field behind the cursor and takes it as an integer. -/
theorem run_decodeBigInt_field (h : Wire.readField (blob.drop p) = some (part, rest)) :
    decodeBigInt.run (.at blob p) =
        ⟨newBigInteger part, .at blob (p + 4 + part.length), [(part.length : ℤ)]⟩ ∧
      blob.drop (p + 4 + part.length) = rest ∧ part.length ≤ blob.length := by
  obtain ⟨len, rest', hread, hfits, rfl, rfl⟩ := Wire.readField_eq_some.mp h
  obtain ⟨hslice, hdrop, hpos, hle⟩ := slice_field hread hfits
  have htake : ((rest'.take len.toNat).length : ℤ) = len := by
    rw [List.length_take]
    omega
  refine ⟨?_, hdrop, hle⟩
  rw [decodeBigInt, Prog.run_bind_of_ok (run_decodeInt_some hread).1, if_neg (by omega)]
  beta_reduce
  rw [Prog.run_emit_bind, Prog.run_read_bind, htake]
  simp only [Decoder.at, deref_some, Prog.run_ok_bind, hslice, Prog.run_update_bind, hpos, Prog.run_ofExcept]

theorem run_decodeBigInt_none (h : Wire.readField (blob.drop p) = none) :
    ∃ e d es, decodeBigInt.run (.at blob p) = ⟨.error e, d, es⟩ ∧ OutOfBounds e := by
  rcases Wire.readField_eq_none.mp h with hread | ⟨len, rest', hread, hfits⟩
  · obtain ⟨d, hd⟩ := run_decodeInt_none hread
    exact ⟨_, d, [], Prog.run_bind_of_error hd _, by simp [OutOfBounds]⟩
  · rw [decodeBigInt, Prog.run_bind_of_ok (run_decodeInt_some hread).1]
    by_cases hneg : len < 0
    · rw [if_pos hneg]
      exact ⟨_, _, _, Prog.run_raise_bind _ _ _, by simp [OutOfBounds]⟩
    · have hslice := slice_none hread hfits
      rw [if_neg hneg]
      beta_reduce
      rw [Prog.run_emit_bind, Prog.run_read_bind]
      simp only [Decoder.at, deref_some, Prog.run_ok_bind, hslice, Prog.run_raise]
      exact ⟨_, _, _, rfl, by simp [OutOfBounds]⟩

theorem newBigInteger_eq {part : List UInt8} (h : part ≠ []) : newBigInteger part = .ok (Wire.signed part) := by
  cases part with
  | nil => exact absurd rfl h
  | cons b bs => rfl

/-- What `decodePublicKey` does with the decoded bytes. -/
def decodeBlob (kp : KeyProvider PublicKey) : DecoderM PublicKey := do
  let typeName ← decodeType kp
  if typeName = "ssh-rsa" then
    let e ← decodeBigInt
    let m ← decodeBigInt
    Prog.ofExcept (kp.generateRSA m e)
  else if typeName = "ssh-dss" then
    let p ← decodeBigInt
    let q ← decodeBigInt
    let g ← decodeBigInt
    let y ← decodeBigInt
    Prog.ofExcept (kp.generateDSA y p q g)
  else Prog.raise ⟨.illegalArgument, some ("Unknown type " ++ typeName)⟩

theorem run_decodePublicKey_blob {line token : String} (ht : base64Token line = .ok token)
    (hb : kp.base64Decode token = some blob) (d : Decoder) :
    (decodePublicKey kp line).run d = (decodeBlob kp).run (.at blob 0) := by
  rw [decodePublicKey, Prog.run_update_bind, ht, Prog.run_ok_bind, hb]
  rfl

theorem run_decodePublicKey_undecodable {line token : String} (ht : base64Token line = .ok token)
    (hb : kp.base64Decode token = none) (d : Decoder) :
    (decodePublicKey kp line).run d =
      ⟨.error ⟨.illegalArgument, some "no Base64 part to decode"⟩, { bytes := none, pos := 0 }, []⟩ := by
  rw [decodePublicKey, Prog.run_update_bind, ht, Prog.run_ok_bind, hb]
  rfl

theorem run_decodePublicKey_tokenless {line : String} {e : Throwable} (ht : base64Token line = .error e)
    (d : Decoder) : (decodePublicKey kp line).run d = ⟨.error e, { bytes := none, pos := 0 }, []⟩ := by
  rw [decodePublicKey, Prog.run_update_bind, ht, Prog.run_error_bind]

/-- A line without a token throws, and not an `IllegalArgumentException`. -/
theorem base64Token_error {line : String} {e : Throwable} (h : base64Token line = .error e) :
    e = ⟨.noSuchElement, none⟩ := by
  unfold base64Token at h
  split at h
  · exact (Except.error.inj h).symm
  · cases h

end Fields

/-! ### Failing gracefully -/

section Graceful

variable {PublicKey α : Type}

/-- A run of the decoder on a blob that returns or throws an `IllegalArgumentException`, of which
`NumberFormatException` is a subclass, and allocates no array longer than the blob. -/
structure Graceful (blob : Option (List UInt8)) (o : Outcome ℤ Decoder Throwable α) : Prop where
  throws : ∀ e, o.result = .error e → e.cls = .illegalArgument ∨ e.cls = .numberFormat
  allocates : ∀ n ∈ o.events, ∃ bytes, blob = some bytes ∧ n ≤ bytes.length

theorem OutOfBounds.not_graceful {e : Throwable} (he : OutOfBounds e) {blob : Option (List UInt8)} {d : Decoder}
    {es : List ℤ} : ¬ Graceful blob (⟨.error e, d, es⟩ : Outcome ℤ Decoder Throwable α) := by
  intro h
  have hcls := h.throws e rfl
  simp only [OutOfBounds, List.mem_cons, List.not_mem_nil, or_false] at he
  rcases he with he | he | he <;> rw [he] at hcls <;> simp at hcls

/-- The field that was read is the only one. -/
theorem exists_read_iff (P : List UInt8 → List UInt8 → Prop) :
    (∃ part' rest', some (part, rest) = some (part', rest') ∧ P part' rest') ↔ P part rest := by
  simp

/-- **Integer rule**: reading an integer and going on is graceful exactly when the field is there, and it is empty or
what follows is graceful. -/
theorem graceful_decodeBigInt_bind {f : ℤ → DecoderM α} : Graceful (some blob) ((decodeBigInt >>= f).run (.at blob p)) ↔
    ∃ part rest, Wire.readField (blob.drop p) = some (part, rest) ∧
      (part = [] ∨ Graceful (some blob) ((f (Wire.signed part)).run (.at blob (p + 4 + part.length)))) := by
  cases hread : Wire.readField (blob.drop p) with
  | none =>
    obtain ⟨e, d, es, hrun, he⟩ := run_decodeBigInt_none hread
    rw [Prog.run_bind_of_error hrun]
    simpa using he.not_graceful
  | some r =>
    obtain ⟨part, rest⟩ := r
    obtain ⟨hrun, -, hle⟩ := run_decodeBigInt_field hread
    rw [exists_read_iff (fun part _ => part = [] ∨ _), Prog.run_bind, hrun]
    by_cases hne : part = []
    · -- `new BigInteger(new byte[0])`
      subst hne
      refine ⟨fun _ => .inl rfl, fun _ => ⟨?_, ?_⟩⟩
      · rintro e he
        cases he
        exact .inr rfl
      · intro n hn
        have hzero : n ∈ [(0 : ℤ)] := hn
        obtain rfl : n = 0 := by simpa using hzero
        exact ⟨blob, rfl, by omega⟩
    · rw [newBigInteger_eq hne]
      simp only [hne, false_or]
      constructor
      · rintro ⟨hthrows, hallocates⟩
        exact ⟨hthrows, fun n hn => hallocates n (by simp [hn])⟩
      · rintro ⟨hthrows, hallocates⟩
        refine ⟨hthrows, fun n hn => ?_⟩
        rcases List.mem_append.mp hn with hn | hn
        · obtain rfl : n = part.length := by simpa using hn
          exact ⟨blob, rfl, by omega⟩
        · exact hallocates n hn

/-- The number of integers in a blob of the type. -/
def integersOf (typeName : String) : ℕ :=
  if typeName = "ssh-rsa" then 2 else if typeName = "ssh-dss" then 4 else 0

/-- There are `n` fields in front, or an empty one before the `n`-th. -/
def FieldsFit : ℕ → List UInt8 → Prop
  | 0, _ => True
  | n + 1, bs => ∃ part rest, Wire.readField bs = some (part, rest) ∧ (part = [] ∨ FieldsFit n rest)

/-- The line has a token beginning with `AAAA`, and if that is Base64, the type in front of the decoded bytes is there
and so are the integers that the type calls for, up to the first empty one. -/
def Complete (kp : KeyProvider PublicKey) (line : String) : Prop :=
  ∃ token, base64Token line = .ok token ∧ ∀ blob, kp.base64Decode token = some blob →
    ∃ part rest, Wire.readField blob = some (part, rest) ∧ FieldsFit (integersOf (kp.newString part)) rest

/-- The bytes of the line's token, if it has one and it decodes. -/
def blobOf (kp : KeyProvider PublicKey) (line : String) : Option (List UInt8) :=
  match base64Token line with
  | .ok token => kp.base64Decode token
  | .error _ => none

/-- `KeyFactory` accepts any spec. -/
structure KeyProvider.AcceptsAny (kp : KeyProvider PublicKey) : Prop where
  rsa : ∀ modulus publicExponent, ∃ k, kp.generateRSA modulus publicExponent = .ok k
  dsa : ∀ y p q g, ∃ k, kp.generateDSA y p q g = .ok k

theorem graceful_ok {blob : Option (List UInt8)} {d : Decoder} {a : α} :
    Graceful blob (⟨.ok a, d, []⟩ : Outcome ℤ Decoder Throwable α) :=
  ⟨fun _ h => (nomatch h), fun _ h => (List.not_mem_nil h).elim⟩

theorem graceful_illegalArgument {blob : Option (List UInt8)} {d : Decoder} {message : Option String} :
    Graceful blob (⟨.error ⟨.illegalArgument, message⟩, d, []⟩ : Outcome ℤ Decoder Throwable α) := by
  refine ⟨fun e he => ?_, fun _ h => (List.not_mem_nil h).elim⟩
  cases he
  exact .inl rfl

variable {kp : KeyProvider PublicKey}

/-- An integer, and fields after it. -/
theorem graceful_fields {f : ℤ → DecoderM α} {n : ℕ}
    (hf : ∀ i p, Graceful (some blob) ((f i).run (.at blob p)) ↔ FieldsFit n (blob.drop p)) (p : ℕ) :
    Graceful (some blob) ((decodeBigInt >>= f).run (.at blob p)) ↔ FieldsFit (n + 1) (blob.drop p) := by
  rw [graceful_decodeBigInt_bind, FieldsFit]
  refine exists_congr fun part => exists_congr fun rest => and_congr_right fun hread => ?_
  rw [hf, (run_decodeBigInt_field hread).2.1]

theorem graceful_generate {x : Except Throwable PublicKey} (hx : ∃ k, x = .ok k) (p : ℕ) :
    Graceful (some blob) ((Prog.ofExcept x).run (.at blob p)) ↔ FieldsFit 0 (blob.drop p) := by
  obtain ⟨k, rfl⟩ := hx
  simp only [Prog.run_ofExcept, FieldsFit, iff_true]
  exact graceful_ok

theorem graceful_decodeBlob (hkp : kp.AcceptsAny) : Graceful (some blob) ((decodeBlob kp).run (.at blob 0)) ↔
    ∃ part rest, Wire.readField blob = some (part, rest) ∧ FieldsFit (integersOf (kp.newString part)) rest := by
  cases hread : Wire.readField blob with
  | none =>
    have hstart : Wire.readField (blob.drop 0) = none := hread
    obtain ⟨e, d, hrun, he⟩ := run_decodeType_none kp hstart
    rw [decodeBlob, Prog.run_bind_of_error hrun]
    simpa using he.not_graceful
  | some r =>
    obtain ⟨part, rest⟩ := r
    have hstart : Wire.readField (blob.drop 0) = some (part, rest) := hread
    obtain ⟨hrun, hrest⟩ := run_decodeType_field kp hstart
    rw [exists_read_iff fun part rest => FieldsFit (integersOf (kp.newString part)) rest, decodeBlob,
      Prog.run_bind_of_ok hrun, ← hrest]
    unfold integersOf
    split_ifs with hrsa hdss
    · exact graceful_fields (fun _ => graceful_fields fun _ => graceful_generate (hkp.rsa _ _)) _
    · exact graceful_fields (fun _ => graceful_fields fun _ => graceful_fields fun _ => graceful_fields fun _ =>
        graceful_generate (hkp.dsa _ _ _ _)) _
    · simp only [Prog.run_raise, FieldsFit, iff_true]
      exact graceful_illegalArgument

/-- The specs that `KeyFactory.generatePublic` is given. -/
inductive KeySpec
  | rsa (modulus publicExponent : ℤ)
  | dsa (y p q g : ℤ)
  deriving DecidableEq, Repr

/-- A provider whose keys are their specs. -/
def specKeys : KeyProvider KeySpec where
  base64Decode := Base64.decode
  newString bs := String.ofList (bs.map fun b => Char.ofNat b.toNat)
  generateRSA modulus publicExponent := .ok (.rsa modulus publicExponent)
  generateDSA y p q g := .ok (.dsa y p q g)

theorem specKeys_acceptsAny : specKeys.AcceptsAny := ⟨fun _ _ => ⟨_, rfl⟩, fun _ _ _ _ => ⟨_, rfl⟩⟩

end Graceful

end Dynamy.Security
