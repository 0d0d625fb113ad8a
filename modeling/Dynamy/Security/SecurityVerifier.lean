import Dynamy.Java

/-!
# Dynamy.Security.SecurityVerifier — signed session ids

`sign`, `generateSessionId` and `verify` of `SecurityVerifier`.  The cryptography provider (charset, key
specification, MAC, hex codec) is not part of the repository: it is the parameter `MacProvider`, and `Symbolic`
is what the two-secret property assumes of it.

`sign` builds its key from the message and never reads the secret, so a string that verifies under one secret
verifies under all of them: `verify_eq_ok_true` says which strings verify, `verify_secret_never_unique` that a string
never determines the secret.  `verify_exact_iff` says for which strings `verify` is total and accepts the signed ones only.
-/

namespace Dynamy.Security

open Dynamy.Java

/-- The provider calls of `SecurityVerifier`: `getBytes`, `Mac.getInstance(algo, "BC")` with `doFinal` as a
function of key and message, and `Hex.encodeToString`.  That it is a function assumes that `mac.init` takes every key
that is not empty, as an HMac does: there is no `InvalidKeyException`. -/
structure MacProvider (Bytes : Type) where
  getBytes : String → Bytes
  isEmpty : Bytes → Bool
  getInstance : String → Option (Bytes → Bytes → Bytes)
  encodeToString : Bytes → String

/-- The MAC is an injective function of key and message; hex and charset encoding are injective. -/
structure MacProvider.Symbolic {Bytes : Type} (p : MacProvider Bytes) : Prop where
  mac : ∀ algo f, p.getInstance algo = some f → ∀ k m k' m', f k m = f k' m' → k = k' ∧ m = m'
  hex : Function.Injective p.encodeToString
  bytes : Function.Injective p.getBytes

variable {Bytes : Type} (p : MacProvider Bytes)

/-- `new SecretKeySpec(bytes, algo)`. -/
def secretKeySpec (bytes : Bytes) (_algo : String) : Except Throwable Bytes :=
  if p.isEmpty bytes then .error ⟨.illegalArgument, some "Empty key"⟩ else .ok bytes

/-- `Mac.getInstance(algo, "BC")`. -/
def macGetInstance (algo : String) : Except Throwable (Bytes → Bytes → Bytes) :=
  match p.getInstance algo with
  | some mac => .ok mac
  | none => .error ⟨.noSuchAlgorithm, none⟩

def sign (s _secret algo : String) : Except Throwable String := do
  let message := p.getBytes s
  -- the source builds the key from `s` here, not from `secret`
  let key ← secretKeySpec p (p.getBytes s) algo
  let mac ← macGetInstance p algo
  return p.encodeToString (mac key message)

/-- `generateSessionId`, for the value `u` of `UUID.randomUUID().toString`. -/
def generateSessionId (u secret algo : String) : Except Throwable String := do
  let s ← sign p u secret algo
  return u ++ s

def verify (s secret algo : String) (size : ℤ) : Except Throwable Bool := do
  let u ← substring s 0 size
  let ss ← substringFrom s size
  let enc ← sign p u secret algo
  return ss == enc

/-- The default of `verify`'s parameter `size`. -/
def defaultSize : ℤ := 36

/-- `s` is a 36-character string followed by the hex MAC of that string under itself as the key. -/
def SelfSigned (s algo : String) : Prop :=
  ∃ u mac, u.length = 36 ∧ p.isEmpty (p.getBytes u) = false ∧ p.getInstance algo = some mac ∧
    s = u ++ p.encodeToString (mac (p.getBytes u) (p.getBytes u))

variable {p}

/-- The signature does not depend on the secret. -/
theorem sign_secret (s k k' algo : String) : sign p s k algo = sign p s k' algo := rfl

theorem verify_secret (s k k' algo : String) (size : ℤ) : verify p s k algo size = verify p s k' algo size := rfl

theorem sign_eq_ok {s k algo enc : String} : sign p s k algo = .ok enc ↔
    p.isEmpty (p.getBytes s) = false ∧
      ∃ mac, p.getInstance algo = some mac ∧ enc = p.encodeToString (mac (p.getBytes s) (p.getBytes s)) := by
  unfold sign secretKeySpec macGetInstance
  cases he : p.isEmpty (p.getBytes s) <;> cases hm : p.getInstance algo <;>
    simp [bind, Except.bind, pure, Except.pure, eq_comm]

/-- A cut at `n` succeeds exactly on a string with at least `n` characters, and splits it in two. -/
theorem substring_cut {s u ss : String} {n : ℕ} :
    (substring s 0 n = .ok u ∧ substringFrom s n = .ok ss) ↔ u.length = n ∧ s = u ++ ss := by
  have hlen : ∀ x : String, x.length = x.toList.length := fun x => String.length_toList.symm
  unfold substringFrom substring
  constructor
  · rintro ⟨hu, hss⟩
    split_ifs at hu hss with h1 h2
    simp only [Except.ok.injEq] at hu hss
    subst hu hss
    have hn : n ≤ s.toList.length := by rw [← hlen]; exact_mod_cast h1.2.2
    refine ⟨by rw [hlen]; simp [hn], String.toList_injective ?_⟩
    simp [hlen]
  · rintro ⟨rfl, rfl⟩
    have h : (0 : ℤ) ≤ u.length ∧ (u.length : ℤ) ≤ (u ++ ss).length := by
      rw [String.length_append]; omega
    have h' : ((u ++ ss).length : ℤ).toNat = (u.toList ++ ss.toList).length := by
      rw [Int.toNat_natCast, hlen, String.toList_append]
    refine ⟨?_, ?_⟩
    · rw [if_pos ⟨by omega, h⟩]
      simp [hlen]
    · rw [if_pos ⟨h.1, h.2, by omega⟩, h', String.toList_append, List.take_length]
      simp [hlen]

/-- **What verifies**: exactly the self-signed strings, whatever the secret. -/
theorem verify_eq_ok_true {s k algo : String} :
    verify p s k algo defaultSize = .ok true ↔ SelfSigned p s algo := by
  constructor
  · intro h
    unfold verify at h
    cases hu : substring s 0 defaultSize with
    | error e => simp [hu, bind, Except.bind] at h
    | ok u =>
      cases hss : substringFrom s defaultSize with
      | error e => simp [hu, hss, bind, Except.bind] at h
      | ok ss =>
        cases hs : sign p u k algo with
        | error e => simp [hu, hss, hs, bind, Except.bind] at h
        | ok enc =>
          simp only [hu, hss, hs, bind, Except.bind, pure, Except.pure, Except.ok.injEq, beq_iff_eq] at h
          subst h
          obtain ⟨hlen, hcut⟩ := substring_cut.mp ⟨hu, hss⟩
          obtain ⟨hne, mac, hmac, henc⟩ := sign_eq_ok.mp hs
          exact ⟨u, mac, hlen, hne, hmac, by rw [hcut, henc]⟩
  · rintro ⟨u, mac, hlen, hne, hmac, hs⟩
    obtain ⟨hu, hss⟩ := substring_cut.mpr ⟨hlen, hs⟩
    have hsign := (sign_eq_ok (k := k)).mpr ⟨hne, mac, hmac, rfl⟩
    unfold verify
    rw [show defaultSize = ((36 : ℕ) : ℤ) from rfl, hu, hss]
    simp [bind, Except.bind, hsign, pure, Except.pure]

/-! ### A symbolic provider -/

/-- A symbolic MAC on character lists: the key's characters are marked, then the message follows. -/
def markedMac : List Char → List Char → List Char
  | [], m => 'm' :: m
  | c :: k, m => 'k' :: c :: markedMac k m

theorem markedMac_inj : ∀ {k m k' m' : List Char}, markedMac k m = markedMac k' m' → k = k' ∧ m = m'
  | [], m, [], m', h => by simpa [markedMac] using h
  | [], m, c :: k', m', h => by simp [markedMac] at h
  | c :: k, m, [], m', h => by simp [markedMac] at h
  | c :: k, m, c' :: k', m', h => by
    simp only [markedMac, List.cons.injEq, true_and] at h
    obtain ⟨hk, hm⟩ := markedMac_inj h.2
    exact ⟨by rw [h.1, hk], hm⟩

/-- A provider whose every algorithm is the symbolic MAC. -/
def markedProvider : MacProvider (List Char) where
  getBytes := String.toList
  isEmpty := List.isEmpty
  getInstance := fun _ => some markedMac
  encodeToString := String.ofList

theorem markedProvider_symbolic : markedProvider.Symbolic where
  mac := by
    rintro algo f hf k m k' m' h
    obtain rfl : markedMac = f := by simpa [markedProvider] using hf
    exact markedMac_inj h
  hex := fun a b h => by simpa [markedProvider] using congrArg String.toList h
  bytes := fun a b h => String.toList_injective h

/-- Under a symbolic provider the self-signed string of a UUID is accepted under the secrets `"a"` and `"b"`. -/
theorem verify_two_secrets :
    ¬ ∀ (p : MacProvider (List Char)), p.Symbolic → ∀ s k₁ k₂ algo,
      verify p s k₁ algo defaultSize = .ok true → verify p s k₂ algo defaultSize = .ok true → k₁ = k₂ := by
  intro h
  have hself : SelfSigned markedProvider
      ("0f8fad5b-d9cb-469f-a165-70867728950e" ++ String.ofList (markedMac
        "0f8fad5b-d9cb-469f-a165-70867728950e".toList "0f8fad5b-d9cb-469f-a165-70867728950e".toList))
      "HMac-SHA1" := ⟨_, markedMac, by decide, by decide, rfl, rfl⟩
  have := h markedProvider markedProvider_symbolic _ "a" "b" "HMac-SHA1" (verify_eq_ok_true.mpr hself)
    (verify_eq_ok_true.mpr hself)
  exact absurd this (by decide)

/-! ### Session ids -/

variable (p)

/-- `s` is a string of exactly `size` characters followed by its signature. -/
def Signed (s secret algo : String) (size : ℕ) : Prop :=
  ∃ u enc, u.length = size ∧ sign p u secret algo = .ok enc ∧ s = u ++ enc

/-- `verify` raises nothing and accepts exactly the signed strings. -/
def VerifiesExactly (s secret algo : String) (size : ℕ) : Prop :=
  ∃ accepted, verify p s secret algo size = .ok accepted ∧ (accepted = true ↔ Signed p s secret algo size)

/-- The id generated for a UUID verifies, and with anything else in the place of its signature it does not. -/
def IdsVerify (secret algo : String) : Prop :=
  ∀ u id, (u.length : ℤ) = defaultSize → generateSessionId p u secret algo = .ok id →
    verify p id secret algo defaultSize = .ok true ∧
      ∀ rest, u ++ rest ≠ id → verify p (u ++ rest) secret algo defaultSize = .ok false

/-- Of the provider: the bytes of a non-empty string are not empty. -/
def MacProvider.EncodesAll (p : MacProvider Bytes) : Prop := ∀ u, u ≠ "" → p.isEmpty (p.getBytes u) = false

variable {p}

theorem sign_known (hp : p.EncodesAll) {u secret algo : String} (hu : u ≠ "") (halgo : (p.getInstance algo).isSome) :
    ∃ enc, sign p u secret algo = .ok enc := by
  obtain ⟨mac, hmac⟩ := Option.isSome_iff_exists.mp halgo
  exact ⟨_, sign_eq_ok.mpr ⟨hp u hu, mac, hmac, rfl⟩⟩

theorem substring_short {s : String} {size : ℕ} (h : s.length < size) :
    substring s 0 size = .error ⟨.stringIndexOutOfBounds, none⟩ := by
  rw [substring, if_neg]
  rintro ⟨-, -, hle⟩
  omega

/-- A string that is long enough is cut, and its end compared with the signature of its beginning. -/
theorem verify_append {u rest secret algo enc : String} {size : ℕ} (hlen : u.length = size)
    (hsign : sign p u secret algo = .ok enc) : verify p (u ++ rest) secret algo size = .ok (rest == enc) := by
  obtain ⟨hu, hrest⟩ := substring_cut.mpr ⟨hlen, rfl⟩
  rw [verify, hu, hrest]
  simp [bind, Except.bind, hsign, pure, Except.pure]

theorem signed_append {u rest secret algo enc : String} {size : ℕ} (hlen : u.length = size)
    (hsign : sign p u secret algo = .ok enc) : Signed p (u ++ rest) secret algo size ↔ rest = enc := by
  constructor
  · rintro ⟨u', enc', hlen', hsign', heq⟩
    have hlists : u.toList ++ rest.toList = u'.toList ++ enc'.toList := by
      rw [← String.toList_append, heq, String.toList_append]
    have hsame : u.toList.length = u'.toList.length := by
      rw [String.length_toList, String.length_toList, hlen, hlen']
    obtain ⟨hu, hrest⟩ := List.append_inj hlists hsame
    obtain rfl : u = u' := String.toList_injective hu
    obtain rfl : enc = enc' := Except.ok.inj (hsign.symm.trans hsign')
    exact String.toList_injective hrest
  · rintro rfl
    exact ⟨u, rest, hlen, hsign, rfl⟩

theorem idsVerify (secret algo : String) : IdsVerify p secret algo := by
  intro u id hlen hid
  cases hsign : sign p u secret algo with
  | error e => simp [generateSessionId, hsign, bind, Except.bind] at hid
  | ok enc =>
    obtain rfl : u ++ enc = id := by
      simpa [generateSessionId, hsign, bind, Except.bind, pure, Except.pure] using hid
    have hsize : u.length = 36 := by
      rw [defaultSize] at hlen
      omega
    have hverify : ∀ rest, verify p (u ++ rest) secret algo defaultSize = .ok (rest == enc) :=
      fun rest => (verify_append hsize hsign : verify p (u ++ rest) secret algo (36 : ℕ) = .ok (rest == enc))
    refine ⟨by rw [hverify, beq_self_eq_true], fun rest hne => ?_⟩
    have hrest : rest ≠ enc := fun h => hne (h ▸ rfl)
    rw [hverify, beq_eq_false_iff_ne.mpr hrest]

/-- **Verification, exactly.**  `verify` is total and accepts the signed strings only, and the generated ids are among
them, for the strings that are at least as long as the part that is signed; on a shorter one it raises. -/
theorem verify_exact_iff (hp : p.EncodesAll) (s secret algo : String) (halgo : (p.getInstance algo).isSome) {size : ℕ}
    (hsize : 1 ≤ size) :
    (VerifiesExactly p s secret algo size ∧ IdsVerify p secret algo) ↔ size ≤ s.length := by
  constructor
  · rintro ⟨⟨accepted, hverify, -⟩, -⟩
    by_contra hshort
    have hraise : substring s 0 size = .error ⟨.stringIndexOutOfBounds, none⟩ := substring_short (by omega)
    rw [verify, hraise] at hverify
    cases hverify
  · intro hlong
    obtain ⟨u, rest, hlen, rfl⟩ : ∃ u rest : String, u.length = size ∧ s = u ++ rest := by
      refine ⟨String.ofList (s.toList.take size), String.ofList (s.toList.drop size), ?_, ?_⟩
      · rw [String.length_ofList, List.length_take, String.length_toList]
        omega
      · rw [← String.ofList_append, List.take_append_drop, String.ofList_toList]
    have hne : u ≠ "" := by
      rintro rfl
      rw [String.length_empty] at hlen
      omega
    obtain ⟨enc, hsign⟩ : ∃ enc, sign p u secret algo = .ok enc := sign_known hp hne halgo
    refine ⟨⟨_, verify_append hlen hsign, ?_⟩, idsVerify secret algo⟩
    rw [signed_append hlen hsign, beq_iff_eq]

theorem markedProvider_encodesAll : markedProvider.EncodesAll := fun u hu => by
  simpa [markedProvider] using hu

theorem verify_exact_iff_cut :
    (VerifiesExactly markedProvider "amka" "secret" "HMac-SHA1" 1 ∧ IdsVerify markedProvider "secret" "HMac-SHA1") ↔
      1 ≤ "amka".length :=
  verify_exact_iff markedProvider_encodesAll "amka" "secret" "HMac-SHA1" rfl le_rfl

/-- A session id that was cut to nothing raises `StringIndexOutOfBoundsException`. -/
theorem verify_not_exact : ¬ ∀ s, VerifiesExactly markedProvider s "secret" "HMac-SHA1" 36 := by
  intro h
  obtain ⟨accepted, hverify, -⟩ := h ""
  cases hverify

/-! ### Two secrets -/

/-- What is signed with one secret is accepted under any other. -/
theorem verify_both (hp : p.EncodesAll) {u algo : String} (hu : u.length = 36) (halgo : (p.getInstance algo).isSome)
    (k₁ k₂ : String) : ∃ id, generateSessionId p u k₁ algo = .ok id ∧ verify p id k₁ algo defaultSize = .ok true ∧
      verify p id k₂ algo defaultSize = .ok true := by
  have hne : u ≠ "" := by
    rintro rfl
    cases hu
  obtain ⟨enc, hsign⟩ : ∃ enc, sign p u k₁ algo = .ok enc := sign_known hp hne halgo
  have hsign' : sign p u k₂ algo = .ok enc := (sign_secret u k₂ k₁ algo).trans hsign
  have haccepts : ∀ k, sign p u k algo = .ok enc → verify p (u ++ enc) k algo defaultSize = .ok true := fun k hk => by
    have hverify : verify p (u ++ enc) k algo (36 : ℕ) = .ok (enc == enc) := verify_append hu hk
    rwa [beq_self_eq_true] at hverify
  refine ⟨u ++ enc, ?_, haccepts k₁ hsign, haccepts k₂ hsign'⟩
  rw [generateSessionId, hsign]
  rfl

/-- **Two secrets.**  Whatever they are, and under any algorithm that the provider has: that a string is accepted under
both never says that they are the same. -/
theorem verify_secret_never_unique (hp : p.EncodesAll) {k₁ k₂ algo : String} (hk : k₁ ≠ k₂)
    (halgo : (p.getInstance algo).isSome) :
    ¬ ∀ s, verify p s k₁ algo defaultSize = .ok true → verify p s k₂ algo defaultSize = .ok true → k₁ = k₂ := by
  intro hunique
  obtain ⟨id, -, h₁, h₂⟩ := verify_both hp (u := String.ofList (List.replicate 36 '0'))
    (by rw [String.length_ofList, List.length_replicate]) halgo k₁ k₂
  exact hk (hunique id h₁ h₂)

theorem verify_secret_never_unique_a_b : ¬ ∀ s, verify markedProvider s "a" "HMac-SHA1" defaultSize = .ok true →
    verify markedProvider s "b" "HMac-SHA1" defaultSize = .ok true → "a" = "b" :=
  verify_secret_never_unique markedProvider_encodesAll (by decide) rfl

end Dynamy.Security
