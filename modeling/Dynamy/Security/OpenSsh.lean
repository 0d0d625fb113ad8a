import Dynamy.Security.KeyBlobs

/-!
# Dynamy.Security.OpenSsh — lines in the OpenSSH format

The other direction of the decoder: how a public key is written as an authorised-key line, and that the decoder
undoes it.  A line is a list of leading tokens, the key token and a list of trailing tokens, separated by blanks;
the key token is the Base64 of the type name and the key's integers as fields.
-/

namespace Dynamy.Security

open Dynamy.Java Dynamy.Lib

/-! ### Keys -/

/-- A positive integer of a key.  `bitLength` of a `BigInteger` is an `int`. -/
structure Component where
  value : ℕ
  pos : 0 < value
  bits : value.size < 2 ^ 31

/-- A public key in the order in which its integers are written. -/
inductive SshKey
  | rsa (e n : Component)
  | dsa (p q g y : Component)

namespace SshKey

def typeName : SshKey → String
  | rsa .. => "ssh-rsa"
  | dsa .. => "ssh-dss"

def components : SshKey → List Component
  | rsa e n => [e, n]
  | dsa p q g y => [p, q, g, y]

/-- The spec of the key. -/
def spec : SshKey → KeySpec
  | rsa e n => .rsa n.value e.value
  | dsa p q g y => .dsa y.value p.value q.value g.value

end SshKey

/-- The bytes of an ASCII string. -/
def ascii (s : String) : List UInt8 := s.toList.map fun c => UInt8.ofNat c.toNat

def Component.field (c : Component) : List UInt8 := Wire.field (Wire.mpint c.value)

/-- The bytes of the key token. -/
def SshKey.blob (key : SshKey) : List UInt8 :=
  Wire.field (ascii key.typeName) ++ key.components.flatMap Component.field

/-! ### Lines -/

def blanks (n : ℕ) : List Char := List.replicate n ' '

/-- What stands around the key token: tokens before it, each with the number of further blanks behind it, and tokens
after it, each with the number of further blanks in front. -/
structure Surroundings where
  leading : List (String × ℕ)
  trailing : List (ℕ × String)
  words : ∀ t ∈ leading, ' ' ∉ t.1.toList
  notKey : ∀ t ∈ leading, startsWith t.1 "AAAA" = false

namespace Surroundings

def before (l : List (String × ℕ)) : List Char := l.flatMap fun (t, n) => t.toList ++ blanks (n + 1)

def behind (l : List (ℕ × String)) : List Char := l.flatMap fun (n, t) => blanks (n + 1) ++ t.toList

/-- The line with `token` in the middle. -/
def line (s : Surroundings) (token : String) : String :=
  String.ofList (before s.leading ++ token.toList ++ behind s.trailing)

end Surroundings

/-! ### The token of a line -/

/-- The pieces of a line that look like a key. -/
def keyPieces (cs : List Char) : List (List Char) :=
  (pieces (· == ' ') false false cs).filter ("AAAA".toList.isPrefixOf ·)

theorem keyPieces_word {w : List Char} (hw : ' ' ∉ w) (rest : List Char) :
    keyPieces (w ++ ' ' :: rest) =
      if "AAAA".toList.isPrefixOf w then w :: keyPieces rest else keyPieces rest := by
  have hsep : ∀ c ∈ w, (c == ' ') = false := by
    intro c hc
    simpa using fun h : c = ' ' => hw (h ▸ hc)
  have hrun : pieces (· == ' ') false true rest = pieces (· == ' ') false false rest := by
    cases rest <;> simp [pieces]
  rw [keyPieces, pieces_word hsep rfl, hrun, List.filter_cons]
  rfl

theorem keyPieces_blanks (n : ℕ) (rest : List Char) : keyPieces (blanks n ++ rest) = keyPieces rest := by
  induction n with
  | zero => rfl
  | succ n ih =>
    have hblank := keyPieces_word (w := []) (by simp) (blanks n ++ rest)
    rw [ih] at hblank
    exact hblank

/-- Tokens that do not begin with `AAAA` are passed over. -/
theorem keyPieces_before {leading : List (String × ℕ)} (hwords : ∀ t ∈ leading, ' ' ∉ t.1.toList)
    (hnot : ∀ t ∈ leading, startsWith t.1 "AAAA" = false) (rest : List Char) :
    keyPieces (Surroundings.before leading ++ rest) = keyPieces rest := by
  induction leading with
  | nil => rfl
  | cons t leading ih =>
    obtain ⟨t, n⟩ := t
    have htail := ih (fun t ht => hwords t (List.mem_cons_of_mem _ ht)) fun t ht => hnot t (List.mem_cons_of_mem _ ht)
    have hword : ' ' ∉ t.toList := hwords (t, n) List.mem_cons_self
    have hpre : "AAAA".toList.isPrefixOf t.toList = false := hnot (t, n) List.mem_cons_self
    have hsplit : Surroundings.before ((t, n) :: leading) ++ rest =
        t.toList ++ ' ' :: (blanks n ++ (Surroundings.before leading ++ rest)) := by
      simp [Surroundings.before, blanks, List.replicate_succ]
    rw [hsplit, keyPieces_word hword, hpre, keyPieces_blanks, htail]
    rfl

/-- The key token is the first piece from where it begins. -/
theorem keyPieces_token {token : List Char} (hword : ' ' ∉ token) (hpre : "AAAA".toList.isPrefixOf token = true)
    (trailing : List (ℕ × String)) :
    ∃ more, keyPieces (token ++ Surroundings.behind trailing) = token :: more := by
  cases trailing with
  | nil =>
    have hsep : ∀ c ∈ token, (c == ' ') = false := by
      intro c hc
      simpa using fun h : c = ' ' => hword (h ▸ hc)
    refine ⟨[], ?_⟩
    simp only [Surroundings.behind, List.flatMap_nil, List.append_nil, keyPieces, pieces_single hsep,
      List.filter_cons, hpre, if_true, List.filter_nil]
  | cons t trailing =>
    obtain ⟨n, t⟩ := t
    have hsplit : token ++ Surroundings.behind ((n, t) :: trailing) =
        token ++ ' ' :: (blanks n ++ t.toList ++ Surroundings.behind trailing) := by
      simp [Surroundings.behind, blanks, List.replicate_succ]
    rw [hsplit, keyPieces_word hword, if_pos hpre]
    exact ⟨_, rfl⟩

/-- **The token is found**, whatever stands around it. -/
theorem base64Token_line (s : Surroundings) {token : String} (hword : ' ' ∉ token.toList)
    (hpre : startsWith token "AAAA" = true) : base64Token (s.line token) = .ok token := by
  obtain ⟨more, hmore⟩ := keyPieces_token hword hpre s.trailing
  have hpieces : keyPieces (s.line token).toList = token.toList :: more := by
    rw [Surroundings.line, String.toList_ofList, List.append_assoc, keyPieces_before s.words s.notKey, hmore]
  have hfilter : (splitChar ' ' (s.line token)).filter (startsWith · "AAAA") =
      (keyPieces (s.line token).toList).map String.ofList := by
    have hcomp : (startsWith · "AAAA") ∘ String.ofList = ("AAAA".toList.isPrefixOf ·) := by
      funext w
      simp [startsWith]
    rw [splitChar, filter_split rfl, List.filter_map, hcomp]
    rfl
  rw [base64Token, hfilter, hpieces]
  simp

/-! ### Round trip -/

/-- What the results below assume of Base64, the charset and the key factories; `specOf` is the spec of a key. -/
structure KeyProvider.Documented {PublicKey : Type} (kp : KeyProvider PublicKey) (specOf : PublicKey → KeySpec) :
    Prop where
  decode_encode : ∀ bs, kp.base64Decode (Base64.encode bs) = some bs
  newString_ascii : ∀ s : String, (∀ c ∈ s.toList, c.toNat < 128) → kp.newString (ascii s) = s
  rsa : ∀ modulus publicExponent, ∃ k,
    kp.generateRSA modulus publicExponent = .ok k ∧ specOf k = .rsa modulus publicExponent
  dsa : ∀ y p q g, ∃ k, kp.generateDSA y p q g = .ok k ∧ specOf k = .dsa y p q g

/-- An integer behind the cursor is read back, and the cursor is behind it. -/
theorem decodeBigInt_component {blob rest : List UInt8} {p : ℕ} {c : Component}
    (h : blob.drop p = c.field ++ rest) :
    ∃ p', blob.drop p' = rest ∧ ∀ (α : Type) (f : ℤ → DecoderM α),
      ((decodeBigInt >>= f).run (.at blob p)).result = ((f c.value).run (.at blob p')).result := by
  have hlength : (Wire.mpint c.value).length < 2 ^ 31 := by
    have hbits := c.bits
    rw [Wire.mpint, Wire.bigEndian_length]
    omega
  have hne : Wire.mpint c.value ≠ [] := by
    intro hnil
    have hpos : (Wire.mpint c.value).length = 0 := by rw [hnil]; rfl
    rw [Wire.mpint, Wire.bigEndian_length] at hpos
    omega
  have hread : Wire.readField (blob.drop p) = some (Wire.mpint c.value, rest) := by
    rw [h]
    exact Wire.readField_field hlength rest
  obtain ⟨hrun, hdrop, -⟩ := run_decodeBigInt_field hread
  refine ⟨_, hdrop, fun α f => ?_⟩
  rw [Prog.run_bind, hrun, newBigInteger_eq hne, Wire.signed_mpint]

/-- Both type names are seven ASCII characters. -/
theorem SshKey.typeName_ascii (key : SshKey) :
    (ascii key.typeName).length = 7 ∧ ∀ c ∈ key.typeName.toList, c.toNat < 128 := by
  have hrsa : ("ssh-rsa".toList.all fun c => decide (c.toNat < 128)) = true := rfl
  have hdss : ("ssh-dss".toList.all fun c => decide (c.toNat < 128)) = true := rfl
  have hlength : (ascii "ssh-rsa").length = 7 ∧ (ascii "ssh-dss").length = 7 := ⟨rfl, rfl⟩
  cases key with
  | rsa e n => exact ⟨hlength.1, fun c hc => of_decide_eq_true (List.all_eq_true.mp hrsa c hc)⟩
  | dsa p q g y => exact ⟨hlength.2, fun c hc => of_decide_eq_true (List.all_eq_true.mp hdss c hc)⟩

theorem SshKey.blob_zeros (key : SshKey) : ∃ rest, key.blob = 0 :: 0 :: 0 :: rest := by
  have hseven : Wire.bigEndian 4 7 = [0, 0, 0, 7] := by decide
  rw [SshKey.blob, Wire.field, key.typeName_ascii.1, hseven]
  exact ⟨_, rfl⟩

/-- **Round trip of key lines.**  Whatever stands around the key token and whatever the decoder was used for before,
the line of a key decodes to a key with exactly that spec. -/
theorem decodePublicKey_line {PublicKey : Type} {kp : KeyProvider PublicKey} {specOf : PublicKey → KeySpec}
    (hkp : kp.Documented specOf) (key : SshKey) (s : Surroundings) (d : Decoder) :
    ∃ k, ((decodePublicKey kp (s.line (Base64.encode key.blob))).run d).result = .ok k ∧ specOf k = key.spec := by
  obtain ⟨zrest, hz⟩ := key.blob_zeros
  have hpre : startsWith (Base64.encode key.blob) "AAAA" = true := by
    rw [startsWith, hz, Base64.encode_zeros]
    rfl
  have htoken := base64Token_line s (Base64.blank_not_mem_encode key.blob) hpre
  rw [run_decodePublicKey_blob htoken (hkp.decode_encode key.blob)]
  have htype : Wire.readField (key.blob.drop 0) =
      some (ascii key.typeName, key.components.flatMap Component.field) := by
    have hlength : (ascii key.typeName).length < 2 ^ 31 := by rw [key.typeName_ascii.1]; decide
    exact Wire.readField_field hlength _
  have hname : kp.newString (ascii key.typeName) = key.typeName :=
    hkp.newString_ascii _ key.typeName_ascii.2
  obtain ⟨hrun, hfields⟩ := run_decodeType_field kp htype
  rw [decodeBlob, Prog.run_bind_of_ok hrun, hname]
  cases key with
  | rsa e n =>
    obtain ⟨p₁, h₁, hrun₁⟩ := decodeBigInt_component (c := e) hfields
    obtain ⟨p₂, h₂, hrun₂⟩ := decodeBigInt_component (c := n) h₁
    obtain ⟨k, hk, hspec⟩ := hkp.rsa n.value e.value
    refine ⟨k, ?_, hspec⟩
    have hrsa : (SshKey.rsa e n).typeName = "ssh-rsa" := rfl
    rw [if_pos hrsa, hrun₁, hrun₂, Prog.run_ofExcept, hk]
  | dsa p q g y =>
    obtain ⟨p₁, h₁, hrun₁⟩ := decodeBigInt_component (c := p) hfields
    obtain ⟨p₂, h₂, hrun₂⟩ := decodeBigInt_component (c := q) h₁
    obtain ⟨p₃, h₃, hrun₃⟩ := decodeBigInt_component (c := g) h₂
    obtain ⟨p₄, h₄, hrun₄⟩ := decodeBigInt_component (c := y) h₃
    obtain ⟨k, hk, hspec⟩ := hkp.dsa y.value p.value q.value g.value
    refine ⟨k, ?_, hspec⟩
    have hrsa : ¬ (SshKey.dsa p q g y).typeName = "ssh-rsa" := by simp [SshKey.typeName]
    have hdss : (SshKey.dsa p q g y).typeName = "ssh-dss" := rfl
    rw [if_neg hrsa, if_pos hdss, hrun₁, hrun₂, hrun₃, hrun₄, Prog.run_ofExcept, hk]

theorem specKeys_documented : specKeys.Documented id where
  decode_encode := Base64.decode_encode
  newString_ascii s hs := by
    have hback : ∀ c ∈ s.toList, Char.ofNat (UInt8.ofNat c.toNat).toNat = c := by
      intro c hc
      have hlt := hs c hc
      rw [UInt8.toNat_ofNat', Nat.mod_eq_of_lt (by omega), Char.ofNat_toNat]
    have hmap : (ascii s).map (fun b => Char.ofNat b.toNat) = s.toList := by
      rw [ascii, List.map_map]
      exact (List.map_congr_left hback).trans (List.map_id _)
    show String.ofList ((ascii s).map fun b => Char.ofNat b.toNat) = s
    rw [hmap, String.ofList_toList]
  rsa _ _ := ⟨_, rfl, rfl⟩
  dsa _ _ _ _ := ⟨_, rfl, rfl⟩

/-- The RSA key with the exponent 3 and the modulus 33. -/
def smallKey : SshKey := .rsa ⟨3, by decide, by decide⟩ ⟨33, by decide, by decide⟩

/-- A line for it, on a decoder that stopped in the middle of another blob. -/
theorem decodePublicKey_line_small :
    ∃ k, ((decodePublicKey specKeys (Surroundings.line ⟨[("ssh-rsa", 0)], [(1, "admin")], by decide, by decide⟩
      (Base64.encode smallKey.blob))).run { bytes := some [0, 0, 0, 7], pos := 4 }).result = .ok k ∧
      id k = smallKey.spec :=
  decodePublicKey_line specKeys_documented smallKey _ _

end Dynamy.Security
