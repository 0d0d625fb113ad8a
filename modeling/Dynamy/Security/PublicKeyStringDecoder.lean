import Dynamy.Java
import Dynamy.Lib.Prog

/-!
# Dynamy.Security.PublicKeyStringDecoder — authorised-key lines

The decoder object: a byte array and a cursor, both reset at the start of `decodePublicKey`.  Events record the
length of every array the decoder allocates.  Base64, the platform charset and the key factories are outside
the repository and come as the parameter `KeyProvider`; `PublicKey` is any type with Java's `equals` as its equality.

What a line decodes to does not depend on what the object was used for before (`run_decodePublicKey`), so
`decoded` names the key of a line.
-/

namespace Dynamy.Security

open Dynamy.Java Dynamy.Lib

/-- `Base64.decode`, `new String(bytes)` and `KeyFactory.getInstance(..).generatePublic`.  That `base64Decode` has no
exception among its results assumes that `Base64.decode` raises none, whatever the text. -/
structure KeyProvider (PublicKey : Type) where
  base64Decode : String → Option (List UInt8)
  newString : List UInt8 → String
  generateRSA : (modulus publicExponent : ℤ) → Except Throwable PublicKey
  generateDSA : (y p q g : ℤ) → Except Throwable PublicKey

/-- The fields of `PublicKeyStringDecoder`. -/
structure Decoder where
  bytes : Option (List UInt8) := none
  pos : ℤ := 0
  deriving DecidableEq, Repr

/-- A method of the decoder; the events are the lengths of the arrays it allocates. -/
abbrev DecoderM (α : Type) : Type := Prog ℤ Decoder Throwable α

variable {PublicKey : Type} (kp : KeyProvider PublicKey)

def getAndIncPos : DecoderM ℤ := do
  let s ← Prog.read
  Prog.update fun d => { d with pos := d.pos + 1 }
  return s.pos

/-- `bytes(getAndIncPos()) & 0xFF`. -/
def nextByte : DecoderM ℕ := do
  let i ← getAndIncPos
  let s ← Prog.read
  let bytes ← Prog.ofExcept (deref s.bytes)
  if 0 ≤ i then
    match bytes[i.toNat]? with
    | some b => return b.toNat
    | none => Prog.raise ⟨.arrayIndexOutOfBounds, none⟩
  else Prog.raise ⟨.arrayIndexOutOfBounds, none⟩

/-- Four bytes as one big-endian 32-bit two's complement integer. -/
def decodeInt : DecoderM ℤ := do
  let b₃ ← nextByte
  let b₂ ← nextByte
  let b₁ ← nextByte
  let b₀ ← nextByte
  return (BitVec.ofNat 32 (b₃ * 2 ^ 24 + b₂ * 2 ^ 16 + b₁ * 2 ^ 8 + b₀)).toInt

/-- The bytes `pos ≤ i < pos + len` of the array, if it has them all. -/
def slice (bytes : List UInt8) (pos len : ℤ) : Option (List UInt8) :=
  if 0 ≤ pos ∧ 0 ≤ len ∧ pos + len ≤ bytes.length then some ((bytes.drop pos.toNat).take len.toNat) else none

def decodeType : DecoderM String := do
  let len ← decodeInt
  let s ← Prog.read
  let bytes ← Prog.ofExcept (deref s.bytes)
  match slice bytes s.pos len with
  | none => Prog.raise ⟨.stringIndexOutOfBounds, none⟩
  | some part =>
    Prog.update fun d => { d with pos := d.pos + len }
    return kp.newString part

/-- `new BigInteger(bytes)`: two's complement, most significant byte first. -/
def newBigInteger (bytes : List UInt8) : Except Throwable ℤ :=
  match bytes with
  | [] => .error ⟨.numberFormat, some "Zero length BigInteger"⟩
  | b :: _ =>
    let n : ℕ := bytes.foldl (fun acc b => acc * 256 + b.toNat) 0
    .ok (if b.toNat < 128 then n else n - 256 ^ bytes.length)

def decodeBigInt : DecoderM ℤ := do
  let len ← decodeInt
  if len < 0 then Prog.raise ⟨.negativeArraySize, none⟩
  Prog.emit len
  let s ← Prog.read
  let bytes ← Prog.ofExcept (deref s.bytes)
  match slice bytes s.pos len with
  | none => Prog.raise ⟨.arrayIndexOutOfBounds, none⟩
  | some bigIntBytes =>
    Prog.update fun d => { d with pos := d.pos + len }
    Prog.ofExcept (newBigInteger bigIntBytes)

/-- `xs.filter(_.startsWith("AAAA")).head` of the tokens of a line. -/
def base64Token (keyLine : String) : Except Throwable String :=
  match (splitChar ' ' keyLine).filter (startsWith · "AAAA") with
  | [] => .error ⟨.noSuchElement, none⟩
  | t :: _ => .ok t

def decodePublicKey (keyLine : String) : DecoderM PublicKey := do
  Prog.update fun _ => { bytes := none, pos := 0 }
  let token ← Prog.ofExcept (base64Token keyLine)
  let decodedBytes := kp.base64Decode token
  Prog.update fun d => { d with bytes := decodedBytes }
  if decodedBytes = none then Prog.raise ⟨.illegalArgument, some "no Base64 part to decode"⟩
  let typeName ← decodeType kp
  if typeName = "ssh-rsa" then
    let e ← decodeBigInt
    let m ← decodeBigInt
    Prog.ofExcept (kp.generateRSA m e)
  else if typeName = "ssh-dss" then
    let p ← decodeBigInt
    let q ← decodeBigInt
    let g ← decodeBigInt
    let y ← decodeBigInt
    Prog.ofExcept (kp.generateDSA y p q g)
  else Prog.raise ⟨.illegalArgument, some ("Unknown type " ++ typeName)⟩

/-- What a line decodes to: the result on a fresh decoder object. -/
def decoded (keyLine : String) : Except Throwable PublicKey := ((decodePublicKey kp keyLine).run {}).result

/-- The earlier use of the decoder object has no influence on a call. -/
theorem run_decodePublicKey (keyLine : String) (d : Decoder) :
    (decodePublicKey kp keyLine).run d = (decodePublicKey kp keyLine).run {} := rfl

end Dynamy.Security
