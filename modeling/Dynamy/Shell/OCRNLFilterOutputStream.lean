import Dynamy.Java
import Dynamy.Lib.Transducer

/-!
# Dynamy.Shell.OCRNLFilterOutputStream — line ends for the terminal

Both shells write through a stream that puts a carriage return before every line feed that has none.  Each shell has
a class of its own for it, with the same text.  A byte is passed as an `int`: as an element of a `byte[]` it comes
signed, and from a caller of `write(int)` signed or unsigned.
-/

namespace Dynamy.Shell

open Dynamy.Java Dynamy.Lib

abbrev Byte : Type := BitVec 8

def lineFeed : Byte := 10

def carriageReturn : Byte := 13

/-- `b.toChar` on an `int` -/
def toChar (b : ℤ) : BitVec 16 := BitVec.ofInt 16 b

/-- The byte that `OutputStream.write(int)` writes. -/
def lowByte (b : ℤ) : Byte := BitVec.ofInt 8 b

/-- The filter, with all that it has written to the stream under it. -/
structure FilterOutputStream where
  out : List Byte := []
  lastWasCr : Bool := false
  deriving DecidableEq, Repr

/-- `out.write(b)` -/
def FilterOutputStream.outWrite (s : FilterOutputStream) (b : ℤ) : FilterOutputStream :=
  { s with out := s.out ++ [lowByte b] }

/-- `DynamyShellFactory.OCRNLFilterOutputStream.write` -/
def DynamyShellFactory.OCRNLFilterOutputStream.write (s : FilterOutputStream) (b : ℤ) : FilterOutputStream :=
  let written :=
    if !s.lastWasCr && toChar b == 10 then
      (s.outWrite 13).outWrite 10
    else
      s.outWrite b
  { written with lastWasCr := toChar b == 13 }

/-- `ScriptingShellFactory.OCRNLFilterOutputStream.write` -/
def ScriptingShellFactory.OCRNLFilterOutputStream.write (s : FilterOutputStream) (b : ℤ) : FilterOutputStream :=
  let written :=
    if !s.lastWasCr && toChar b == 10 then
      (s.outWrite 13).outWrite 10
    else
      s.outWrite b
  { written with lastWasCr := toChar b == 13 }

/-- An `int` that stands for a byte. -/
structure ByteInt where
  val : ℤ
  lower : -128 ≤ val
  upper : val ≤ 255

/-- One call of the stream. -/
inductive WriteCall
  | write (b : ByteInt)
  | writeArray (b : List Byte) (off len : ℤ)

section Calls

variable (write : FilterOutputStream → ℤ → FilterOutputStream)

/-- `FilterOutputStream.write(b, off, len)` -/
def FilterOutputStream.writeArray (s : FilterOutputStream) (b : List Byte) (off len : ℤ) :
    Except Throwable FilterOutputStream :=
  if off < 0 ∨ len < 0 ∨ b.length < off + len then .error ⟨.indexOutOfBounds, none⟩
  else .ok (((b.drop off.toNat).take len.toNat).foldl (fun s x => write s x.toInt) s)

def WriteCall.run (s : FilterOutputStream) : WriteCall → Except Throwable FilterOutputStream
  | .write b => .ok (write s b.val)
  | .writeArray b off len => FilterOutputStream.writeArray write s b off len

/-- Calls one after the other; one that raises leaves the stream as it was. -/
def writeCalls : FilterOutputStream → List WriteCall → FilterOutputStream
  | s, [] => s
  | s, call :: calls =>
    match call.run write s with
    | .ok s' => writeCalls s' calls
    | .error _ => writeCalls s calls

end Calls

/-- The bytes that a call hands over. -/
def WriteCall.bytes : WriteCall → List Byte
  | .write b => [lowByte b.val]
  | .writeArray b off len =>
    if off < 0 ∨ len < 0 ∨ b.length < off + len then [] else (b.drop off.toNat).take len.toNat

/-! ### The machine behind the classes -/

theorem lowByte_toInt (x : Byte) : lowByte x.toInt = x := BitVec.ofInt_toInt

/-- An `int` that stands for a byte is an ASCII character exactly if the byte is. -/
theorem toChar_eq_iff {b : ℤ} (hl : -128 ≤ b) (hu : b ≤ 255) {c : ℕ} (hc : c < 128) :
    toChar b = BitVec.ofNat 16 c ↔ lowByte b = BitVec.ofNat 8 c := by
  unfold toChar lowByte
  rw [← BitVec.toNat_inj, ← BitVec.toNat_inj, BitVec.toNat_ofInt, BitVec.toNat_ofInt, BitVec.toNat_ofNat,
    BitVec.toNat_ofNat]
  omega

/-- The two classes do the same. -/
theorem write_eq :
    ScriptingShellFactory.OCRNLFilterOutputStream.write = DynamyShellFactory.OCRNLFilterOutputStream.write := rfl

/-- What the classes do, on bytes: the state is whether the last one was a carriage return. -/
def ocrnl : Transducer Bool Byte Byte where
  next _ x := x == carriageReturn
  output lastWasCr x := if !lastWasCr && x == lineFeed then [carriageReturn, lineFeed] else [x]

open DynamyShellFactory.OCRNLFilterOutputStream (write)

theorem write_eq_ocrnl (s : FilterOutputStream) {b : ℤ} (hl : -128 ≤ b) (hu : b ≤ 255) :
    write s b = ⟨s.out ++ ocrnl.output s.lastWasCr (lowByte b), ocrnl.next s.lastWasCr (lowByte b)⟩ := by
  have hlf : (toChar b == 10) = (lowByte b == lineFeed) := by
    rw [Bool.eq_iff_iff, beq_iff_eq, beq_iff_eq]
    exact toChar_eq_iff hl hu (by decide : 10 < 128)
  have hcr : (toChar b == 13) = (lowByte b == carriageReturn) := by
    rw [Bool.eq_iff_iff, beq_iff_eq, beq_iff_eq]
    exact toChar_eq_iff hl hu (by decide : 13 < 128)
  unfold write
  rw [hlf, hcr]
  simp only [ocrnl]
  split
  · simp only [FilterOutputStream.outWrite, List.append_assoc, List.singleton_append]
    rfl
  · rfl

theorem write_implements : ocrnl.Implements (fun s (x : Byte) => write s x.toInt) (·.lastWasCr) (·.out) := by
  have hwrite : ∀ (s : FilterOutputStream) (x : Byte),
      write s x.toInt = ⟨s.out ++ ocrnl.output s.lastWasCr x, ocrnl.next s.lastWasCr x⟩ := by
    intro s x
    have hx := BitVec.toInt_lt (x := x)
    have hx' := BitVec.le_toInt x
    rw [write_eq_ocrnl s (by omega) (by omega), lowByte_toInt]
  exact ⟨fun s x => by rw [hwrite], fun s x => by rw [hwrite]⟩

/-- A signed byte and an unsigned one are written alike. -/
theorem write_byteInt (s : FilterOutputStream) (b : ByteInt) : write s b.val = write s (lowByte b.val).toInt := by
  have hx := BitVec.toInt_lt (x := lowByte b.val)
  have hx' := BitVec.le_toInt (lowByte b.val)
  rw [write_eq_ocrnl s b.lower b.upper, write_eq_ocrnl s (by omega) (by omega), lowByte_toInt]

/-- A call writes its bytes one by one, in their order. -/
theorem run_call (s : FilterOutputStream) (call : WriteCall) :
    call.run write s = .ok (call.bytes.foldl (fun s x => write s x.toInt) s) ∨
      (∃ e, call.run write s = .error e) ∧ call.bytes = [] := by
  cases call with
  | write b =>
    rw [WriteCall.run, WriteCall.bytes, write_byteInt]
    exact .inl rfl
  | writeArray b off len =>
    rw [WriteCall.run, WriteCall.bytes, FilterOutputStream.writeArray]
    split
    · exact .inr ⟨⟨_, rfl⟩, rfl⟩
    · exact .inl rfl

theorem writeCalls_eq (s : FilterOutputStream) (calls : List WriteCall) :
    writeCalls write s calls = (calls.flatMap WriteCall.bytes).foldl (fun s x => write s x.toInt) s := by
  induction calls generalizing s with
  | nil => rfl
  | cons call calls ih =>
    rw [writeCalls, List.flatMap_cons, List.foldl_append]
    rcases run_call s call with h | ⟨⟨e, h⟩, hbytes⟩
    · rw [h]
      exact ih _
    · rw [h, hbytes]
      exact ih s

/-- The stream remembers no more than the last byte. -/
theorem ocrnl_run (xs : List Byte) : ocrnl.run false xs = precede carriageReturn lineFeed none xs := by
  have hrun := Transducer.run_eq_flatMap ocrnl (fun p => p == some carriageReturn) (fun p x => rfl) none xs
  refine hrun.trans ?_
  unfold precede
  refine List.flatMap_congr fun q _ => ?_
  simp only [ocrnl, Bool.and_eq_true, Bool.not_eq_true', beq_iff_eq, beq_eq_false_iff_ne]
  exact if_congr and_comm rfl rfl

example : precede carriageReturn lineFeed none [13, 13, 10, 10] = [13, 13, 10, 13, 10] := by decide

theorem out_writeCalls (calls : List WriteCall) :
    (writeCalls write {} calls).out = precede carriageReturn lineFeed none (calls.flatMap WriteCall.bytes) := by
  rw [writeCalls_eq, write_implements.out_foldl, ocrnl_run]
  rfl

/-- Both filters write what they are given with a carriage return put before every line feed that has none, however
it is handed over; then no line feed lacks one, and a filtered stream goes through unchanged. -/
theorem filters_write (calls : List WriteCall) :
    let input := calls.flatMap WriteCall.bytes
    let output := (writeCalls DynamyShellFactory.OCRNLFilterOutputStream.write {} calls).out
    output = precede carriageReturn lineFeed none input ∧
      (writeCalls ScriptingShellFactory.OCRNLFilterOutputStream.write {} calls).out = output ∧
      (∀ pre post, output = pre ++ lineFeed :: post → ∃ pre', pre = pre' ++ [carriageReturn]) ∧
      ∀ again : List WriteCall, again.flatMap WriteCall.bytes = output →
        (writeCalls DynamyShellFactory.OCRNLFilterOutputStream.write {} again).out = output ∧
          (writeCalls ScriptingShellFactory.OCRNLFilterOutputStream.write {} again).out = output := by
  have hne : carriageReturn ≠ lineFeed := by decide
  intro input output
  have hout : output = precede carriageReturn lineFeed none input := out_writeCalls calls
  refine ⟨hout, by rw [write_eq], fun pre post hpre => ?_, fun again hagain => ?_⟩
  · rw [hout] at hpre
    exact (preceded_precede hne none input).before hpre
  · have hsame : (writeCalls write {} again).out = output := by
      rw [out_writeCalls, hagain, hout, precede_precede hne]
    exact ⟨hsame, by rw [write_eq, hsame]⟩

end Dynamy.Shell
