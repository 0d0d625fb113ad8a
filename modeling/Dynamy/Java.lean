import Mathlib.Algebra.Order.Ring.Int
import Mathlib.Data.List.Basic
import Mathlib.Data.List.DropRight
import Mathlib.Data.List.Induction

/-!
# Dynamy.Java — what the modules use of the Java library

`null` is `none`.  A thrown exception is a `Throwable`: its class and, where the program (not the JVM) wrote one, its
message.  A Java string is a Lean `String`, one `Char` for one Java `char`, so what is said of lengths and cuts is said
of strings without surrogates.  The functions below are those of `java.lang.String` that the program calls, with the
exceptions they raise.
-/

namespace Dynamy.Java

/-- The exception classes that the program raises, lets through or catches. -/
inductive ThrowableClass
  | nullPointer | indexOutOfBounds | arrayIndexOutOfBounds | stringIndexOutOfBounds | negativeArraySize
  | noSuchElement | illegalArgument | numberFormat | unsupportedOperation | illegalFormat | runtime
  | matchError | sql | noSuchAlgorithm | invalidKeySpec | invalidSyntax | authentication | rollback | system
  | bundle | fileAlreadyExists | noSuchFile | fileSystem
  deriving DecidableEq, Repr

structure Throwable where
  cls : ThrowableClass
  message : Option String := none
  deriving DecidableEq, Repr

/-- Dereferencing a reference that may be `null`. -/
def deref {α : Type*} : Option α → Except Throwable α
  | some a => .ok a
  | none => .error ⟨.nullPointer, none⟩

@[simp] theorem deref_some {α : Type*} (a : α) : deref (some a) = .ok a := rfl

@[simp] theorem deref_none {α : Type*} : deref (none : Option α) = .error ⟨.nullPointer, none⟩ := rfl

/-- What came before a result returned. -/
theorem of_bind_eq_ok {α β : Type} {x : Except Throwable α} {f : α → Except Throwable β} {b : β}
    (h : (x >>= f) = .ok b) : ∃ a, x = .ok a ∧ f a = .ok b := by
  cases x with
  | ok a => exact ⟨a, rfl, h⟩
  | error e => cases h

/-- `s == null || s.isEmpty`. -/
def nullOrEmpty : Option String → Prop
  | none => True
  | some s => s = ""

instance : DecidablePred nullOrEmpty
  | none => .isTrue trivial
  | some s => inferInstanceAs (Decidable (s = ""))

@[simp] theorem nullOrEmpty_none : nullOrEmpty none := trivial

@[simp] theorem nullOrEmpty_some {s : String} : nullOrEmpty (some s) ↔ s = "" := Iff.rfl

/-- `s.substring(b, e)`. -/
def substring (s : String) (b e : ℤ) : Except Throwable String :=
  if 0 ≤ b ∧ b ≤ e ∧ e ≤ s.length then .ok (String.ofList ((s.toList.take e.toNat).drop b.toNat))
  else .error ⟨.stringIndexOutOfBounds, none⟩

/-- `s.substring(b)`. -/
def substringFrom (s : String) (b : ℤ) : Except Throwable String := substring s b s.length

/-- `s.startsWith(prefix)`. -/
def startsWith (s pre : String) : Bool := pre.toList.isPrefixOf s.toList

/-- `s.trim()`: characters up to U+0020 are dropped at both ends. -/
def trim (s : String) : String :=
  String.ofList ((s.toList.dropWhile (· ≤ ' ')).rdropWhile (· ≤ ' '))

/-- `xs(i)` on an array -/
def arrayAt {α : Type*} (xs : List α) (i : ℕ) : Except Throwable α :=
  match xs[i]? with
  | some x => .ok x
  | none => .error ⟨.arrayIndexOutOfBounds, none⟩

theorem arrayAt_of_some {α : Type*} {xs : List α} {i : ℕ} {x : α} (h : xs[i]? = some x) : arrayAt xs i = .ok x := by
  rw [arrayAt, h]

theorem arrayAt_of_none {α : Type*} {xs : List α} {i : ℕ} (h : xs[i]? = none) :
    arrayAt xs i = .error ⟨.arrayIndexOutOfBounds, none⟩ := by
  rw [arrayAt, h]

/-! ### Splitting -/

/-- Cut at every separator; with `run` set, a maximal run of separators is one cut. -/
def pieces (sep : Char → Bool) (run : Bool) : Bool → List Char → List (List Char)
  | _, [] => [[]]
  | inSep, c :: cs =>
    if sep c then
      if run && inSep then pieces sep run true cs else [] :: pieces sep run true cs
    else
      match pieces sep run false cs with
      | [] => [[c]]
      | w :: ws => (c :: w) :: ws

/-- `s.split(regex)`: the pieces without the trailing empty ones; `s` itself when nothing separates it. -/
def split (sep : Char → Bool) (run : Bool) (s : String) : List String :=
  if s.toList.any sep then
    ((pieces sep run false s.toList).rdropWhile (·.isEmpty)).map String.ofList
  else [s]

/-- The class `\s` of `java.util.regex`. -/
def isRegexSpace (c : Char) : Bool := c ∈ [' ', '\t', '\n', '\x0b', '\x0c', '\r']

/-- `s.split(":")` and the like. -/
def splitChar (c : Char) (s : String) : List String := split (· == c) false s

/-- `s.split("\\s+")`. -/
def splitSpaces (s : String) : List String := split isRegexSpace true s

/-- A word without separators is the first piece, up to the separator that follows it. -/
theorem pieces_word {sep : Char → Bool} {w : List Char} (hw : ∀ c ∈ w, sep c = false) {c : Char} (hc : sep c = true)
    (inSep : Bool) (rest : List Char) :
    pieces sep false inSep (w ++ c :: rest) = w :: pieces sep false true rest := by
  induction w generalizing inSep with
  | nil => simp [pieces, hc]
  | cons d w ih =>
    have hd : sep d = false := hw d List.mem_cons_self
    have htail := ih (fun c hc => hw c (List.mem_cons_of_mem _ hc)) false
    rw [List.cons_append, pieces, hd, htail]
    rfl

theorem pieces_single {sep : Char → Bool} {w : List Char} (hw : ∀ c ∈ w, sep c = false) (run inSep : Bool) :
    pieces sep run inSep w = [w] := by
  induction w generalizing inSep with
  | nil => rfl
  | cons d w ih =>
    have hd : sep d = false := hw d List.mem_cons_self
    have htail := ih (fun c hc => hw c (List.mem_cons_of_mem _ hc)) false
    rw [pieces, hd, htail]
    rfl

/-- Every piece is cut from the string. -/
theorem mem_of_mem_pieces {sep : Char → Bool} {run inSep : Bool} {cs w : List Char} (hw : w ∈ pieces sep run inSep cs) :
    ∀ c ∈ w, c ∈ cs := by
  induction cs generalizing inSep w with
  | nil =>
    obtain rfl := List.mem_singleton.mp hw
    exact fun _ => id
  | cons d cs ih =>
    intro c hc
    rw [pieces] at hw
    split at hw
    · have htail : w = [] ∨ w ∈ pieces sep run true cs := by
        split at hw
        · exact .inr hw
        · exact List.mem_cons.mp hw
      rcases htail with rfl | htail
      · cases hc
      · exact List.mem_cons_of_mem d (ih htail c hc)
    · split at hw
      · obtain rfl := List.mem_singleton.mp hw
        exact List.mem_singleton.mp hc ▸ List.mem_cons_self
      · rename_i w' ws hpieces
        have hin : ∀ v ∈ w' :: ws, ∀ c ∈ v, c ∈ cs := fun v hv => ih (hpieces ▸ hv)
        rcases List.mem_cons.mp hw with rfl | hw
        · rcases List.mem_cons.mp hc with rfl | hc
          · exact List.mem_cons_self
          · exact List.mem_cons_of_mem d (hin w' List.mem_cons_self c hc)
        · exact List.mem_cons_of_mem d (hin w (List.mem_cons_of_mem w' hw) c hc)

theorem mem_of_mem_split {sep : Char → Bool} {run : Bool} {s w : String} (hw : w ∈ split sep run s) :
    ∀ c ∈ w.toList, c ∈ s.toList := by
  unfold split at hw
  split at hw
  · obtain ⟨cs, hcs, rfl⟩ := List.mem_map.mp hw
    rw [String.toList_ofList]
    exact mem_of_mem_pieces ((List.rdropWhile_prefix _ _).mem hcs)
  · obtain rfl := List.mem_singleton.mp hw
    exact fun _ => id

/-- All pieces are empty if nothing stands between the separators. -/
theorem pieces_empty_iff {sep : Char → Bool} {run inSep : Bool} {cs : List Char} :
    (∀ w ∈ pieces sep run inSep cs, w = []) ↔ ∀ c ∈ cs, sep c = true := by
  induction cs generalizing inSep with
  | nil => exact iff_of_true (fun w hw => List.mem_singleton.mp hw) nofun
  | cons d cs ih =>
    rw [pieces, List.forall_mem_cons]
    cases hd : sep d with
    | true =>
      simp only [if_true, true_and]
      split
      · exact ih
      · rw [List.forall_mem_cons, eq_self_iff_true, true_and]
        exact ih
    | false =>
      simp only [Bool.false_eq_true, if_false, false_and, iff_false]
      split <;> exact fun h => absurd (h _ List.mem_cons_self) (List.cons_ne_nil d _)

/-- A split leaves nothing of a string of separators, and something of every other one. -/
theorem split_eq_nil_iff {sep : Char → Bool} {run : Bool} {s : String} :
    split sep run s = [] ↔ s ≠ "" ∧ ∀ c ∈ s.toList, sep c = true := by
  unfold split
  split
  · rename_i hany
    rw [List.map_eq_nil_iff, List.rdropWhile_eq_nil_iff]
    simp only [List.isEmpty_iff, pieces_empty_iff]
    refine (and_iff_right ?_).symm
    rintro rfl
    cases hany
  · rename_i hany
    refine iff_of_false (List.cons_ne_nil s []) ?_
    rintro ⟨hne, hall⟩
    obtain ⟨c, hc⟩ := List.exists_mem_of_ne_nil s.toList (fun h => hne (String.toList_eq_nil_iff.mp h))
    exact hany (List.any_eq_true.mpr ⟨c, hc, hall c hc⟩)

theorem filter_rdropWhile {α : Type*} {p q : α → Bool} (h : ∀ a, q a = true → p a = false) (l : List α) :
    (l.rdropWhile q).filter p = l.filter p := by
  induction l using List.reverseRecOn with
  | nil => rfl
  | append_singleton l a ih =>
    rw [List.rdropWhile_concat]
    split_ifs with ha
    · rw [ih, List.filter_append, List.filter_singleton, h a ha]
      simp
    · rfl

/-- The trailing empty pieces that `split` drops do not matter to who does not look for them. -/
theorem filter_split {p : String → Bool} (hp : p "" = false) (sep : Char → Bool) (run : Bool) (s : String) :
    (split sep run s).filter p = ((pieces sep run false s.toList).map String.ofList).filter p := by
  unfold split
  split_ifs with hany
  · rw [List.filter_map, List.filter_map, filter_rdropWhile]
    intro w hw
    rw [List.isEmpty_iff.mp hw]
    exact hp
  · have hnone : ∀ c ∈ s.toList, sep c = false := by simpa using hany
    rw [pieces_single hnone]
    simp

/-! ### Numbers and formatting -/

/-- A Java `int` holds the residue of an integer modulo 2^32. -/
def wrapInt (n : ℤ) : ℤ := n.bmod (2 ^ 32)

/-- The zeros of the scripts that have decimal digits, in Unicode 6.0, which is the one of Java 7.  The other nine digits
of a script follow its zero.  Those beyond U+FFFF are left out: there a character is two `char`s, and neither is a digit. -/
def scriptZeros : List ℕ :=
  [0x0030, 0x0660, 0x06F0, 0x07C0, 0x0966, 0x09E6, 0x0A66, 0x0AE6, 0x0B66, 0x0BE6, 0x0C66, 0x0CE6, 0x0D66, 0x0E50,
    0x0ED0, 0x0F20, 0x1040, 0x1090, 0x17E0, 0x1810, 0x1946, 0x19D0, 0x1A80, 0x1A90, 0x1B50, 0x1BB0, 0x1C40, 0x1C50,
    0xA620, 0xA8D0, 0xA900, 0xA9D0, 0xAA50, 0xABF0, 0xFF10]

/-- `Character.digit(c, 10)`; `none` is -1. -/
def characterDigit (c : Char) : Option ℕ :=
  (scriptZeros.find? fun z => z ≤ c.toNat && c.toNat < z + 10).map fun z => c.toNat - z

/-- A sign, if there is one, and the rest. -/
def signOf : List Char → Bool × List Char
  | '-' :: ds => (true, ds)
  | '+' :: ds => (false, ds)
  | ds => (false, ds)

/-- The number that is written there: digits of any script, after the sign. -/
def signedValue (cs : List Char) : Option ℤ :=
  match (signOf cs).2.mapM characterDigit with
  | none => none
  | some [] => none
  | some (d :: ds) =>
    let magnitude : ℤ := ((d :: ds).foldl (fun n d => 10 * n + d) 0 : ℕ)
    some (if (signOf cs).1 then -magnitude else magnitude)

/-- What both parsers read, as a number of so many bits. -/
def parseSigned (bits : ℕ) (s : String) : Option ℤ :=
  (signedValue s.toList).filter fun value => -2 ^ (bits - 1) ≤ value ∧ value < 2 ^ (bits - 1)

/-- `Integer.parseInt(s)` -/
def parseInt (s : String) : Except Throwable ℤ :=
  match parseSigned 32 s with
  | some n => .ok n
  | none => .error ⟨.numberFormat, none⟩

/-- `Long.parseLong(s)`; the message is the one of the library. -/
def parseLong (s : String) : Except Throwable ℤ :=
  match parseSigned 64 s with
  | some n => .ok n
  | none => .error ⟨.numberFormat, some ("For input string: \"" ++ s ++ "\"")⟩

theorem characterDigit_of_isDigit {c : Char} (h : c.isDigit = true) : characterDigit c = some (c.toNat - '0'.toNat) := by
  obtain ⟨hlow, hhigh⟩ := Char.isDigit_iff_toNat.mp h
  have hfind : scriptZeros.find? (fun z => z ≤ c.toNat && c.toNat < z + 10) = some 0x0030 :=
    List.find?_cons_of_pos (by simpa using ⟨hlow, Nat.lt_succ_of_le hhigh⟩)
  rw [characterDigit, hfind]
  rfl

theorem mapM_characterDigit {cs : List Char} (h : cs.all Char.isDigit = true) :
    cs.mapM characterDigit = some (cs.map fun c => c.toNat - '0'.toNat) := by
  induction cs with
  | nil => rfl
  | cons c cs ih =>
    rw [List.all_cons, Bool.and_eq_true] at h
    rw [List.mapM_cons, characterDigit_of_isDigit h.1, ih h.2]
    rfl

/-- The digits of a number are digits, and so no sign. -/
theorem toDigits_cases (n : ℕ) : ∃ d ds, Nat.toDigits 10 n = d :: ds ∧ (d :: ds).all Char.isDigit = true ∧
    signOf (d :: ds) = (false, d :: ds) := by
  have hall : ∀ c ∈ Nat.toDigits 10 n, c.isDigit = true := fun c hc =>
    Nat.isDigit_of_mem_toDigits (by decide) (by decide) hc
  cases hdigits : Nat.toDigits 10 n with
  | nil => exact absurd hdigits Nat.toDigits_ne_nil
  | cons d ds =>
    rw [hdigits] at hall
    have hd : d.isDigit = true := hall d List.mem_cons_self
    refine ⟨d, ds, rfl, List.all_eq_true.mpr hall, ?_⟩
    unfold signOf
    split
    · rename_i heq
      cases heq
      cases hd
    · rename_i heq
      cases heq
      cases hd
    · rfl

/-- The digits of a number have its value. -/
theorem foldl_toDigits (n : ℕ) :
    ((Nat.toDigits 10 n).map fun c => c.toNat - '0'.toNat).foldl (fun n d => 10 * n + d) 0 = n := by
  rw [List.foldl_map]
  exact Nat.ofDigitChars_ten_toDigits

/-- **What is written down is read back.** -/
theorem signedValue_toString (n : ℤ) : signedValue (toString n).toList = some n := by
  rw [Int.toString_eq_repr, Int.repr_eq_if]
  split
  · rename_i hsign
    obtain ⟨d, ds, hdigits, hall, hplain⟩ := toDigits_cases n.toNat
    have hs : signOf n.toNat.repr.toList = (false, d :: ds) := by rw [Nat.toList_repr, hdigits, hplain]
    have hvalue := foldl_toDigits n.toNat
    rw [hdigits, List.map_cons] at hvalue
    simp only [signedValue, hs, mapM_characterDigit hall, List.map_cons, hvalue]
    exact congrArg some (Int.toNat_of_nonneg hsign)
  · obtain ⟨d, ds, hdigits, hall, -⟩ := toDigits_cases (-n).toNat
    have hs : signOf ("-" ++ (-n).toNat.repr).toList = (true, d :: ds) := by
      rw [String.toList_append, Nat.toList_repr, hdigits]
      rfl
    have hvalue := foldl_toDigits (-n).toNat
    rw [hdigits, List.map_cons] at hvalue
    simp only [signedValue, hs, mapM_characterDigit hall, List.map_cons, hvalue]
    show some (-((-n).toNat : ℤ)) = some n
    rw [Int.toNat_of_nonneg (by omega), neg_neg]

theorem isDigit_of_mem_toString {n : ℤ} {c : Char} (h : c ∈ (toString n).toList) : c = '-' ∨ c.isDigit = true := by
  rw [Int.toString_eq_repr, Int.repr_eq_if] at h
  have hdigit : ∀ m : ℕ, c ∈ m.repr.toList → c.isDigit = true := fun m hm =>
    Nat.isDigit_of_mem_toDigits (by decide) (by decide) (Nat.toList_repr ▸ hm)
  split at h
  · exact .inr (hdigit _ h)
  · rw [String.toList_append, List.mem_append] at h
    rcases h with h | h
    · exact .inl (List.mem_singleton.mp h)
    · exact .inr (hdigit _ h)

theorem toString_int_inj {m n : ℤ} (h : toString m = toString n) : m = n := by
  have hm := signedValue_toString m
  rw [h, signedValue_toString] at hm
  exact (Option.some.inj hm).symm

/-- A `long` that is written down is read back. -/
theorem parseLong_toString {n : ℤ} (hlow : -2 ^ 63 ≤ n) (hhigh : n < 2 ^ 63) : parseLong (toString n) = .ok n := by
  have hparse : parseSigned 64 (toString n) = some n := by
    rw [parseSigned, signedValue_toString]
    exact Option.filter_some_pos (by simpa using ⟨hlow, hhigh⟩)
  rw [parseLong, hparse]

/-- The directive `%ns` of `String.format`: padded on the left. -/
def rightJustify (n : ℕ) (s : String) : String := String.ofList (List.replicate (n - s.length) ' ') ++ s

/-- The directive `%-ns` of `String.format`: padded on the right to `n` characters, legal for `n ≥ 1`. -/
def leftJustify (n : ℤ) (s : String) : Except Throwable String :=
  if 1 ≤ n then .ok (s ++ String.ofList (List.replicate (n.toNat - s.length) ' ')) else .error ⟨.illegalFormat, none⟩

example : parseInt "-80" = .ok (-80) ∧ parseInt "+7" = .ok 7 ∧ parseInt "\uFF18\uFF10" = .ok 80 ∧
    parseInt "2147483648" = .error ⟨.numberFormat, none⟩ := by
  decide

example : splitSpaces " osgi:list  -l " = ["", "osgi:list", "-l"] := by decide

example : splitChar ':' "a::" = ["a"] ∧ splitChar ':' ":" = [] ∧ splitChar ':' "" = [""] := by decide

end Dynamy.Java
