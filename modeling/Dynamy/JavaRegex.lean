import Dynamy.Java
import Dynamy.Lib.Regex

/-!
# Dynamy.JavaRegex — what the modules use of `java.util.regex`

A pattern is a `Regex Char`; the patterns of the program have no named groups.  `unapplySeq` is the match of Scala's
`Regex` against a whole string, and `replaceAll` the one of `java.lang.String`, whose replacement is itself read
character by character: a backslash takes the next one as it is, a dollar calls for a group.
-/

namespace Dynamy.Java

open Dynamy.Lib

/-- What `.` does not match. -/
def isLineTerminator (c : Char) : Bool := c ∈ ['\n', '\r', '\u0085', '\u2028', '\u2029']

/-- `.` -/
def anyChar (c : Char) : Bool := !isLineTerminator c

/-- The characters of `s`, one after the other. -/
def literal (s : String) : Regex Char := .word (s.toList.map fun c d => d == c)

theorem forall₂_literal {s : String} {w : List Char} :
    List.Forall₂ (fun (p : Char → Bool) c => p c = true) (s.toList.map fun c d => d == c) w ↔ w = s.toList := by
  rw [List.forall₂_map_left_iff]
  generalize s.toList = cs
  constructor
  · intro h
    induction h with
    | nil => rfl
    | cons hc _ ih => rw [ih, beq_iff_eq.mp hc]
  · rintro rfl
    exact List.forall₂_same.mpr fun c _ => beq_self_eq_true c

/-- The texts of the groups 1 to `groupCount`, if the whole string is matched; a group without a text is `null`. -/
def unapplySeq (pattern : Regex Char) (groupCount : ℕ) (s : String) : Option (List (Option String)) :=
  (pattern.fullMatch s.toList).map fun cs =>
    (List.range groupCount).map fun i => (cs.text (i + 1)).map String.ofList

/-! ### `replaceAll` -/

/-- The digits after the first one of a group reference: as many as give a group that there is. -/
def groupNumber (groupCount : ℕ) : ℕ → List Char → ℕ × List Char
  | refNum, [] => (refNum, [])
  | refNum, c :: cs =>
    if c.isDigit then
      let newRefNum := 10 * refNum + (c.toNat - '0'.toNat)
      if groupCount < newRefNum then (refNum, c :: cs) else groupNumber groupCount newRefNum cs
    else (refNum, c :: cs)

theorem groupNumber_length (groupCount refNum : ℕ) (cs : List Char) :
    (groupNumber groupCount refNum cs).2.length ≤ cs.length := by
  induction cs generalizing refNum with
  | nil => exact le_rfl
  | cons c cs ih =>
    rw [groupNumber]
    split
    · dsimp only
      split
      · exact le_rfl
      · exact (ih _).trans (Nat.le_succ _)
    · exact le_rfl

/-- `Matcher.appendReplacement` on a replacement, for a match with these groups, of which 0 is the whole match. -/
def appendReplacement (groupCount : ℕ) (group : ℕ → Option (List Char)) :
    List Char → Except Throwable (List Char)
  | [] => .ok []
  | c :: cs =>
    if c = '\\' then
      match cs with
      | [] => .error ⟨.stringIndexOutOfBounds, none⟩
      | c :: cs => (c :: ·) <$> appendReplacement groupCount group cs
    else if c = '$' then
      match cs with
      | [] => .error ⟨.stringIndexOutOfBounds, none⟩
      | d :: cs =>
        -- `${name}`: there are no named groups
        if d = '{' then .error ⟨.illegalArgument, none⟩
        else if d.isDigit then
          let number := groupNumber groupCount (d.toNat - '0'.toNat) cs
          have hshorter : number.2.length < (c :: d :: cs).length :=
            Nat.lt_succ_of_le ((groupNumber_length _ _ cs).trans (Nat.le_succ _))
          if number.1 ≤ groupCount then
            ((group number.1).getD [] ++ ·) <$> appendReplacement groupCount group number.2
          else .error ⟨.indexOutOfBounds, some ("No group " ++ toString number.1)⟩
        else .error ⟨.illegalArgument, some "Illegal group reference"⟩
    else (c :: ·) <$> appendReplacement groupCount group cs
termination_by cs => cs.length
decreasing_by
  · exact Nat.lt_succ_of_lt (Nat.lt_succ_self _)
  · exact hshorter
  · exact Nat.lt_succ_self _

section Read

variable (groupCount : ℕ) (group : ℕ → Option (List Char))

theorem appendReplacement_nil : appendReplacement groupCount group [] = .ok [] := by
  rw [appendReplacement.eq_def]

theorem appendReplacement_backslash (c : Char) (cs : List Char) :
    appendReplacement groupCount group ('\\' :: c :: cs) = (c :: ·) <$> appendReplacement groupCount group cs := by
  rw [appendReplacement.eq_def]
  rfl

theorem appendReplacement_backslash_nil :
    appendReplacement groupCount group ['\\'] = .error ⟨.stringIndexOutOfBounds, none⟩ := by
  rw [appendReplacement.eq_def]
  rfl

theorem appendReplacement_dollar_nil :
    appendReplacement groupCount group ['$'] = .error ⟨.stringIndexOutOfBounds, none⟩ := by
  rw [appendReplacement.eq_def]
  rfl

theorem appendReplacement_dollar (d : Char) (cs : List Char) :
    appendReplacement groupCount group ('$' :: d :: cs) =
      if d = '{' then .error ⟨.illegalArgument, none⟩
      else if d.isDigit then
        if (groupNumber groupCount (d.toNat - '0'.toNat) cs).1 ≤ groupCount then
          ((group (groupNumber groupCount (d.toNat - '0'.toNat) cs).1).getD [] ++ ·) <$>
            appendReplacement groupCount group (groupNumber groupCount (d.toNat - '0'.toNat) cs).2
        else .error ⟨.indexOutOfBounds,
          some ("No group " ++ toString (groupNumber groupCount (d.toNat - '0'.toNat) cs).1)⟩
      else .error ⟨.illegalArgument, some "Illegal group reference"⟩ := by
  rw [appendReplacement.eq_def]
  rfl

theorem appendReplacement_plain {c : Char} (hescape : c ≠ '\\') (hdollar : c ≠ '$') (cs : List Char) :
    appendReplacement groupCount group (c :: cs) = (c :: ·) <$> appendReplacement groupCount group cs := by
  rw [appendReplacement.eq_def]
  dsimp only
  rw [if_neg hescape, if_neg hdollar]

end Read

/-- What a piece of the text is replaced by. -/
def replacePiece (groupCount : ℕ) (replacement : List Char) : Piece Char → Except Throwable (List Char)
  | .plain c => .ok [c]
  | .matched w cs => appendReplacement groupCount (fun n => if n = 0 then some w else cs.text n) replacement

/-- `s.replaceAll(pattern, replacement)` -/
def replaceAll (pattern : Regex Char) (groupCount : ℕ) (s replacement : String) : Except Throwable String := do
  let parts ← (pattern.pieces s.toList).mapM (replacePiece groupCount replacement.toList)
  return String.ofList parts.flatten

/-! ### Replacements for a pattern without groups -/

/-- What a replacement is made of where 0 is the only group; more zeros may follow the first. -/
inductive ReplacementToken
  | plain (c : Char)
  | escaped (c : Char)
  | whole (zeros : ℕ)

namespace ReplacementToken

def text : ReplacementToken → List Char
  | plain c => [c]
  | escaped c => ['\\', c]
  | whole zeros => '$' :: '0' :: List.replicate zeros '0'

/-- What stands for it in the place of the match `w`. -/
def value (w : List Char) : ReplacementToken → List Char
  | plain c => [c]
  | escaped c => [c]
  | whole _ => w

def Legal : ReplacementToken → Prop
  | plain c => c ≠ '\\' ∧ c ≠ '$'
  | _ => True

def texts (ts : List ReplacementToken) : List Char := ts.flatMap text

def values (w : List Char) (ts : List ReplacementToken) : List Char := ts.flatMap (value w)

theorem text_length_pos (t : ReplacementToken) : 0 < t.text.length := by
  cases t <;> exact Nat.succ_pos _

@[simp] theorem texts_cons (t : ReplacementToken) (ts : List ReplacementToken) :
    texts (t :: ts) = t.text ++ texts ts := rfl

@[simp] theorem values_nil (w : List Char) : values w [] = [] := rfl

@[simp] theorem values_cons (w : List Char) (t : ReplacementToken) (ts : List ReplacementToken) :
    values w (t :: ts) = t.value w ++ values w ts := rfl

theorem texts_append (ts us : List ReplacementToken) : texts (ts ++ us) = texts ts ++ texts us := List.flatMap_append

theorem values_append (w : List Char) (ts us : List ReplacementToken) :
    values w (ts ++ us) = values w ts ++ values w us := List.flatMap_append

end ReplacementToken

theorem eq_zero_of_isDigit {c : Char} (hdigit : c.isDigit = true) (h : c.toNat - '0'.toNat = 0) : c = '0' := by
  rw [← Char.toNat_inj]
  have hlow := (Char.isDigit_iff_toNat.mp hdigit).1
  omega

theorem groupNumber_zero {refNum : ℕ} {cs : List Char} (h : (groupNumber 0 refNum cs).1 ≤ 0) :
    refNum = 0 ∧ ∃ zeros, cs = List.replicate zeros '0' ++ (groupNumber 0 refNum cs).2 := by
  induction cs generalizing refNum with
  | nil => exact ⟨Nat.le_zero.mp h, 0, rfl⟩
  | cons c cs ih =>
    rw [groupNumber] at h ⊢
    by_cases hdigit : c.isDigit = true
    · rw [if_pos hdigit] at h ⊢
      by_cases hnew : 0 < 10 * refNum + (c.toNat - '0'.toNat)
      · rw [if_pos hnew] at h ⊢
        exact ⟨Nat.le_zero.mp h, 0, rfl⟩
      · rw [if_neg hnew] at h ⊢
        obtain ⟨-, zeros, hzeros⟩ := ih h
        have hc : c = '0' := eq_zero_of_isDigit hdigit (by omega)
        refine ⟨by omega, zeros + 1, ?_⟩
        rw [List.replicate_succ, List.cons_append, ← hzeros, hc]
    · rw [if_neg hdigit] at h ⊢
      exact ⟨Nat.le_zero.mp h, 0, rfl⟩

/-- The only number that may come after a dollar is 0. -/
theorem zero_of_dollar {group : ℕ → Option (List Char)} {s out : List Char}
    (h : appendReplacement 0 group ('$' :: s) = .ok out) :
    ∃ zeros rest out', '$' :: s = ReplacementToken.text (.whole zeros) ++ rest ∧
      appendReplacement 0 group rest = .ok out' ∧
      ∀ group', appendReplacement 0 group' ('$' :: s) = ((group' 0).getD [] ++ ·) <$> appendReplacement 0 group' rest := by
  cases s with
  | nil =>
    rw [appendReplacement_dollar_nil] at h
    cases h
  | cons d s =>
    rw [appendReplacement_dollar] at h
    by_cases hname : d = '{'
    · rw [if_pos hname] at h
      cases h
    by_cases hdigit : d.isDigit = true
    swap
    · rw [if_neg hname, if_neg hdigit] at h
      cases h
    by_cases hnumber : (groupNumber 0 (d.toNat - '0'.toNat) s).1 ≤ 0
    swap
    · rw [if_neg hname, if_pos hdigit, if_neg hnumber] at h
      cases h
    rw [if_neg hname, if_pos hdigit, if_pos hnumber] at h
    obtain ⟨hzero, zeros, hzeros⟩ := groupNumber_zero hnumber
    obtain ⟨out', hout, -⟩ := of_bind_eq_ok h
    obtain rfl : d = '0' := eq_zero_of_isDigit hdigit hzero
    refine ⟨zeros, _, out', ?_, hout, fun group' => ?_⟩
    · rw [ReplacementToken.text, List.cons_append, List.cons_append, ← hzeros]
    · rw [appendReplacement_dollar, if_neg hname, if_pos hdigit, if_pos hnumber, Nat.le_zero.mp hnumber]

/-- A replacement that is read without an exception begins with such a token, whatever the match is. -/
theorem exists_token {group : ℕ → Option (List Char)} {c : Char} {s out : List Char}
    (h : appendReplacement 0 group (c :: s) = .ok out) :
    ∃ (t : ReplacementToken) (rest out' : List Char), t.Legal ∧ c :: s = t.text ++ rest ∧
      appendReplacement 0 group rest = .ok out' ∧
      ∀ group', appendReplacement 0 group' (c :: s) =
        (t.value ((group' 0).getD []) ++ ·) <$> appendReplacement 0 group' rest := by
  by_cases hescape : c = '\\'
  · subst hescape
    cases s with
    | nil =>
      rw [appendReplacement_backslash_nil] at h
      cases h
    | cons d s =>
      rw [appendReplacement_backslash] at h
      obtain ⟨out', hout, -⟩ := of_bind_eq_ok h
      exact ⟨.escaped d, s, out', trivial, rfl, hout, fun group' => appendReplacement_backslash ..⟩
  · by_cases hdollar : c = '$'
    · subst hdollar
      obtain ⟨zeros, rest, out', hsplit, hout, hread⟩ := zero_of_dollar h
      exact ⟨.whole zeros, rest, out', trivial, hsplit, hout, hread⟩
    · rw [appendReplacement_plain _ _ hescape hdollar] at h
      obtain ⟨out', hout, -⟩ := of_bind_eq_ok h
      exact ⟨.plain c, s, out', ⟨hescape, hdollar⟩, rfl, hout,
        fun group' => appendReplacement_plain _ _ hescape hdollar s⟩

/-- It is made of them. -/
theorem exists_tokens {group : ℕ → Option (List Char)} {s out : List Char}
    (h : appendReplacement 0 group s = .ok out) :
    ∃ ts : List ReplacementToken, (∀ t ∈ ts, t.Legal) ∧ s = ReplacementToken.texts ts ∧
      ∀ group', appendReplacement 0 group' s = .ok (ReplacementToken.values ((group' 0).getD []) ts) := by
  induction hlen : s.length using Nat.strongRecOn generalizing s out with
  | _ n ih =>
    cases s with
    | nil =>
      refine ⟨[], fun t ht => absurd ht List.not_mem_nil, rfl, fun group' => ?_⟩
      rw [appendReplacement_nil]
      rfl
    | cons c s =>
      obtain ⟨t, rest, out', ht, hsplit, hout, hread⟩ := exists_token h
      have hlength := congrArg List.length hsplit
      have hpos := t.text_length_pos
      rw [List.length_append, hlen] at hlength
      obtain ⟨ts, hts, htext, hvalue⟩ := ih rest.length (by omega) hout rfl
      refine ⟨t :: ts, List.forall_mem_cons.mpr ⟨ht, hts⟩, ?_, fun group' => ?_⟩
      · rw [hsplit, ReplacementToken.texts_cons, ← htext]
      · rw [hread, hvalue]
        rfl

/-- Without backslashes and dollars a replacement stands for itself. -/
theorem appendReplacement_of_plain {group : ℕ → Option (List Char)} {s : List Char} (hescape : '\\' ∉ s)
    (hdollar : '$' ∉ s) : appendReplacement 0 group s = .ok s := by
  induction s with
  | nil => exact appendReplacement_nil 0 group
  | cons c s ih =>
    rw [List.mem_cons, not_or] at hescape hdollar
    rw [appendReplacement_plain _ _ (Ne.symm hescape.1) (Ne.symm hdollar.1), ih hescape.2 hdollar.2]
    rfl

end Dynamy.Java
