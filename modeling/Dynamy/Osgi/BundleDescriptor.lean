import Dynamy.JavaRegex

/-!
# Dynamy.Osgi.BundleDescriptor — how a bundle is named

A bundle is named by a url, optionally with `start` and a run level after it: in `initial.list` with `!` between them
(`DynamyServer.Bundle`), on the command line of `osgi:install` with `>` (`OsgiInstallCommand.Bundle`).  A descriptor
that is written down is read back as it was (`roundTrip`), although both separators and all that comes after the url may
be left out.
-/

namespace Dynamy.Osgi

open Dynamy.Java Dynamy.Lib

/-- What the groups of a pattern for descriptors say; `null` is `none`. -/
structure Descriptor where
  url : String
  start : Option String
  runlevel : Option String
  deriving DecidableEq, Repr

def nonzeroDigit (c : Char) : Bool := '1' ≤ c && c ≤ '9'

/-- `sep?([1-9][0-9]*)?` -/
def levelRegex (sep : Char) : Regex Char :=
  .seq (.opt (.char (· == sep))) (.opt (.group 3 (.seq (.char nonzeroDigit) (.star (.char Char.isDigit)))))

/-- `(start)?sep?([1-9][0-9]*)?` -/
def optionsRegex (sep : Char) : Regex Char := .seq (.opt (.group 2 (literal "start"))) (levelRegex sep)

/-- `([^sep]+)sep?(start)?sep?([1-9][0-9]*)?` -/
def descriptorRegex (sep : Char) : Regex Char :=
  .seq (.group 1 (.plus (.char (· != sep)))) (.seq (.opt (.char (· == sep))) (optionsRegex sep))

/-- The case `Bundle(url, start, runlevel)`; the url takes part in every match. -/
def unapplyBundle (pattern : Regex Char) (s : String) : Option Descriptor :=
  match unapplySeq pattern 3 s with
  | some [url, start, runlevel] => some ⟨url.getD "", start, runlevel⟩
  | _ => none

/-- `#(.*)` -/
def DynamyServer.Comment : Regex Char := .seq (literal "#") (.group 1 (.star (.char anyChar)))

/-- `([^!]+)!?(start)?!?([1-9][0-9]*)?` -/
def DynamyServer.Bundle : Regex Char := descriptorRegex '!'

/-- `([^>]+)>?(start)?>?([1-9][0-9]*)?` -/
def OsgiInstallCommand.Bundle : Regex Char := descriptorRegex '>'

/-- A descriptor as it is written with `sep`. -/
def descriptorLine (sep : Char) (url : String) (start : Bool) (level : Option ℕ) : String :=
  url ++ (if start then String.singleton sep ++ "start" else "") ++
    match level with
    | some n => String.singleton sep ++ toString n
    | none => ""

/-- What a pattern should read in it. -/
def descriptor (url : String) (start : Bool) (level : Option ℕ) : Descriptor :=
  ⟨url, if start then some "start" else none, level.map fun n => toString n⟩

example : descriptorLine '!' "mvn:a/b/1.0" true (some 12) = "mvn:a/b/1.0!start!12" := by decide

/-! ### Decimal texts -/

/-- The decimal text of a positive number begins with a digit that is not zero. -/
theorem toString_digits (n : ℕ) (hn : 1 ≤ n) :
    ∃ d ds, (toString n).toList = d :: ds ∧ nonzeroDigit d = true ∧ ∀ c ∈ ds, c.isDigit = true := by
  induction n using Nat.strongRecOn with
  | _ n ih =>
    by_cases hlt : n < 10
    · have hrepr : (toString n).toList = [n.digitChar] := by
        rw [Nat.toString_eq_repr, Nat.toList_repr, Nat.toDigits_of_lt_base hlt]
      have hdigits : ∀ m < 10, 1 ≤ m → nonzeroDigit m.digitChar = true := by decide
      exact ⟨n.digitChar, [], hrepr, hdigits n hlt hn, fun c hc => absurd hc List.not_mem_nil⟩
    · obtain ⟨d, ds, hds, hd, hrest⟩ := ih (n / 10) (by omega) (by omega)
      rw [Nat.toString_eq_repr] at hds
      refine ⟨d, ds ++ (n % 10).repr.toList, ?_, hd, fun c hc => ?_⟩
      · rw [Nat.toString_eq_repr, Nat.repr_eq_repr_append_repr (by omega), String.toList_append, hds]
        rfl
      · rcases List.mem_append.mp hc with hc | hc
        · exact hrest c hc
        · rw [Nat.toList_repr] at hc
          exact Nat.isDigit_of_mem_toDigits (by omega) (by omega) hc

/-! ### Reading a descriptor -/

variable {sep : Char}

theorem results_start_of_ne {c : Char} (hc : c ≠ 's') (s : List Char) :
    Regex.results (.group 2 (literal "start")) (c :: s) = [] := by
  have hfirst : (c == 's') = false := beq_eq_false_iff_ne.mpr hc
  simp [literal, Regex.word, Regex.results, hfirst]

theorem head_start (s : List Char) :
    (Regex.results (.group 2 (literal "start")) ("start".toList ++ s)).head? = some ([(2, "start".toList)], s) := by
  have hword : (Regex.results (literal "start") ("start".toList ++ s)).head? = some ([], s) := by
    simp [literal, Regex.word, Regex.results]
  rw [Regex.head_group hword, List.length_append, Nat.add_sub_cancel, List.take_left]
  rfl

theorem head_separator (sep : Char) (s : List Char) :
    (Regex.results (.opt (.char (· == sep))) (sep :: s)).head? = some ([], s) := by
  refine Regex.head_opt ?_
  simp [Regex.results]

theorem head_separator_of_ne {c : Char} (hc : c ≠ sep) (s : List Char) :
    (Regex.results (.opt (.char (· == sep))) (c :: s)).head? = some ([], c :: s) := by
  refine Regex.head_opt_of_nil ?_
  have hne : (c == sep) = false := beq_eq_false_iff_ne.mpr hc
  simp [Regex.results, hne]

section Options

variable {d : Char} {ds : List Char}

/-- The level takes all of the digits, with or without a separator before them. -/
theorem fullMatch_digits (hd : nonzeroDigit d = true) (hds : ∀ c ∈ ds, c.isDigit = true) :
    Regex.fullMatch (.opt (.group 3 (.seq (.char nonzeroDigit) (.star (.char Char.isDigit))))) (d :: ds) =
      some [(3, d :: ds)] := by
  have hfirst : (Regex.results (.char nonzeroDigit) (d :: ds)).head? = some ([], ds) := by
    simp [Regex.results, hd]
  have hdigits := Regex.head_seq hfirst (Regex.head_star_char Char.isDigit ds)
  rw [List.dropWhile_eq_nil_iff.mpr hds] at hdigits
  have hgroup := Regex.head_group (n := 3) hdigits
  rw [List.length_nil, Nat.sub_zero, List.take_length] at hgroup
  exact Regex.fullMatch_of_head (Regex.head_opt hgroup)

theorem fullMatch_level_nil : Regex.fullMatch (levelRegex sep) [] = some [] := rfl

theorem fullMatch_level_separator (hd : nonzeroDigit d = true) (hds : ∀ c ∈ ds, c.isDigit = true) :
    Regex.fullMatch (levelRegex sep) (sep :: d :: ds) = some [(3, d :: ds)] :=
  Regex.fullMatch_seq (head_separator sep (d :: ds)) (fullMatch_digits hd hds)

theorem fullMatch_level (hsep : d ≠ sep) (hd : nonzeroDigit d = true) (hds : ∀ c ∈ ds, c.isDigit = true) :
    Regex.fullMatch (levelRegex sep) (d :: ds) = some [(3, d :: ds)] :=
  Regex.fullMatch_seq (head_separator_of_ne hsep ds) (fullMatch_digits hd hds)

theorem ne_s_of_nonzeroDigit (hd : nonzeroDigit d = true) : d ≠ 's' := by
  rintro rfl
  exact absurd hd (by decide)

theorem fullMatch_options_start {rest : List Char} {cs : Captures Char}
    (hrest : Regex.fullMatch (levelRegex sep) rest = some cs) :
    Regex.fullMatch (optionsRegex sep) ("start".toList ++ rest) = some ((2, "start".toList) :: cs) :=
  Regex.fullMatch_seq (Regex.head_opt (head_start rest)) hrest

theorem fullMatch_options_level (hsep : d ≠ sep) (hd : nonzeroDigit d = true) (hds : ∀ c ∈ ds, c.isDigit = true) :
    Regex.fullMatch (optionsRegex sep) (d :: ds) = some [(3, d :: ds)] :=
  Regex.fullMatch_seq (Regex.head_opt_of_nil (results_start_of_ne (ne_s_of_nonzeroDigit hd) ds))
    (fullMatch_level hsep hd hds)

end Options

/-- The url goes up to the first separator. -/
theorem fullMatch_descriptor {url tail : List Char} (hne : url ≠ []) (hurl : ∀ c ∈ url, c ≠ sep)
    (htail : ∀ c s, tail = c :: s → c = sep) {cs : Captures Char}
    (hcs : Regex.fullMatch (.seq (.opt (.char (· == sep))) (optionsRegex sep)) tail = some cs) :
    Regex.fullMatch (descriptorRegex sep) (url ++ tail) = some ((1, url) :: cs) := by
  obtain ⟨c, rest, rfl⟩ := List.exists_cons_of_ne_nil hne
  have hpass : ∀ c' ∈ rest, (c' != sep) = true := by
    intro c' hc'
    rw [bne_iff_ne]
    exact hurl c' (List.mem_cons_of_mem c hc')
  have hstop : List.dropWhile (· != sep) tail = tail := by
    cases tail with
    | nil => rfl
    | cons t ts => exact List.dropWhile_cons_of_neg (by rw [htail t ts rfl]; simp)
  have hdrop : (rest ++ tail).dropWhile (· != sep) = tail := by
    rw [List.dropWhile_append_of_pos hpass, hstop]
  have hplus := Regex.head_plus_char (p := (· != sep)) (bne_iff_ne.mpr (hurl c List.mem_cons_self)) (rest ++ tail)
  rw [hdrop] at hplus
  have hgroup := Regex.head_group (n := 1) hplus
  rw [← List.cons_append, List.length_append, Nat.add_sub_cancel, List.take_left] at hgroup
  exact Regex.fullMatch_seq hgroup hcs

/-- The case `Bundle(url, start, runlevel)` for the texts of the groups. -/
theorem unapplyBundle_of_fullMatch {pattern : Regex Char} {s : String} {cs : Captures Char}
    (h : pattern.fullMatch s.toList = some cs) : unapplyBundle pattern s =
      some ⟨((cs.text 1).map String.ofList).getD "", (cs.text 2).map String.ofList, (cs.text 3).map String.ofList⟩ := by
  rw [unapplyBundle, unapplySeq, h]
  rfl

/-- What comes after the url. -/
def descriptorTail (sep : Char) (start : Bool) (level : Option ℕ) : List Char :=
  (if start then sep :: "start".toList else []) ++
    match level with
    | some n => sep :: (toString n).toList
    | none => []

/-- The groups after the url. -/
def descriptorGroups (start : Bool) (level : Option ℕ) : Captures Char :=
  (if start then [(2, "start".toList)] else []) ++
    match level with
    | some n => [(3, (toString n).toList)]
    | none => []

theorem toList_descriptorLine (sep : Char) (url : String) (start : Bool) (level : Option ℕ) :
    (descriptorLine sep url start level).toList = url.toList ++ descriptorTail sep start level := by
  unfold descriptorLine descriptorTail
  cases start <;> cases level <;> simp

theorem fullMatch_tail (hsep : ∀ d, nonzeroDigit d = true → d ≠ sep) (start : Bool) (level : Option ℕ)
    (hlevel : ∀ n, level = some n → 1 ≤ n) :
    Regex.fullMatch (.seq (.opt (.char (· == sep))) (optionsRegex sep)) (descriptorTail sep start level) =
      some (descriptorGroups start level) := by
  cases level with
  | none =>
    cases start with
    | false => rfl
    | true =>
      have hstart : Regex.fullMatch (optionsRegex sep) ("start".toList ++ []) = some [(2, "start".toList)] :=
        fullMatch_options_start fullMatch_level_nil
      have hseq := Regex.fullMatch_seq (head_separator sep ("start".toList ++ [])) hstart
      exact hseq
  | some n =>
    obtain ⟨d, ds, htext, hd, hds⟩ := toString_digits n (hlevel n rfl)
    unfold descriptorTail descriptorGroups
    dsimp only
    rw [htext]
    cases start with
    | false => exact Regex.fullMatch_seq (head_separator sep _) (fullMatch_options_level (hsep d hd) hd hds)
    | true =>
      have hstart : Regex.fullMatch (optionsRegex sep) ("start".toList ++ sep :: d :: ds) =
          some [(2, "start".toList), (3, d :: ds)] := fullMatch_options_start (fullMatch_level_separator hd hds)
      have hseq := Regex.fullMatch_seq (head_separator sep ("start".toList ++ sep :: d :: ds)) hstart
      exact hseq

theorem text_groups (url : List Char) (start : Bool) (level : Option ℕ) :
    Captures.text ((1, url) :: descriptorGroups start level) 1 = some url ∧
      Captures.text ((1, url) :: descriptorGroups start level) 2 = (if start then some "start".toList else none) ∧
      Captures.text ((1, url) :: descriptorGroups start level) 3 = level.map fun n => (toString n).toList := by
  cases start <;> cases level <;> exact ⟨rfl, rfl, rfl⟩

/-- **Reading what was written**, with a separator that is no digit. -/
theorem unapplyBundle_line (hsep : ∀ d, nonzeroDigit d = true → d ≠ sep) {url : String} (hne : url ≠ "")
    (hurl : ∀ c ∈ url.toList, c ≠ sep) (start : Bool) (level : Option ℕ) (hlevel : ∀ n, level = some n → 1 ≤ n) :
    unapplyBundle (descriptorRegex sep) (descriptorLine sep url start level) = some (descriptor url start level) := by
  have hnil : url.toList ≠ [] := fun h => hne (String.toList_eq_nil_iff.mp h)
  have hseparated : ∀ c s, descriptorTail sep start level = c :: s → c = sep := by
    intro c s h
    unfold descriptorTail at h
    cases start <;> cases level <;> simp at h <;> exact h.1.symm
  have hmatch := fullMatch_descriptor hnil hurl hseparated (fullMatch_tail hsep start level hlevel)
  rw [← toList_descriptorLine] at hmatch
  obtain ⟨h₁, h₂, h₃⟩ := text_groups url.toList start level
  rw [unapplyBundle_of_fullMatch hmatch, h₁, h₂, h₃, descriptor]
  cases start <;> cases level <;> simp [Nat.repr_eq_ofList_toDigits]

/-! ### What is accepted -/

/-- `s` is a url, perhaps a separator, perhaps `start`, perhaps a separator and perhaps a level, as `d` says. -/
structure Spells (sep : Char) (s : String) (d : Descriptor) : Prop where
  parts : ∃ sep₁ ∈ ["", String.singleton sep], ∃ sep₂ ∈ ["", String.singleton sep],
    s = d.url ++ sep₁ ++ d.start.getD "" ++ sep₂ ++ d.runlevel.getD ""
  url : d.url ≠ "" ∧ ∀ c ∈ d.url.toList, c ≠ sep
  start : d.start = none ∨ d.start = some "start"
  level : ∀ text, d.runlevel = some text →
    ∃ c cs, text.toList = c :: cs ∧ nonzeroDigit c = true ∧ ∀ c' ∈ cs, c'.isDigit = true

/-- A separator that may be left out. -/
theorem matches_separator {w : List Char} {cs : Captures Char} (h : Regex.Matches (.opt (.char (· == sep))) w cs) :
    cs = [] ∧ String.ofList w ∈ ["", String.singleton sep] := by
  rcases Regex.matches_opt_iff.mp h with h | ⟨rfl, rfl⟩
  · obtain ⟨c, rfl, rfl, hc⟩ := Regex.matches_char_iff.mp h
    rw [beq_iff_eq.mp hc]
    exact ⟨rfl, List.mem_cons_of_mem _ List.mem_cons_self⟩
  · exact ⟨rfl, List.mem_cons_self⟩

/-- `start`, which may be left out. -/
theorem matches_start {w : List Char} {cs : Captures Char}
    (h : Regex.Matches (.opt (.group 2 (literal "start"))) w cs) :
    w = "start".toList ∧ cs = [(2, w)] ∨ w = [] ∧ cs = [] := by
  refine (Regex.matches_opt_iff.mp h).imp_left fun h => ?_
  obtain ⟨cs', rfl, hword⟩ := Regex.matches_group_iff.mp h
  obtain ⟨rfl, hchars⟩ := Regex.matches_word_iff.mp hword
  exact ⟨forall₂_literal.mp hchars, rfl⟩

/-- A level, which may be left out, too. -/
theorem matches_level {w : List Char} {cs : Captures Char}
    (h : Regex.Matches (.opt (.group 3 (.seq (.char nonzeroDigit) (.star (.char Char.isDigit))))) w cs) :
    (∃ c ds, w = c :: ds ∧ nonzeroDigit c = true ∧ ∀ c' ∈ ds, c'.isDigit = true) ∧ cs = [(3, w)] ∨
      w = [] ∧ cs = [] := by
  refine (Regex.matches_opt_iff.mp h).imp_left fun h => ?_
  obtain ⟨cs', rfl, hdigits⟩ := Regex.matches_group_iff.mp h
  obtain ⟨v, ds, cs₁, cs₂, rfl, rfl, hfirst, hmore⟩ := Regex.matches_seq_iff.mp hdigits
  obtain ⟨c, rfl, rfl, hc⟩ := Regex.matches_char_iff.mp hfirst
  obtain ⟨rfl, hds⟩ := Regex.matches_star_char_iff.mp hmore
  exact ⟨⟨c, ds, rfl, hc, hds⟩, rfl⟩

/-- **What is accepted is well formed.** -/
theorem spells_of_accepted {s : String} {d : Descriptor} (h : unapplyBundle (descriptorRegex sep) s = some d) :
    Spells sep s d := by
  cases hm : Regex.fullMatch (descriptorRegex sep) s.toList with
  | none =>
    rw [unapplyBundle, unapplySeq, hm] at h
    cases h
  | some cs =>
    rw [unapplyBundle_of_fullMatch hm, Option.some.injEq] at h
    obtain ⟨url, rest, cs₁, cs₂, hs, rfl, hurl, hrest⟩ := Regex.matches_seq_iff.mp (Regex.matches_of_fullMatch hm)
    obtain ⟨cs', rfl, hplus⟩ := Regex.matches_group_iff.mp hurl
    obtain ⟨rfl, hne, hall⟩ := Regex.matches_plus_char_iff.mp hplus
    obtain ⟨w₁, rest₁, cs₃, cs₄, rfl, rfl, hsep₁, hrest₁⟩ := Regex.matches_seq_iff.mp hrest
    obtain ⟨rfl, hw₁⟩ := matches_separator hsep₁
    obtain ⟨w₂, rest₂, cs₅, cs₆, rfl, rfl, hstart, hrest₂⟩ := Regex.matches_seq_iff.mp hrest₁
    obtain ⟨w₃, w₄, cs₇, cs₈, rfl, rfl, hsep₂, hlevel⟩ := Regex.matches_seq_iff.mp hrest₂
    obtain ⟨rfl, hw₃⟩ := matches_separator hsep₂
    have hline : s = String.ofList url ++ String.ofList w₁ ++ String.ofList w₂ ++ String.ofList w₃ ++ String.ofList w₄ := by
      rw [← String.toList_inj, hs]
      simp
    have hurl' : String.ofList url ≠ "" ∧ ∀ c ∈ (String.ofList url).toList, c ≠ sep := by
      rw [String.toList_ofList]
      exact ⟨fun h => hne (String.ofList_eq_empty_iff.mp h), fun c hc => bne_iff_ne.mp (hall c hc)⟩
    subst h
    rcases matches_start hstart with ⟨rfl, rfl⟩ | ⟨rfl, rfl⟩ <;>
      rcases matches_level hlevel with ⟨⟨c, ds, rfl, hc, hds⟩, rfl⟩ | ⟨rfl, rfl⟩
    · refine ⟨⟨_, hw₁, _, hw₃, hline⟩, hurl', .inr rfl, fun text htext => ?_⟩
      cases htext
      exact ⟨c, ds, String.toList_ofList, hc, hds⟩
    · refine ⟨⟨_, hw₁, _, hw₃, hline⟩, hurl', .inr rfl, fun text htext => ?_⟩
      cases htext
    · refine ⟨⟨_, hw₁, _, hw₃, hline⟩, hurl', .inl rfl, fun text htext => ?_⟩
      cases htext
      exact ⟨c, ds, String.toList_ofList, hc, hds⟩
    · refine ⟨⟨_, hw₁, _, hw₃, hline⟩, hurl', .inl rfl, fun text htext => ?_⟩
      cases htext

/-! ### The url of what is accepted -/

theorem matches_opt_separator {w : String} (h : w ∈ ["", String.singleton sep]) :
    Regex.Matches (.opt (.char (· == sep))) w.toList [] := by
  rw [List.mem_pair] at h
  rcases h with rfl | rfl
  · exact .optNone
  · rw [String.toList_singleton]
    exact .optSome (.char (beq_self_eq_true sep))

theorem matches_opt_start {start : Option String} (h : start = none ∨ start = some "start") :
    ∃ cs, Regex.Matches (.opt (.group 2 (literal "start"))) (start.getD "").toList cs := by
  rcases h with rfl | rfl
  · exact ⟨[], .optNone⟩
  · exact ⟨_, .optSome (.group (Regex.matches_word_iff.mpr ⟨rfl, forall₂_literal.mpr rfl⟩))⟩

theorem matches_opt_level {level : Option String} (h : ∀ text, level = some text →
    ∃ c cs, text.toList = c :: cs ∧ nonzeroDigit c = true ∧ ∀ c' ∈ cs, c'.isDigit = true) :
    ∃ cs, Regex.Matches (.opt (.group 3 (.seq (.char nonzeroDigit) (.star (.char Char.isDigit)))))
      (level.getD "").toList cs := by
  cases level with
  | none => exact ⟨[], .optNone⟩
  | some text =>
    obtain ⟨c, cs, htext, hc, hcs⟩ := h text rfl
    rw [Option.getD_some, htext]
    exact ⟨_, .optSome (.group (.seq (.char hc) (Regex.matches_star_char_iff.mpr ⟨rfl, hcs⟩)))⟩

/-- The first group is closed once. -/
theorem text_url {w u : List Char} {cs : Captures Char} (h : Regex.Matches (descriptorRegex sep) w ((1, u) :: cs)) :
    Captures.text ((1, u) :: cs) 1 = some u := by
  obtain ⟨url, rest, cs₁, cs₂, -, hcs, hurl, hrest⟩ := Regex.matches_seq_iff.mp h
  obtain ⟨cs', rfl, hplus⟩ := Regex.matches_group_iff.mp hurl
  obtain ⟨rfl, -, -⟩ := Regex.matches_plus_char_iff.mp hplus
  obtain ⟨w₁, rest₁, cs₃, cs₄, rfl, rfl, hsep₁, hrest₁⟩ := Regex.matches_seq_iff.mp hrest
  obtain ⟨rfl, -⟩ := matches_separator hsep₁
  obtain ⟨w₂, rest₂, cs₅, cs₆, rfl, rfl, hstart, hrest₂⟩ := Regex.matches_seq_iff.mp hrest₁
  obtain ⟨w₃, w₄, cs₇, cs₈, rfl, rfl, hsep₂, hlevel⟩ := Regex.matches_seq_iff.mp hrest₂
  obtain ⟨rfl, -⟩ := matches_separator hsep₂
  cases hcs
  rcases matches_start hstart with ⟨-, rfl⟩ | ⟨-, rfl⟩ <;> rcases matches_level hlevel with ⟨-, rfl⟩ | ⟨-, rfl⟩ <;> rfl

theorem isDigit_of_nonzeroDigit {c : Char} (h : nonzeroDigit c = true) : c.isDigit = true := by
  obtain ⟨hone, hnine⟩ : '1' ≤ c ∧ c ≤ '9' := by simpa [nonzeroDigit] using h
  have hzero : '0' ≤ c := Char.le_trans (show '0' ≤ '1' by decide) hone
  exact Bool.and_eq_true_iff.mpr ⟨decide_eq_true hzero, decide_eq_true hnine⟩

/-- Where there is no separator before it, none is passed over. -/
theorem dropWhile_ne_append {u : List Char} (hu : sep ∉ u) (v : List Char) :
    (u ++ v).dropWhile (· != sep) = v.dropWhile (· != sep) :=
  List.dropWhile_append_of_pos fun _ hc => bne_iff_ne.mpr fun heq => hu (heq ▸ hc)

theorem dropWhile_ne_separator (v : List Char) : (sep :: v).dropWhile (· != sep) = sep :: v :=
  List.dropWhile_cons_of_neg (by simp)

/-- What stands from the first separator on can be read as the options, however the line was read. -/
theorem matches_tail (hstart : sep ∉ "start".toList) (hdigit : sep.isDigit = false) {s : String} {d : Descriptor}
    (h : Spells sep s d) : ∃ cs, Regex.Matches (.seq (.opt (.char (· == sep))) (optionsRegex sep))
      (s.toList.dropWhile (· != sep)) cs := by
  obtain ⟨sep₁, hsep₁, sep₂, hsep₂, rfl⟩ := h.parts
  obtain ⟨csₛ, hmatch⟩ := matches_opt_start h.start
  obtain ⟨csₗ, hlevel⟩ := matches_opt_level h.level
  have hone : Regex.Matches (.opt (.char (· == sep))) [sep] [] := .optSome (.char (beq_self_eq_true sep))
  have hurl : sep ∉ d.url.toList := fun hmem => h.url.2 sep hmem rfl
  have hnostart : sep ∉ (d.start.getD "").toList := by
    rcases h.start with hd | hd <;> rw [hd]
    · exact List.not_mem_nil
    · exact hstart
  have hnolevel : sep ∉ (d.runlevel.getD "").toList := by
    cases hd : d.runlevel with
    | none => exact List.not_mem_nil
    | some text =>
      obtain ⟨c, cs, htext, hc, hcs⟩ := h.level text hd
      rw [Option.getD_some, htext]
      rintro hmem
      have hsep : sep.isDigit = true := by
        rcases List.mem_cons.mp hmem with rfl | hmem
        · exact isDigit_of_nonzeroDigit hc
        · exact hcs sep hmem
      rw [hdigit] at hsep
      cases hsep
  simp only [String.toList_append, List.append_assoc, dropWhile_ne_append hurl]
  rw [List.mem_pair] at hsep₁ hsep₂
  rcases hsep₁ with rfl | rfl
  · rcases hsep₂ with rfl | rfl
    · -- there is none
      simp only [String.toList_empty, List.nil_append]
      rw [dropWhile_ne_append hnostart, ← List.append_nil (d.runlevel.getD "").toList, dropWhile_ne_append hnolevel]
      exact ⟨_, .seq .optNone (.seq .optNone (.seq .optNone .optNone))⟩
    · -- the second one is the first
      rw [String.toList_empty, List.nil_append, dropWhile_ne_append hnostart, String.toList_singleton,
        List.singleton_append, dropWhile_ne_separator]
      exact ⟨_, .seq hone (.seq .optNone (.seq .optNone hlevel))⟩
  · rw [String.toList_singleton, List.singleton_append, dropWhile_ne_separator]
    exact ⟨_, .seq hone (.seq hmatch (.seq (matches_opt_separator (List.mem_pair.mpr hsep₂)) hlevel))⟩

/-- **The url ends at the first separator**, although the separators may be left out. -/
theorem url_of_accepted (hstart : sep ∉ "start".toList) (hdigit : sep.isDigit = false) {s : String} {d : Descriptor}
    (h : unapplyBundle (descriptorRegex sep) s = some d) : d.url.toList = s.toList.takeWhile (· != sep) := by
  have hspells := spells_of_accepted h
  obtain ⟨cs, hcs⟩ := matches_tail hstart hdigit hspells
  obtain ⟨ds, hds⟩ := Regex.exists_fullMatch hcs
  have hne : s.toList.takeWhile (· != sep) ≠ [] := by
    obtain ⟨sep₁, -, sep₂, -, hparts⟩ := hspells.parts
    obtain ⟨c, rest, hurl⟩ := List.exists_cons_of_ne_nil fun hnil => hspells.url.1 (String.toList_eq_nil_iff.mp hnil)
    have hc : (c != sep) = true := bne_iff_ne.mpr (hspells.url.2 c (hurl ▸ List.mem_cons_self))
    rw [hparts]
    simp only [String.toList_append, hurl, List.cons_append]
    rw [List.takeWhile_cons_of_pos (p := (· != sep)) hc]
    exact List.cons_ne_nil _ _
  have hpass : ∀ c ∈ s.toList.takeWhile (· != sep), c ≠ sep := fun c hc =>
    bne_iff_ne.mp (List.mem_takeWhile_imp (p := (· != sep)) hc)
  have hstop : ∀ c rest, s.toList.dropWhile (· != sep) = c :: rest → c = sep := fun c rest hrest => by
    have hhead := List.head?_dropWhile_not (· != sep) s.toList
    rw [hrest] at hhead
    simpa using hhead
  have hfull := fullMatch_descriptor hne hpass hstop hds
  rw [List.takeWhile_append_dropWhile] at hfull
  rw [unapplyBundle_of_fullMatch hfull, text_url (Regex.matches_of_fullMatch hfull), Option.some.injEq] at h
  rw [← h]
  exact String.toList_ofList

/-! ### The round trip -/

/-- The line with `>` for `!`. -/
def bangsToAngles (s : String) : String := String.ofList (s.toList.map fun c => if c = '!' then '>' else c)

theorem digit_ne_bang (n : ℕ) : ∀ c ∈ (toString n).toList, c ≠ '!' := by
  rintro c hc rfl
  rw [Nat.toString_eq_repr, Nat.toList_repr] at hc
  exact absurd (Nat.isDigit_of_mem_toDigits (by decide) (by decide) hc) (by decide)

theorem bangsToAngles_line {url : String} (hurl : ∀ c ∈ url.toList, c ≠ '!') (start : Bool) (level : Option ℕ) :
    bangsToAngles (descriptorLine '!' url start level) = descriptorLine '>' url start level := by
  have hsame : ∀ cs : List Char, (∀ c ∈ cs, c ≠ '!') → cs.map (fun c => if c = '!' then '>' else c) = cs := by
    intro cs hcs
    rw [List.map_congr_left fun c hc => if_neg (hcs c hc), List.map_id']
  rw [bangsToAngles, ← String.toList_inj, String.toList_ofList, toList_descriptorLine, toList_descriptorLine,
    List.map_append, hsame _ hurl]
  congr 1
  unfold descriptorTail
  cases start with
  | false =>
    cases level with
    | none => rfl
    | some n => simpa using hsame _ (digit_ne_bang n)
  | true =>
    cases level with
    | none => rfl
    | some n => simpa using hsame _ (digit_ne_bang n)

/-- A comment begins with `#`. -/
theorem comment_of_matches {s : String} {groups : List (Option String)}
    (h : unapplySeq DynamyServer.Comment 1 s = some groups) : startsWith s "#" = true := by
  obtain ⟨cs, hm, -⟩ := Option.map_eq_some_iff.mp h
  obtain ⟨w, u, cs₁, cs₂, hs, -, hw, -⟩ := Regex.matches_seq_iff.mp (Regex.matches_of_fullMatch hm)
  obtain ⟨-, hchars⟩ := Regex.matches_word_iff.mp hw
  rw [forall₂_literal.mp hchars] at hs
  rw [startsWith, List.isPrefixOf_iff_prefix, hs]
  exact List.prefix_append _ _

theorem startsWith_line {sep : Char} {url : String} (hne : url ≠ "") (start : Bool) (level : Option ℕ)
    (h : startsWith (descriptorLine sep url start level) "#" = true) : startsWith url "#" = true := by
  obtain ⟨c, cs, hurl⟩ := List.exists_cons_of_ne_nil fun h => hne (String.toList_eq_nil_iff.mp h)
  rw [startsWith, toList_descriptorLine, hurl, List.cons_append] at h
  rw [startsWith, hurl]
  simpa using h

/-- **The grammar of descriptors.**  Every url, flag and level come back from the line that is written with them: the
line is no comment, `Bundle` reads it so, and the pattern of `osgi:install` reads the same from the line with `>` for
`!`.  Whatever else `Bundle` accepts is a url, an optional separator, an optional `start`, an optional separator and an
optional level, too. -/
theorem roundTrip :
    (∀ (url : String) (start : Bool) (level : Option ℕ), url ≠ "" →
      (∀ c ∈ url.toList, c ≠ '!' ∧ c ≠ '>' ∧ isLineTerminator c = false) → startsWith url "#" = false →
      (∀ n, level = some n → 1 ≤ n) →
        unapplySeq DynamyServer.Comment 1 (descriptorLine '!' url start level) = none ∧
        unapplyBundle DynamyServer.Bundle (descriptorLine '!' url start level) = some (descriptor url start level) ∧
        unapplyBundle OsgiInstallCommand.Bundle (bangsToAngles (descriptorLine '!' url start level)) =
          some (descriptor url start level)) ∧
      ∀ (line : String) (d : Descriptor), unapplyBundle DynamyServer.Bundle line = some d → Spells '!' line d := by
  refine ⟨fun url start level hne hurl hcomment hlevel => ⟨?_, ?_, ?_⟩, fun line d h => spells_of_accepted h⟩
  · rw [Option.eq_none_iff_forall_ne_some]
    intro groups h
    rw [startsWith_line hne start level (comment_of_matches h)] at hcomment
    cases hcomment
  · refine unapplyBundle_line ?_ hne (fun c hc => (hurl c hc).1) start level hlevel
    rintro d hd rfl
    exact absurd hd (by decide)
  · rw [bangsToAngles_line (fun c hc => (hurl c hc).1)]
    refine unapplyBundle_line ?_ hne (fun c hc => (hurl c hc).2.1) start level hlevel
    rintro d hd rfl
    exact absurd hd (by decide)

theorem roundTrip_started :
    unapplySeq DynamyServer.Comment 1 (descriptorLine '!' "mvn:a" true (some 12)) = none ∧
      unapplyBundle DynamyServer.Bundle (descriptorLine '!' "mvn:a" true (some 12)) =
        some (descriptor "mvn:a" true (some 12)) ∧
      unapplyBundle OsgiInstallCommand.Bundle (bangsToAngles (descriptorLine '!' "mvn:a" true (some 12))) =
        some (descriptor "mvn:a" true (some 12)) := by
  refine roundTrip.1 "mvn:a" true (some 12) (by decide) ?_ (by decide) fun n hn => ?_
  · have hchars : "mvn:a".toList.all (fun c => c != '!' && c != '>' && !isLineTerminator c) = true := by decide
    intro c hc
    simpa [and_assoc] using List.all_eq_true.mp hchars c hc
  · cases hn
    decide

end Dynamy.Osgi
