import Dynamy.JavaRegex
import Dynamy.Lib.Pieces

/-!
# Dynamy.Kernel.Process — the home in the templates

`ServerSetup.process` puts the path of the server's home in the place of `${prog.home}`, with `replaceAll`.  Its
pattern has a dot that matches other characters, too, and the path is read as a replacement.
-/

namespace Dynamy.Kernel

open Dynamy.Java Dynamy.Lib

/-- `\\$\\{prog.home\\}`; the dot is not escaped. -/
def placeholderPattern : List (Char → Bool) :=
  ("$\x7bprog".toList.map fun c d => d == c) ++ anyChar :: ("home\x7d".toList.map fun c d => d == c)

/-- The text of a resource, processed. -/
def ServerSetup.process (template home : String) : Except Throwable String :=
  replaceAll (.word placeholderPattern) 0 template home

/-! ### What it is for -/

def placeholder : List Char := "$\x7bprog.home\x7d".toList

/-- Every occurrence of `w`, which is not empty, is replaced, from left to right. -/
def replaceLiteral (w home : List Char) : List Char → List Char
  | [] => []
  | c :: cs =>
    if w <+: c :: cs then home ++ replaceLiteral w home (cs.drop (w.length - 1))
    else c :: replaceLiteral w home cs
termination_by s => s.length
decreasing_by
  · rw [List.length_drop, List.length_cons]
    omega
  · exact Nat.lt_succ_self _

/-- What `process` should yield. -/
def Processed (template home : String) : Prop :=
  ServerSetup.process template home =
    .ok (String.ofList (replaceLiteral placeholder home.toList template.toList))

/-- The matches in a template, from left to right. -/
def matchesOf (template : String) : List (List Char) :=
  found ((Regex.word placeholderPattern).pieces template.toList)

/-- Nothing matches; or only the placeholder does and the home has nothing that a replacement reads in its own way; or
only other texts do, and the home, read as a replacement, stands for each of them. -/
def Exact (template home : String) : Prop :=
  matchesOf template = [] ∨
    ((∀ w ∈ matchesOf template, w = placeholder) ∧ '\\' ∉ home.toList ∧ '$' ∉ home.toList) ∨
    ∀ w ∈ matchesOf template, w ≠ placeholder ∧
      appendReplacement 0 (fun n => if n = 0 then some w else none) home.toList = .ok w

/-! ### The matches -/

/-- What the pattern matches. -/
def occurrence (c : Char) : List Char := "$\x7bprog".toList ++ c :: "home\x7d".toList

theorem placeholder_eq : placeholder = occurrence '.' := rfl

theorem matches_placeholder_iff {w : List Char} :
    List.Forall₂ (fun p c => p c = true) placeholderPattern w ↔ ∃ c, anyChar c = true ∧ w = occurrence c := by
  unfold placeholderPattern occurrence
  constructor
  · intro h
    -- the three parts of the pattern match three parts of the text
    have hflip : List.Forall₂ (fun c p => p c = true) w
        ("$\x7bprog".toList.map (fun c d => d == c) ++ anyChar :: "home\x7d".toList.map fun c d => d == c) := h.flip
    have hfront := forall₂_literal.mp (List.forall₂_take_append _ _ _ hflip).flip
    obtain ⟨c, rest, hc, hback, hdrop⟩ := List.forall₂_cons_left_iff.mp (List.forall₂_drop_append _ _ _ hflip).flip
    refine ⟨c, hc, ?_⟩
    rw [← List.take_append_drop ("$\x7bprog".toList.map fun c d => d == c).length w, hfront, hdrop,
      forall₂_literal.mp hback]
  · rintro ⟨c, hc, rfl⟩
    exact List.rel_append (forall₂_literal.mpr rfl) (.cons hc (forall₂_literal.mpr rfl))

theorem length_occurrence (c : Char) : (occurrence c).length = 12 := rfl

/-- All but the middle one are no backslashes. -/
theorem countP_occurrence (c : Char) :
    (occurrence c).countP (· != '\\') = 11 ∨ (occurrence c).countP (· != '\\') = 12 := by
  have hsplit : ∀ front back : List Char, (front ++ c :: back).countP (· != '\\') =
      front.countP (· != '\\') + (back.countP (· != '\\') + if c != '\\' then 1 else 0) := by
    intro front back
    rw [List.countP_append, List.countP_cons]
  have hcount : (occurrence c).countP (· != '\\') = 6 + (5 + if c != '\\' then 1 else 0) := hsplit _ _
  rw [hcount]
  split
  · exact .inr rfl
  · exact .inl rfl

theorem occurrence_inj {c d : Char} (h : occurrence c = occurrence d) : c = d :=
  (List.cons.inj (List.append_cancel_left h)).1

theorem placeholderPattern_ne_nil : placeholderPattern ≠ [] := fun h => List.cons_ne_nil _ _ (List.append_eq_nil_iff.mp h).2

/-! ### What the literal replacement does -/

/-- What a match is replaced by, literally. -/
def literally (home w : List Char) : List Char := if w = placeholder then home else w

theorem literally_placeholder (home : List Char) : literally home placeholder = home := if_pos rfl

theorem literally_of_ne {w : List Char} (h : w ≠ placeholder) (home : List Char) : literally home w = w := if_neg h

section Literal

variable {home : List Char}

theorem replaceLiteral_nil (w home : List Char) : replaceLiteral w home [] = [] := by
  rw [replaceLiteral]

theorem replaceLiteral_cons {w : List Char} {c : Char} {s : List Char} (h : ¬ w <+: c :: s) :
    replaceLiteral w home (c :: s) = c :: replaceLiteral w home s := by
  rw [replaceLiteral, if_neg h]

theorem replaceLiteral_append {w : List Char} (hw : w ≠ []) (s : List Char) :
    replaceLiteral w home (w ++ s) = home ++ replaceLiteral w home s := by
  obtain ⟨c, cs, rfl⟩ := List.exists_cons_of_ne_nil hw
  have hbegins : c :: cs <+: c :: (cs ++ s) := List.prefix_append (c :: cs) s
  rw [List.cons_append, replaceLiteral, if_pos hbegins, List.length_cons, Nat.add_sub_cancel, List.drop_left]

/-- No occurrence of the placeholder begins with another character than the dollar. -/
theorem not_prefix_placeholder {c : Char} (hc : c ≠ '$') (s : List Char) : ¬ placeholder <+: c :: s :=
  fun h => hc (List.cons_prefix_cons.mp h).1.symm

theorem not_prefix_placeholder_dollar {c : Char} (hc : c ≠ '\x7b') (s : List Char) : ¬ placeholder <+: '$' :: c :: s :=
  fun h => hc (List.cons_prefix_cons.mp (List.cons_prefix_cons.mp h).2).1.symm

/-- Other texts that the pattern matches stay as they are. -/
theorem replaceLiteral_occurrence {c : Char} (hc : c ≠ '.') (s : List Char) :
    replaceLiteral placeholder home (occurrence c ++ s) = occurrence c ++ replaceLiteral placeholder home s := by
  -- at its own place it is not the placeholder, and after that there is at most one dollar, without a brace behind it
  have hfirst : ¬ placeholder <+: occurrence c ++ s := by
    rintro ⟨rest, hrest⟩
    exact hc (occurrence_inj (List.append_inj_left hrest.symm rfl))
  have hmiddle : ¬ placeholder <+: c :: ("home\x7d".toList ++ s) := by
    by_cases hdollar : c = '$'
    · rw [hdollar]
      exact not_prefix_placeholder_dollar (by decide) _
    · exact not_prefix_placeholder hdollar _
  have hplain : ∀ w : List Char, '$' ∉ w → ∀ t,
      replaceLiteral placeholder home (w ++ t) = w ++ replaceLiteral placeholder home t := by
    intro w hw t
    induction w with
    | nil => rfl
    | cons d w ih =>
      rw [List.mem_cons, not_or] at hw
      rw [List.cons_append, replaceLiteral_cons (not_prefix_placeholder (Ne.symm hw.1) _), ih hw.2,
        List.cons_append]
  have hsplit : occurrence c ++ s = '$' :: ("\x7bprog".toList ++ c :: ("home\x7d".toList ++ s)) := rfl
  rw [hsplit] at hfirst ⊢
  rw [replaceLiteral_cons hfirst, hplain _ (by decide), replaceLiteral_cons hmiddle,
    hplain _ (by decide)]
  rfl

/-- The literal replacement, match by match. -/
theorem replaceLiteral_eq_fill (home s : List Char) : replaceLiteral placeholder home s =
    fill (literally home) ((Regex.word placeholderPattern).pieces s) := by
  refine Regex.pieces_word_induction (motive := fun s ps => replaceLiteral placeholder home s =
    fill (literally home) ps) placeholderPattern_ne_nil ?_ ?_ ?_ s
  · exact replaceLiteral_nil _ _
  · intro c s hnone ih
    have hplaceholder : ¬ placeholder <+: c :: s := by
      rintro ⟨rest, hrest⟩
      exact hnone placeholder rest hrest.symm (matches_placeholder_iff.mpr ⟨'.', rfl, rfl⟩)
    rw [fill_plain, ← ih, replaceLiteral_cons hplaceholder]
  · intro w rest hw ih
    obtain ⟨c, -, rfl⟩ := matches_placeholder_iff.mp hw
    rw [fill_matched, ← ih]
    by_cases hc : c = '.'
    · rw [hc, ← placeholder_eq, literally_placeholder]
      exact replaceLiteral_append (List.cons_ne_nil _ _) rest
    · rw [literally_of_ne fun h => hc (occurrence_inj h)]
      exact replaceLiteral_occurrence hc rest

end Literal

theorem mem_matchesOf {template : String} {w : List Char} (h : w ∈ matchesOf template) : ∃ c, w = occurrence c := by
  refine Regex.pieces_word_induction (motive := fun _ ps => ∀ w ∈ found ps, ∃ c, w = occurrence c)
    placeholderPattern_ne_nil ?_ ?_ ?_ template.toList w h
  · exact fun w hw => absurd hw List.not_mem_nil
  · exact fun c s _ ih => ih
  · intro w rest hw ih
    obtain ⟨c, -, hc⟩ := matches_placeholder_iff.mp hw
    exact List.forall_mem_cons.mpr ⟨⟨c, hc⟩, ih⟩

/-! ### What the replacement does -/

section Replacement

variable {home : List Char} {ps : List (Piece Char)} {f : List Char → List Char}

theorem mapM_replacePiece (h : ∀ w ∈ found ps, ∀ group : ℕ → Option (List Char), group 0 = some w →
    appendReplacement 0 group home = .ok (f w)) :
    ps.mapM (replacePiece 0 home) = .ok (ps.map (Piece.image f)) := by
  induction ps with
  | nil => rfl
  | cons p ps ih =>
    cases p with
    | plain c =>
      rw [List.mapM_cons, ih h]
      rfl
    | matched w cs =>
      obtain ⟨hw, hps⟩ := List.forall_mem_cons.mp h
      rw [List.mapM_cons, ih hps, replacePiece, hw _ (if_pos rfl)]
      rfl

/-- Where there is a match, the home is read as a replacement. -/
theorem exists_read_of_mapM {parts : List (List Char)} (h : ps.mapM (replacePiece 0 home) = .ok parts)
    (hfound : found ps ≠ []) : ∃ group out, appendReplacement 0 group home = .ok out := by
  induction ps generalizing parts with
  | nil => exact absurd rfl hfound
  | cons p ps ih =>
    rw [List.mapM_cons] at h
    obtain ⟨part, hpart, hrest⟩ := of_bind_eq_ok h
    obtain ⟨parts', hparts, -⟩ := of_bind_eq_ok hrest
    cases p with
    | plain c => exact ih hparts hfound
    | matched w cs => exact ⟨_, part, hpart⟩

end Replacement

theorem process_of_read {template home : String} {f : List Char → List Char}
    (h : ∀ w ∈ matchesOf template, ∀ group : ℕ → Option (List Char), group 0 = some w →
      appendReplacement 0 group home.toList = .ok (f w)) :
    ServerSetup.process template home =
      .ok (String.ofList (fill f ((Regex.word placeholderPattern).pieces template.toList))) := by
  rw [ServerSetup.process, replaceAll, mapM_replacePiece h]
  rfl

theorem processed_of_read {template home : String} {f : List Char → List Char}
    (h : ∀ w ∈ matchesOf template, ∀ group : ℕ → Option (List Char), group 0 = some w →
      appendReplacement 0 group home.toList = .ok (f w)) :
    Processed template home ↔
      fill f ((Regex.word placeholderPattern).pieces template.toList) =
        fill (literally home.toList) ((Regex.word placeholderPattern).pieces template.toList) := by
  rw [Processed, process_of_read h, replaceLiteral_eq_fill, Except.ok.injEq, String.ofList_inj]

/-- The condition is enough. -/
theorem processed_of_exact {template home : String} (h : Exact template home) : Processed template home := by
  rcases h with hnone | ⟨hplaceholder, hescape, hdollar⟩ | hother
  · have hall : ∀ w ∈ matchesOf template, ∀ group : ℕ → Option (List Char), group 0 = some w →
        appendReplacement 0 group home.toList = .ok w := by
      rw [hnone]
      exact fun w hw => absurd hw List.not_mem_nil
    refine (processed_of_read hall).mpr (fill_congr ?_)
    rw [← matchesOf, hnone]
    exact fun w hw => absurd hw List.not_mem_nil
  · refine (processed_of_read (f := fun _ => home.toList) fun w _ group _ =>
      appendReplacement_of_plain hescape hdollar).mpr (fill_congr fun w hw => ?_)
    rw [hplaceholder w hw, literally_placeholder]
  · refine (processed_of_read (f := fun w => w) fun w hw group hgroup => ?_).mpr (fill_congr fun w hw => ?_)
    · have hread := (hother w hw).2
      obtain ⟨ts, -, -, hvalues⟩ := exists_tokens hread
      have hsame := hvalues fun n => if n = 0 then some w else none
      rw [hvalues group, hgroup, ← hread, hsame]
      rfl
    · rw [literally_of_ne (hother w hw).1]

/-! ### What a replacement is made of -/

section Tokens

open ReplacementToken

variable {ts : List ReplacementToken}

/-- In how many places the match stands. -/
def wholes : List ReplacementToken → ℕ
  | [] => 0
  | .plain _ :: ts => wholes ts
  | .escaped _ :: ts => wholes ts
  | .whole _ :: ts => wholes ts + 1

/-- How many characters have a backslash before them. -/
def escapes : List ReplacementToken → ℕ
  | [] => 0
  | .plain _ :: ts => escapes ts
  | .escaped _ :: ts => escapes ts + 1
  | .whole _ :: ts => escapes ts

theorem countP_values (w : List Char) (ts : List ReplacementToken) (p : Char → Bool) :
    (values w ts).countP p = (values [] ts).countP p + wholes ts * w.countP p := by
  induction ts with
  | nil => rw [values_nil, values_nil, wholes, Nat.zero_mul, Nat.add_zero]
  | cons t ts ih =>
    rw [values_cons, values_cons, List.countP_append, List.countP_append, ih]
    cases t with
    | plain c => exact (Nat.add_assoc _ _ _).symm
    | escaped c => exact (Nat.add_assoc _ _ _).symm
    | whole zeros =>
      rw [wholes, Nat.succ_mul, value, value, List.countP_nil]
      omega

theorem length_values (w : List Char) (ts : List ReplacementToken) :
    (values w ts).length = (values [] ts).length + wholes ts * w.length := by
  have hcount := countP_values w ts fun _ => true
  simpa only [List.countP_true] using hcount

/-- Nothing is counted twice in the texts, as long as neither the backslashes nor what `$0` is written with count. -/
theorem countP_texts {p : Char → Bool} (hescape : p '\\' = false)
    (hwhole : wholes ts = 0 ∨ p '$' = false ∧ p '0' = false) : (texts ts).countP p = (values [] ts).countP p := by
  induction ts with
  | nil => rfl
  | cons t ts ih =>
    rw [texts_cons, values_cons, List.countP_append, List.countP_append]
    cases t with
    | plain c => rw [ih hwhole, text, value]
    | escaped c => rw [ih hwhole, text, value, List.countP_cons_of_neg (by rw [hescape]; exact Bool.false_ne_true)]
    | whole zeros =>
      rcases hwhole with hnone | ⟨hdollar, hzero⟩
      · exact absurd hnone (Nat.succ_ne_zero _)
      · have hzeros : (List.replicate zeros '0').countP p = 0 := by
          rw [List.countP_eq_zero]
          intro c hc
          rw [List.eq_of_mem_replicate hc, hzero]
          exact Bool.false_ne_true
        rw [ih (.inr ⟨hdollar, hzero⟩), text, value, List.countP_cons_of_neg (by rw [hdollar]; exact Bool.false_ne_true),
          List.countP_cons_of_neg (by rw [hzero]; exact Bool.false_ne_true), hzeros, List.countP_nil]

theorem length_texts (h : wholes ts = 0) : (texts ts).length = (values [] ts).length + escapes ts := by
  induction ts with
  | nil => rfl
  | cons t ts ih =>
    rw [texts_cons, values_cons, List.length_append, List.length_append]
    cases t with
    | plain c =>
      rw [ih h, escapes]
      exact (Nat.add_assoc _ _ _).symm
    | escaped c =>
      rw [ih h, escapes, text, value, List.length_cons]
      omega
    | whole zeros => exact absurd h (Nat.succ_ne_zero _)

theorem values_of_wholes (h : wholes ts = 0) (w : List Char) : values w ts = values [] ts := by
  induction ts with
  | nil => rfl
  | cons t ts ih =>
    rw [values_cons, values_cons]
    cases t with
    | plain c => rw [ih h, value, value]
    | escaped c => rw [ih h, value, value]
    | whole zeros => exact absurd h (Nat.succ_ne_zero _)

/-- Without a backslash before it, no character of a legal replacement is one, or a dollar. -/
theorem plain_of_escapes (hlegal : ∀ t ∈ ts, t.Legal) (hwholes : wholes ts = 0) (hescapes : escapes ts = 0) :
    '\\' ∉ texts ts ∧ '$' ∉ texts ts ∧ values [] ts = texts ts := by
  induction ts with
  | nil => exact ⟨List.not_mem_nil, List.not_mem_nil, rfl⟩
  | cons t ts ih =>
    obtain ⟨ht, hts⟩ := List.forall_mem_cons.mp hlegal
    rw [texts_cons, values_cons]
    cases t with
    | plain c =>
      obtain ⟨hslash, hdollar, hsame⟩ := ih hts hwholes hescapes
      refine ⟨?_, ?_, by rw [hsame, text, value]⟩
      · exact fun h => (List.mem_cons.mp h).elim (fun h => ht.1 h.symm) hslash
      · exact fun h => (List.mem_cons.mp h).elim (fun h => ht.2 h.symm) hdollar
    | escaped c => exact absurd hescapes (Nat.succ_ne_zero _)
    | whole zeros => exact absurd hwholes (Nat.succ_ne_zero _)

theorem wholes_append (ts us : List ReplacementToken) : wholes (ts ++ us) = wholes ts + wholes us := by
  induction ts with
  | nil => exact (Nat.zero_add _).symm
  | cons t ts ih =>
    rw [List.cons_append]
    cases t with
    | plain c => exact ih
    | escaped c => exact ih
    | whole zeros =>
      rw [wholes, wholes, ih]
      omega

/-- If a legal replacement ends in what it stands for and more backslashes, then it stands for backslashes only. -/
theorem all_escape_of_suffix (hlegal : ∀ t ∈ ts, t.Legal) (hwholes : wholes ts = 0) {k : ℕ}
    (h : values [] ts <:+ texts ts ++ List.replicate (k + 1) '\\') : ∀ c ∈ values [] ts, c = '\\' := by
  induction ts using List.reverseRecOn generalizing k with
  | nil => exact fun c hc => absurd hc List.not_mem_nil
  | append_singleton ts t ih =>
    rw [wholes_append] at hwholes
    have hts : ∀ t ∈ ts, t.Legal := fun t' ht' => hlegal t' (List.mem_append_left _ ht')
    have ht : t.Legal := hlegal t (List.mem_append_right _ List.mem_cons_self)
    rw [texts_append, values_append, List.replicate_succ', ← List.append_assoc] at h
    rw [values_append]
    have hlen : ∀ c : Char, [c].length = ['\\'].length := fun _ => rfl
    cases t with
    | plain c =>
      obtain ⟨-, hlast⟩ := (List.suffix_append_inj_of_length_eq (hlen c)).mp h
      exact absurd (List.cons.inj hlast).1 ht.1
    | escaped c =>
      obtain ⟨hrest, hlast⟩ := (List.suffix_append_inj_of_length_eq (hlen c)).mp h
      obtain rfl : c = '\\' := (List.cons.inj hlast).1
      have hmore : texts ts ++ texts [.escaped '\\'] ++ List.replicate k '\\' =
          texts ts ++ List.replicate (k + 1 + 1) '\\' := by
        rw [List.append_assoc]
        rfl
      rw [hmore] at hrest
      exact List.forall_mem_append.mpr ⟨ih hts hwholes hrest, List.forall_mem_singleton.mpr rfl⟩
    | whole zeros => exact absurd hwholes (Nat.succ_ne_zero _)

theorem eq_append_singleton {t : ReplacementToken} {us : List ReplacementToken} (h : wholes (us ++ [t]) = 0) :
    ∃ c, values [] (us ++ [t]) = values [] us ++ [c] ∧
      (t = .plain c ∧ texts (us ++ [t]) = texts us ++ [c] ∨
        t = .escaped c ∧ texts (us ++ [t]) = texts us ++ ['\\'] ++ [c]) := by
  rw [wholes_append] at h
  rw [texts_append, values_append]
  cases t with
  | plain c => exact ⟨c, rfl, .inl ⟨rfl, rfl⟩⟩
  | escaped c =>
    refine ⟨c, rfl, .inr ⟨rfl, ?_⟩⟩
    rw [List.append_assoc]
    rfl
  | whole zeros => exact absurd h (Nat.succ_ne_zero _)

/-- If a legal replacement ends in what it stands for, with a dollar in it, then that does not end in a backslash. -/
theorem endsApart_of_suffix (hlegal : ∀ t ∈ ts, t.Legal) (hwholes : wholes ts = 0)
    (h : values [] ts <:+ texts ts) (hdollar : '$' ∈ values [] ts) : EndsApart '\\' (values [] ts) := by
  rcases List.eq_nil_or_concat ts with rfl | ⟨us, t, rfl⟩
  · exact absurd hdollar List.not_mem_nil
  · rw [List.concat_eq_append] at *
    obtain ⟨c, hvalues, ⟨rfl, -⟩ | ⟨rfl, htexts⟩⟩ := eq_append_singleton hwholes
    · exact ⟨_, c, hvalues, (hlegal _ (List.mem_append_right _ List.mem_cons_self)).1⟩
    · refine ⟨_, c, hvalues, fun hc => ?_⟩
      rw [hvalues, htexts] at h
      have hrest := ((List.suffix_append_inj_of_length_eq rfl).mp h).1
      have hus := all_escape_of_suffix (k := 0) (fun t ht => hlegal t (List.mem_append_left _ ht))
        (Nat.eq_zero_of_add_eq_zero ((wholes_append us _).symm.trans hwholes)).1 hrest
      rw [hvalues, hc, List.mem_append, List.mem_singleton] at hdollar
      rcases hdollar with hmem | hsame
      · exact absurd (hus _ hmem) (by decide)
      · exact absurd hsame (by decide)

/-- What a replacement stands for ends as the replacement does. -/
theorem endsApart_texts (hwholes : wholes ts = 0) (h : EndsApart '\\' (values [] ts)) :
    EndsApart '\\' (texts ts) := by
  obtain ⟨s, c, hs, hc⟩ := h
  rcases List.eq_nil_or_concat ts with rfl | ⟨us, t, rfl⟩
  · exact absurd hs.symm (List.append_ne_nil_of_right_ne_nil _ (List.cons_ne_nil _ _))
  · rw [List.concat_eq_append] at *
    obtain ⟨d, hvalues, ⟨-, htexts⟩ | ⟨-, htexts⟩⟩ := eq_append_singleton hwholes
    · obtain rfl : d = c := (List.cons.inj (List.append_inj_right' (hvalues.symm.trans hs) rfl)).1
      exact ⟨_, d, htexts, hc⟩
    · obtain rfl : d = c := (List.cons.inj (List.append_inj_right' (hvalues.symm.trans hs) rfl)).1
      exact ⟨_, d, htexts, hc⟩

end Tokens

theorem endsApart_occurrence (c : Char) : EndsApart '\\' (occurrence c) :=
  ⟨"$\x7bprog".toList ++ c :: "home".toList, '\x7d', rfl, by decide⟩

/-! ### When both texts are the same -/

/-- What only backslashes come before. -/
theorem eq_replicate_append {s t : List Char} (hsuffix : s <:+ t)
    (hcount : t.countP (· != '\\') = s.countP (· != '\\')) :
    t = List.replicate (t.length - s.length) '\\' ++ s := by
  obtain ⟨front, rfl⟩ := hsuffix
  rw [List.countP_append] at hcount
  have hnone : front.countP (· != '\\') = 0 := by omega
  have hall : ∀ c ∈ front, c = '\\' := fun c hc => by simpa using List.countP_eq_zero.mp hnone c hc
  rw [List.length_append, Nat.add_sub_cancel, ← List.eq_replicate_of_mem hall]

section Same

open ReplacementToken

variable {ts : List ReplacementToken} {ps : List (Piece Char)}

/-- A home with the placeholder in the text does not call for the match: a brace would be added for each. -/
theorem wholes_eq_zero (h : fill (fun w => values w ts) ps = fill (literally (texts ts)) ps)
    (hplaceholder : placeholder ∈ found ps) : wholes ts = 0 := by
  have hhome : (texts ts).countP (· == '\x7b') = (values [] ts).countP (· == '\x7b') :=
    countP_texts rfl (.inr ⟨rfl, rfl⟩)
  have hbrace : placeholder.countP (· == '\x7b') = 1 := by decide
  by_contra hpos
  have hle : ∀ w ∈ found ps,
      (literally (texts ts) w).countP (· == '\x7b') ≤ (values w ts).countP (· == '\x7b') := by
    intro w _
    rw [countP_values w ts]
    by_cases hw : w = placeholder
    · rw [hw, literally_placeholder, hhome]
      exact Nat.le_add_right _ _
    · rw [literally_of_ne hw]
      exact (Nat.le_mul_of_pos_left _ (Nat.pos_of_ne_zero hpos)).trans (Nat.le_add_left _ _)
  have heq := eq_of_sum_eq_of_le hle (sum_countP_eq h _).symm placeholder hplaceholder
  rw [countP_values placeholder, literally_placeholder, hhome, hbrace] at heq
  omega

variable (hwholes : wholes ts = 0) (h : fill (fun _ => values [] ts) ps = fill (literally (texts ts)) ps)

include hwholes h

theorem escapes_eq_zero (hfound : placeholder ∈ found ps) (hshort : ∀ w ∈ found ps,
    (values [] ts).length ≤ (literally (texts ts) w).length) : escapes ts = 0 := by
  have heq := eq_of_sum_eq_of_le hshort (sum_length_eq h) placeholder hfound
  rw [literally_placeholder, length_texts hwholes] at heq
  omega

omit hwholes in
/-- Another match in the text: its dollar comes from the home. -/
theorem dollar_mem {c : Char} (hfound : occurrence c ∈ found ps) (hc : c ≠ '.') : '$' ∈ values [] ts := by
  by_contra hno
  have hzero : (values [] ts).countP (· == '$') = 0 :=
    List.countP_eq_zero.mpr fun d hd hsame => hno (beq_iff_eq.mp hsame ▸ hd)
  have heq := eq_of_sum_eq_of_le (fun w _ => hzero.trans_le (Nat.zero_le _)) (sum_countP_eq h (· == '$'))
    (occurrence c) hfound
  rw [hzero, literally_of_ne fun h => hc (occurrence_inj h)] at heq
  exact absurd (List.countP_eq_zero.mp heq.symm '$' (.head _)) (by decide)

variable (hocc : ∀ w ∈ found ps, ∃ c, w = occurrence c)

include hocc

/-- All replacements have as many characters that are no backslashes. -/
theorem countP_literally : ∀ w ∈ found ps, (literally (texts ts) w).countP (· != '\\') =
    (values [] ts).countP (· != '\\') := by
  have hhome : (texts ts).countP (· != '\\') = (values [] ts).countP (· != '\\') := countP_texts rfl (.inl hwholes)
  have hcases : ∀ w ∈ found ps, (literally (texts ts) w).countP (· != '\\') = (values [] ts).countP (· != '\\') ∨
      (literally (texts ts) w).countP (· != '\\') = 11 ∨ (literally (texts ts) w).countP (· != '\\') = 12 := by
    intro w hw
    by_cases hplaceholder : w = placeholder
    · rw [hplaceholder, literally_placeholder]
      exact .inl hhome
    · obtain ⟨c, rfl⟩ := hocc w hw
      rw [literally_of_ne hplaceholder]
      exact .inr (countP_occurrence c)
  have hsum := sum_countP_eq h (· != '\\')
  -- all of them are on the same side
  by_cases hle : (values [] ts).countP (· != '\\') ≤ 11
  · intro w hw
    refine (eq_of_sum_eq_of_le (fun w hw => ?_) hsum w hw).symm
    rcases hcases w hw with heq | heq | heq <;> omega
  · refine eq_of_sum_eq_of_le (fun w hw => ?_) hsum.symm
    rcases hcases w hw with heq | heq | heq <;> omega

/-- What the home stands for is longer than a match. -/
theorem long_of_escapes (hplaceholder : placeholder ∈ found ps) (hescapes : escapes ts ≠ 0) :
    12 < (values [] ts).length := by
  by_contra hshort
  refine hescapes (escapes_eq_zero hwholes h hplaceholder fun w hw => ?_)
  by_cases hw' : w = placeholder
  · rw [hw', literally_placeholder, length_texts hwholes]
    exact Nat.le_add_right _ _
  · obtain ⟨d, rfl⟩ := hocc w hw
    rw [literally_of_ne hw', length_occurrence]
    exact Nat.not_lt.mp hshort

omit h in
/-- Up to any place both texts end in as many backslashes. -/
theorem trailing_literally (hends : EndsApart '\\' (values [] ts)) :
    trailing '\\' (fill (fun _ => values [] ts) ps) = trailing '\\' (fill (literally (texts ts)) ps) := by
  refine trailing_fill (fun _ _ => hends) fun w hw => ?_
  by_cases hw' : w = placeholder
  · rw [hw', literally_placeholder]
    exact endsApart_texts hwholes hends
  · obtain ⟨d, rfl⟩ := hocc w hw
    rw [literally_of_ne hw']
    exact endsApart_occurrence d

/-- The placeholder and another match: the texts differ. -/
theorem not_both (hlegal : ∀ t ∈ ts, t.Legal) (hplaceholder : placeholder ∈ found ps) {c : Char}
    (hfound : occurrence c ∈ found ps) (hc : c ≠ '.') : False := by
  have hdollar := dollar_mem h hfound hc
  have hescapes : escapes ts ≠ 0 := by
    intro hzero
    obtain ⟨-, hno, hsame⟩ := plain_of_escapes hlegal hwholes hzero
    exact hno (hsame ▸ hdollar)
  have hlength := length_texts hwholes
  have hlong := long_of_escapes hwholes h hocc hplaceholder hescapes
  have hcount := countP_literally hwholes h hocc
  obtain ⟨qs, w, hqs, hw, hlast⟩ := exists_last_eq h (List.ne_nil_of_mem hplaceholder)
  have htrailing := trailing_literally hwholes fun w' hw' => hocc w' (hqs w' hw')
  have hvalues : values [] ts <:+ fill (fun _ => values [] ts) qs ++ values [] ts := List.suffix_append _ _
  have hliterally : literally (texts ts) w <:+ fill (fun _ => values [] ts) qs ++ values [] ts :=
    hlast ▸ List.suffix_append _ _
  by_cases hw' : w = placeholder
  · -- the home is longer, by the backslashes in front
    rw [hw', literally_placeholder] at hlast hliterally
    have hsuffix : values [] ts <:+ texts ts := List.suffix_of_suffix_length_le hvalues hliterally (by omega)
    have hsame := htrailing (endsApart_of_suffix hlegal hwholes hsuffix hdollar)
    have hfront := eq_replicate_append hsuffix (literally_placeholder (texts ts) ▸ hcount placeholder hplaceholder)
    have hzero := eq_zero_of_trailing_eq hsame (hlast.trans (congrArg _ hfront))
    omega
  · -- what it stands for is longer, in the same way
    obtain ⟨d, rfl⟩ := hocc w hw
    have hcount' := hcount _ hw
    rw [literally_of_ne hw'] at hlast hliterally hcount'
    have hsuffix : occurrence d <:+ values [] ts :=
      List.suffix_of_suffix_length_le hliterally hvalues (by rw [length_occurrence]; omega)
    have hfront := eq_replicate_append hsuffix hcount'.symm
    have hsame := htrailing (hfront ▸ endsApart_append (endsApart_occurrence d) _)
    have hzero := eq_zero_of_trailing_eq hsame.symm (hlast.symm.trans (congrArg _ hfront))
    rw [length_occurrence] at hzero
    omega

end Same

/-- Without the placeholder among the matches, each of them is replaced by itself. -/
theorem values_eq_of_same {ts : List ReplacementToken} {ps : List (Piece Char)}
    (h : fill (fun w => ReplacementToken.values w ts) ps = fill (literally (ReplacementToken.texts ts)) ps)
    (hocc : ∀ w ∈ found ps, ∃ c, w = occurrence c) (hother : ∀ w ∈ found ps, w ≠ placeholder) :
    ∀ w ∈ found ps, ReplacementToken.values w ts = w := by
  have hliterally : ∀ w ∈ found ps, literally (ReplacementToken.texts ts) w = w :=
    fun w hw => literally_of_ne (hother w hw) _
  have hlength : ∀ w ∈ found ps, w.length = 12 := by
    intro w hw
    obtain ⟨c, rfl⟩ := hocc w hw
    exact length_occurrence c
  have hsum := sum_length_eq h
  -- all replacements are of one length, and so are all matches
  have hsame : ∀ w ∈ found ps, (ReplacementToken.values w ts).length =
      (literally (ReplacementToken.texts ts) w).length := by
    by_cases hle : (ReplacementToken.values [] ts).length + wholes ts * 12 ≤ 12
    · refine eq_of_sum_eq_of_le (fun w hw => ?_) hsum
      rw [hliterally w hw, length_values, hlength w hw]
      exact hle
    · refine fun w hw => (eq_of_sum_eq_of_le (fun w hw => ?_) hsum.symm w hw).symm
      rw [hliterally w hw, length_values, hlength w hw]
      exact (Nat.lt_of_not_le hle).le
  exact fun w hw => (eq_of_fill_eq hsame h w hw).trans (hliterally w hw)

/-- **The condition is needed.** -/
theorem exact_of_processed {template home : String} (h : Processed template home) : Exact template home := by
  by_cases hnone : matchesOf template = []
  · exact .inl hnone
  obtain ⟨parts, hparts, -⟩ := of_bind_eq_ok h
  obtain ⟨group, out, hread⟩ := exists_read_of_mapM hparts hnone
  obtain ⟨ts, hlegal, htexts, hvalues⟩ := exists_tokens hread
  have hocc : ∀ w ∈ matchesOf template, ∃ c, w = occurrence c := fun w hw => mem_matchesOf hw
  have hsame := (processed_of_read (f := fun w => ReplacementToken.values w ts) fun w _ group hgroup => by
    rw [hvalues group, hgroup]
    rfl).mp h
  rw [htexts] at hsame
  by_cases hplaceholder : placeholder ∈ matchesOf template
  · refine .inr (.inl ?_)
    have hwholes := wholes_eq_zero hsame hplaceholder
    simp only [values_of_wholes hwholes] at hsame
    have hall : ∀ w ∈ matchesOf template, w = placeholder := by
      intro w hw
      obtain ⟨c, rfl⟩ := hocc w hw
      by_contra hother
      exact not_both hwholes hsame hocc hlegal hplaceholder hw fun hc => hother (by rw [hc, placeholder_eq])
    have hescapes : escapes ts = 0 := by
      refine escapes_eq_zero hwholes hsame hplaceholder fun w hw => ?_
      rw [hall w hw, literally_placeholder, length_texts hwholes]
      exact Nat.le_add_right _ _
    obtain ⟨hslash, hdollar, -⟩ := plain_of_escapes hlegal hwholes hescapes
    exact ⟨hall, htexts ▸ hslash, htexts ▸ hdollar⟩
  · refine .inr (.inr fun w hw => ?_)
    have hother : ∀ w ∈ matchesOf template, w ≠ placeholder := fun w hw heq => hplaceholder (heq ▸ hw)
    refine ⟨hother w hw, ?_⟩
    rw [hvalues, if_pos rfl, Option.getD_some]
    exact congrArg _ (values_eq_of_same hsame hocc hother w hw)

/-- **The literal replacement, exactly.**  For every template and every path of the home, `process` raises nothing and
replaces the placeholder, and that only, by the path itself if and only if nothing in the template matches, or only the
placeholder does and the path has neither a backslash nor a dollar, or only other texts match and the path, read as a
replacement, stands for each of them. -/
theorem processed_iff (template home : String) : Processed template home ↔ Exact template home :=
  ⟨exact_of_processed, processed_of_exact⟩

/-- A path with backslashes: they are lost. -/
theorem not_processed : ¬ Processed "$\x7bprog.home\x7d" "C:\\dynamy" := by
  intro h
  have hmatches : matchesOf "$\x7bprog.home\x7d" = [placeholder] := by decide
  rcases exact_of_processed h with hnone | ⟨-, hescape, -⟩ | hother
  · rw [hmatches] at hnone
    cases hnone
  · exact hescape (.tail _ (.tail _ (.head _)))
  · exact (hother placeholder (by rw [hmatches]; exact .head _)).1 rfl

end Dynamy.Kernel
