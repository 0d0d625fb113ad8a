import Mathlib.Data.List.Basic
import Mathlib.Data.List.TakeDrop
import Mathlib.Data.List.Forall2

/-!
# Dynamy.Lib.Regex — regular expressions with groups, matched by backtracking

`Regex.results r s` are the ways in which `r` matches at the beginning of `s`, in the order in which a backtracking
matcher comes upon them: greedy choices first.  Each comes with the texts of the groups and the rest of `s`.  They are
the matches of the declarative `Regex.Matches` (`mem_results`).  `fullMatch` takes the first that leaves nothing over,
`pieces` cuts a text at the matches found in it from left to right.
-/

namespace Dynamy.Lib

variable {α : Type*}

inductive Regex (α : Type*)
  | empty
  | char (p : α → Bool)
  | seq (r t : Regex α)
  | opt (r : Regex α)
  | star (r : Regex α)
  | group (n : ℕ) (r : Regex α)

/-- The texts of the groups, in the order in which they were closed. -/
abbrev Captures (α : Type*) := List (ℕ × List α)

/-- The text of a group is the one that it matched last. -/
def Captures.text (cs : Captures α) (n : ℕ) : Option (List α) := cs.reverse.lookup n

namespace Regex

/-- One or more times. -/
def plus (r : Regex α) : Regex α := .seq r (.star r)

/-- One character after the other. -/
def word : List (α → Bool) → Regex α
  | [] => .empty
  | p :: ps => .seq (.char p) (word ps)

/-- What is left after trying `f` again and again, as long as it takes something. -/
def repeated (f : List α → List (Captures α × List α)) : ℕ → List α → List (Captures α × List α)
  | 0, s => [([], s)]
  | fuel + 1, s =>
    ((f s).filter fun m => m.2.length < s.length).flatMap
      (fun m => (repeated f fuel m.2).map fun m' => (m.1 ++ m'.1, m'.2)) ++ [([], s)]

def results : Regex α → List α → List (Captures α × List α)
  | .empty, s => [([], s)]
  | .char _, [] => []
  | .char p, c :: s => if p c then [([], s)] else []
  | .seq r t, s => (results r s).flatMap fun m => (results t m.2).map fun m' => (m.1 ++ m'.1, m'.2)
  | .opt r, s => results r s ++ [([], s)]
  | .star r, s => repeated (results r) s.length s
  | .group n r, s => (results r s).map fun m => (m.1 ++ [(n, s.take (s.length - m.2.length))], m.2)

-- their equations, for the proofs below
attribute [local simp] results repeated

/-- The first way to match the whole text. -/
def fullMatch (r : Regex α) (s : List α) : Option (Captures α) :=
  ((results r s).find? fun m => m.2.isEmpty).map Prod.fst

/-- The words that an expression matches, with the texts of its groups. -/
inductive Matches : Regex α → List α → Captures α → Prop
  | empty : Matches .empty [] []
  | char {p : α → Bool} {c : α} (hp : p c = true) : Matches (.char p) [c] []
  | seq {r t : Regex α} {v w : List α} {cs ds : Captures α} (hr : Matches r v cs) (ht : Matches t w ds) :
      Matches (.seq r t) (v ++ w) (cs ++ ds)
  | optSome {r : Regex α} {w : List α} {cs : Captures α} (hr : Matches r w cs) : Matches (.opt r) w cs
  | optNone {r : Regex α} : Matches (.opt r) [] []
  | starNil {r : Regex α} : Matches (.star r) [] []
  | starCons {r : Regex α} {v w : List α} {cs ds : Captures α} (hr : Matches r v cs) (hv : v ≠ [])
      (hs : Matches (.star r) w ds) : Matches (.star r) (v ++ w) (cs ++ ds)
  | group {n : ℕ} {r : Regex α} {w : List α} {cs : Captures α} (hr : Matches r w cs) :
      Matches (.group n r) w (cs ++ [(n, w)])

/-! ### Matches, one construct at a time -/

section Matches

variable {r t : Regex α} {w : List α} {cs : Captures α} {p : α → Bool} {n : ℕ}

theorem matches_empty_iff : Matches (.empty : Regex α) w cs ↔ w = [] ∧ cs = [] := by
  constructor
  · intro h
    cases h
    exact ⟨rfl, rfl⟩
  · rintro ⟨rfl, rfl⟩
    exact .empty

theorem matches_char_iff : Matches (.char p) w cs ↔ ∃ c, w = [c] ∧ cs = [] ∧ p c = true := by
  constructor
  · intro h
    cases h with
    | char hp => exact ⟨_, rfl, rfl, hp⟩
  · rintro ⟨c, rfl, rfl, hp⟩
    exact .char hp

theorem matches_seq_iff : Matches (.seq r t) w cs ↔
    ∃ v u cs₁ cs₂, w = v ++ u ∧ cs = cs₁ ++ cs₂ ∧ Matches r v cs₁ ∧ Matches t u cs₂ := by
  constructor
  · intro h
    cases h with
    | seq hr ht => exact ⟨_, _, _, _, rfl, rfl, hr, ht⟩
  · rintro ⟨v, u, cs₁, cs₂, rfl, rfl, hr, ht⟩
    exact .seq hr ht

theorem matches_opt_iff : Matches (.opt r) w cs ↔ Matches r w cs ∨ w = [] ∧ cs = [] := by
  constructor
  · intro h
    cases h with
    | optSome hr => exact .inl hr
    | optNone => exact .inr ⟨rfl, rfl⟩
  · rintro (hr | ⟨rfl, rfl⟩)
    · exact .optSome hr
    · exact .optNone

theorem matches_group_iff : Matches (.group n r) w cs ↔ ∃ cs', cs = cs' ++ [(n, w)] ∧ Matches r w cs' := by
  constructor
  · intro h
    cases h with
    | group hr => exact ⟨_, rfl, hr⟩
  · rintro ⟨cs', rfl, hr⟩
    exact .group hr

theorem matches_star_iff : Matches (.star r) w cs ↔ w = [] ∧ cs = [] ∨
    ∃ v u cs₁ cs₂, w = v ++ u ∧ cs = cs₁ ++ cs₂ ∧ v ≠ [] ∧ Matches r v cs₁ ∧ Matches (.star r) u cs₂ := by
  constructor
  · intro h
    cases h with
    | starNil => exact .inl ⟨rfl, rfl⟩
    | starCons hr hne hs => exact .inr ⟨_, _, _, _, rfl, rfl, hne, hr, hs⟩
  · rintro (⟨rfl, rfl⟩ | ⟨v, u, cs₁, cs₂, rfl, rfl, hne, hr, hs⟩)
    · exact .starNil
    · exact .starCons hr hne hs

theorem matches_star_char_iff : Matches (.star (.char p)) w cs ↔ cs = [] ∧ ∀ c ∈ w, p c = true := by
  constructor
  · intro h
    generalize ht : Regex.star (.char p) = t at h
    induction h with
    | starNil => exact ⟨rfl, fun c hc => absurd hc List.not_mem_nil⟩
    | starCons hr _ _ _ ih =>
      cases ht
      obtain ⟨c, rfl, rfl, hp⟩ := matches_char_iff.mp hr
      obtain ⟨rfl, hall⟩ := ih rfl
      refine ⟨rfl, fun d hd => ?_⟩
      rcases List.mem_cons.mp hd with rfl | hd
      · exact hp
      · exact hall d hd
    | _ => cases ht
  · rintro ⟨rfl, hall⟩
    induction w with
    | nil => exact .starNil
    | cons c w ih =>
      have hrest := ih fun d hd => hall d (List.mem_cons_of_mem c hd)
      exact .starCons (.char (hall c List.mem_cons_self)) (List.cons_ne_nil c []) hrest

theorem matches_plus_char_iff : Matches (plus (.char p)) w cs ↔ cs = [] ∧ w ≠ [] ∧ ∀ c ∈ w, p c = true := by
  rw [plus, matches_seq_iff]
  constructor
  · rintro ⟨v, u, cs₁, cs₂, rfl, rfl, hr, ht⟩
    obtain ⟨c, rfl, rfl, hp⟩ := matches_char_iff.mp hr
    obtain ⟨rfl, hall⟩ := matches_star_char_iff.mp ht
    refine ⟨rfl, List.cons_ne_nil c u, fun d hd => ?_⟩
    rcases List.mem_cons.mp hd with rfl | hd
    · exact hp
    · exact hall d hd
  · rintro ⟨rfl, hne, hall⟩
    obtain ⟨c, w, rfl⟩ := List.exists_cons_of_ne_nil hne
    exact ⟨[c], w, [], [], rfl, rfl, .char (hall c List.mem_cons_self),
      matches_star_char_iff.mpr ⟨rfl, fun d hd => hall d (List.mem_cons_of_mem c hd)⟩⟩

theorem matches_word_iff {ps : List (α → Bool)} :
    Matches (word ps) w cs ↔ cs = [] ∧ List.Forall₂ (fun p c => p c = true) ps w := by
  induction ps generalizing w cs with
  | nil =>
    rw [word, matches_empty_iff, List.forall₂_nil_left_iff, and_comm]
  | cons p ps ih =>
    rw [word, matches_seq_iff, List.forall₂_cons_left_iff]
    constructor
    · rintro ⟨v, u, cs₁, cs₂, rfl, rfl, hr, ht⟩
      obtain ⟨c, rfl, rfl, hp⟩ := matches_char_iff.mp hr
      obtain ⟨rfl, hall⟩ := ih.mp ht
      exact ⟨rfl, c, u, hp, hall, rfl⟩
    · rintro ⟨rfl, c, u, hp, hall, rfl⟩
      exact ⟨[c], u, [], [], rfl, rfl, .char hp, ih.mpr ⟨rfl, hall⟩⟩

end Matches

/-! ### The results are the matches -/

/-- A way on from one of the first ways. -/
theorem mem_continue {l : List (Captures α × List α)} {g : List α → List (Captures α × List α)} {cs : Captures α}
    {rest : List α} :
    (cs, rest) ∈ l.flatMap (fun m => (g m.2).map fun m' => (m.1 ++ m'.1, m'.2)) ↔
      ∃ cs₁ rest₁ cs₂, (cs₁, rest₁) ∈ l ∧ (cs₂, rest) ∈ g rest₁ ∧ cs = cs₁ ++ cs₂ := by
  rw [List.mem_flatMap]
  constructor
  · rintro ⟨⟨cs₁, rest₁⟩, hfirst, hmore⟩
    obtain ⟨⟨cs₂, rest₂⟩, hmem, heq⟩ := List.mem_map.mp hmore
    obtain ⟨rfl, rfl⟩ := Prod.mk.inj heq
    exact ⟨cs₁, rest₁, cs₂, hfirst, hmem, rfl⟩
  · rintro ⟨cs₁, rest₁, cs₂, hfirst, hmem, rfl⟩
    exact ⟨(cs₁, rest₁), hfirst, List.mem_map.mpr ⟨(cs₂, rest), hmem, rfl⟩⟩

theorem mem_repeated {r : Regex α} (hr : ∀ s cs rest, (cs, rest) ∈ results r s ↔ ∃ w, s = w ++ rest ∧ Matches r w cs)
    (fuel : ℕ) {s : List α} (hs : s.length ≤ fuel) (cs : Captures α) (rest : List α) :
    (cs, rest) ∈ repeated (results r) fuel s ↔ ∃ w, s = w ++ rest ∧ Matches (.star r) w cs := by
  induction fuel generalizing s cs with
  | zero =>
    obtain rfl : s = [] := List.length_eq_zero_iff.mp (Nat.le_zero.mp hs)
    rw [repeated, List.mem_singleton, Prod.mk.injEq]
    constructor
    · rintro ⟨rfl, rfl⟩
      exact ⟨[], rfl, .starNil⟩
    · rintro ⟨w, hw, hm⟩
      obtain ⟨rfl, rfl⟩ := List.append_eq_nil_iff.mp hw.symm
      rcases matches_star_iff.mp hm with ⟨-, rfl⟩ | ⟨v, u, cs₁, cs₂, huv, -, hne, -, -⟩
      · exact ⟨rfl, rfl⟩
      · exact absurd (List.append_eq_nil_iff.mp huv.symm).1 hne
  | succ fuel ih =>
    rw [repeated, List.mem_append, mem_continue, List.mem_singleton, Prod.mk.injEq]
    constructor
    · rintro (⟨cs₁, rest₁, cs₂, hfirst, hmem, rfl⟩ | ⟨rfl, rfl⟩)
      · obtain ⟨hfirst, hlt⟩ := List.mem_filter.mp hfirst
        obtain ⟨v, rfl, hv⟩ := (hr _ _ _).mp hfirst
        simp only [List.length_append, decide_eq_true_eq] at hlt hs
        have hfuel : rest₁.length ≤ fuel := by omega
        obtain ⟨w, rfl, hw⟩ := (ih hfuel _).mp hmem
        have hne : v ≠ [] := by
          rintro rfl
          simp at hlt
        exact ⟨v ++ w, (List.append_assoc _ _ _).symm, .starCons hv hne hw⟩
      · exact ⟨[], rfl, .starNil⟩
    · rintro ⟨u, rfl, hm⟩
      rcases matches_star_iff.mp hm with ⟨rfl, rfl⟩ | ⟨v, w, cs₁, cs₂, rfl, rfl, hne, hv, hw⟩
      · exact .inr ⟨rfl, rfl⟩
      · have hpos : 0 < v.length := List.length_pos_iff.mpr hne
        simp only [List.length_append] at hs
        have hfirst : (cs₁, w ++ rest) ∈ results r (v ++ w ++ rest) := (hr _ _ _).mpr ⟨v, List.append_assoc _ _ _, hv⟩
        refine .inl ⟨cs₁, w ++ rest, cs₂, List.mem_filter.mpr ⟨hfirst, ?_⟩, (ih ?_ _).mpr ⟨w, rfl, hw⟩, rfl⟩
        · simp only [List.length_append, decide_eq_true_eq]
          omega
        · simp only [List.length_append]
          omega

theorem mem_results_char {p : α → Bool} {s rest : List α} {cs : Captures α} :
    (cs, rest) ∈ results (.char p) s ↔ ∃ c, s = c :: rest ∧ cs = [] ∧ p c = true := by
  cases s with
  | nil =>
    refine iff_of_false List.not_mem_nil ?_
    rintro ⟨c, hc, -⟩
    cases hc
  | cons c s =>
    rw [results]
    by_cases hp : p c = true
    · rw [if_pos hp, List.mem_singleton, Prod.mk.injEq]
      constructor
      · rintro ⟨rfl, rfl⟩
        exact ⟨c, rfl, rfl, hp⟩
      · rintro ⟨d, hcd, rfl, -⟩
        exact ⟨rfl, (List.cons.inj hcd).2.symm⟩
    · rw [if_neg hp]
      refine iff_of_false List.not_mem_nil ?_
      rintro ⟨d, hcd, -, hpd⟩
      exact hp ((List.cons.inj hcd).1 ▸ hpd)

/-- **The results are the matches**: a match of a beginning of the text, with what comes after it. -/
theorem mem_results (r : Regex α) (s : List α) (cs : Captures α) (rest : List α) :
    (cs, rest) ∈ results r s ↔ ∃ w, s = w ++ rest ∧ Matches r w cs := by
  induction r generalizing s cs rest with
  | empty =>
    rw [results, List.mem_singleton, Prod.mk.injEq]
    simp only [matches_empty_iff]
    constructor
    · rintro ⟨rfl, rfl⟩
      exact ⟨[], rfl, rfl, rfl⟩
    · rintro ⟨w, rfl, rfl, rfl⟩
      exact ⟨rfl, rfl⟩
  | char p =>
    rw [mem_results_char]
    simp only [matches_char_iff]
    constructor
    · rintro ⟨c, rfl, rfl, hp⟩
      exact ⟨[c], rfl, c, rfl, rfl, hp⟩
    · rintro ⟨w, rfl, c, rfl, rfl, hp⟩
      exact ⟨c, rfl, rfl, hp⟩
  | seq r t ihr iht =>
    rw [results, mem_continue]
    simp only [matches_seq_iff]
    constructor
    · rintro ⟨cs₁, rest₁, cs₂, hfirst, hsecond, rfl⟩
      obtain ⟨v, rfl, hv⟩ := (ihr _ _ _).mp hfirst
      obtain ⟨u, rfl, hu⟩ := (iht _ _ _).mp hsecond
      exact ⟨v ++ u, (List.append_assoc _ _ _).symm, v, u, cs₁, cs₂, rfl, rfl, hv, hu⟩
    · rintro ⟨w, rfl, v, u, cs₁, cs₂, rfl, rfl, hv, hu⟩
      exact ⟨cs₁, u ++ rest, cs₂, (ihr _ _ _).mpr ⟨v, List.append_assoc _ _ _, hv⟩, (iht _ _ _).mpr ⟨u, rfl, hu⟩, rfl⟩
  | opt r ih =>
    rw [results, List.mem_append, List.mem_singleton, Prod.mk.injEq, ih]
    simp only [matches_opt_iff]
    constructor
    · rintro (⟨w, rfl, hw⟩ | ⟨rfl, rfl⟩)
      · exact ⟨w, rfl, .inl hw⟩
      · exact ⟨[], rfl, .inr ⟨rfl, rfl⟩⟩
    · rintro ⟨w, rfl, hw | ⟨rfl, rfl⟩⟩
      · exact .inl ⟨w, rfl, hw⟩
      · exact .inr ⟨rfl, rfl⟩
  | star r ih => exact mem_repeated ih s.length (Nat.le_refl _) cs rest
  | group n r ih =>
    rw [results, List.mem_map]
    simp only [matches_group_iff]
    constructor
    · rintro ⟨⟨cs₁, rest₁⟩, hmem, heq⟩
      obtain ⟨rfl, rfl⟩ := Prod.mk.inj heq
      obtain ⟨w, rfl, hw⟩ := (ih _ _ _).mp hmem
      refine ⟨w, rfl, cs₁, ?_, hw⟩
      rw [List.length_append, Nat.add_sub_cancel, List.take_left]
    · rintro ⟨w, rfl, cs₁, rfl, hw⟩
      refine ⟨(cs₁, rest), (ih _ _ _).mpr ⟨w, rfl, hw⟩, ?_⟩
      rw [List.length_append, Nat.add_sub_cancel, List.take_left]

theorem matches_of_fullMatch {r : Regex α} {s : List α} {cs : Captures α} (h : fullMatch r s = some cs) :
    Matches r s cs := by
  obtain ⟨⟨cs', rest⟩, hfind, rfl⟩ := Option.map_eq_some_iff.mp h
  have hrest := List.find?_some hfind
  obtain rfl : rest = [] := List.isEmpty_iff.mp hrest
  obtain ⟨w, hw, hm⟩ := (mem_results r s cs' []).mp (List.mem_of_find?_eq_some hfind)
  rwa [hw, List.append_nil]

/-- A text that can be matched is matched, if perhaps in another way. -/
theorem exists_fullMatch {r : Regex α} {s : List α} {cs : Captures α} (h : Matches r s cs) :
    ∃ ds, fullMatch r s = some ds := by
  have hmem : (cs, []) ∈ results r s := (mem_results r s cs []).mpr ⟨s, (List.append_nil s).symm, h⟩
  have hfound : ((results r s).find? fun m => m.2.isEmpty).isSome := List.find?_isSome.mpr ⟨(cs, []), hmem, rfl⟩
  obtain ⟨m, hm⟩ := Option.isSome_iff_exists.mp hfound
  exact ⟨m.1, by rw [fullMatch, hm]; rfl⟩

/-! ### The first choice -/

variable {r t : Regex α} {s rest : List α} {cs ds : Captures α}

theorem fullMatch_of_head (h : (results r s).head? = some (cs, [])) : fullMatch r s = some cs := by
  obtain ⟨more, hmore⟩ := List.head?_eq_some_iff.mp h
  rw [fullMatch, hmore]
  rfl

/-- A sequence is matched with the first choice for its first part, if the second part then matches the rest. -/
theorem fullMatch_seq (h : (results r s).head? = some (cs, rest)) (ht : fullMatch t rest = some ds) :
    fullMatch (.seq r t) s = some (cs ++ ds) := by
  obtain ⟨more, hmore⟩ := List.head?_eq_some_iff.mp h
  obtain ⟨⟨ds', rest'⟩, hfind, rfl⟩ := Option.map_eq_some_iff.mp ht
  rw [fullMatch, results, hmore, List.flatMap_cons, List.find?_append, List.find?_map]
  simp only [Function.comp_def]
  rw [hfind]
  rfl

theorem head_seq (h : (results r s).head? = some (cs, rest)) {rest' : List α}
    (ht : (results t rest).head? = some (ds, rest')) : (results (.seq r t) s).head? = some (cs ++ ds, rest') := by
  obtain ⟨more, hmore⟩ := List.head?_eq_some_iff.mp h
  obtain ⟨more', hmore'⟩ := List.head?_eq_some_iff.mp ht
  rw [results, hmore, List.flatMap_cons, hmore']
  rfl

theorem head_opt (h : (results r s).head? = some (cs, rest)) : (results (.opt r) s).head? = some (cs, rest) := by
  rw [results, List.head?_append, h]
  rfl

/-- An option is left out where it does not match. -/
theorem head_opt_of_nil (h : results r s = []) : (results (.opt r) s).head? = some ([], s) := by
  rw [results, h]
  rfl

theorem head_group {n : ℕ} (h : (results r s).head? = some (cs, rest)) :
    (results (.group n r) s).head? = some (cs ++ [(n, s.take (s.length - rest.length))], rest) := by
  rw [results, List.head?_map, h]
  rfl

/-- A star of characters takes all that it can. -/
theorem head_star_char (p : α → Bool) (s : List α) :
    (results (.star (.char p)) s).head? = some ([], s.dropWhile p) := by
  have hrepeated : ∀ (fuel : ℕ) (s : List α), s.length ≤ fuel →
      (repeated (results (.char p)) fuel s).head? = some ([], s.dropWhile p) := by
    intro fuel
    induction fuel with
    | zero =>
      intro s hs
      obtain rfl : s = [] := List.length_eq_zero_iff.mp (Nat.le_zero.mp hs)
      rfl
    | succ fuel ih =>
      intro s hs
      cases s with
      | nil => rfl
      | cons c s =>
        rw [List.length_cons, Nat.succ_le_succ_iff] at hs
        by_cases hp : p c = true
        · obtain ⟨more, hmore⟩ := List.head?_eq_some_iff.mp (ih s hs)
          rw [repeated, results, if_pos hp, List.dropWhile_cons_of_pos hp]
          simp [hmore]
        · rw [repeated, results, if_neg hp, List.dropWhile_cons_of_neg hp]
          rfl
  exact hrepeated s.length s (Nat.le_refl _)

theorem head_plus_char {p : α → Bool} {c : α} (hp : p c = true) (s : List α) :
    (results (plus (.char p)) (c :: s)).head? = some ([], s.dropWhile p) := by
  have hfirst : (results (.char p) (c :: s)).head? = some ([], s) := by
    rw [results, if_pos hp]
    rfl
  exact head_seq hfirst (head_star_char p s)

/-! ### Words -/

/-- A word of characters matches in one way at most. -/
theorem results_word (ps : List (α → Bool)) (s : List α) :
    (results (word ps) s = [] ∧ ∀ w rest, s = w ++ rest → ¬ List.Forall₂ (fun p c => p c = true) ps w) ∨
      ∃ w rest, s = w ++ rest ∧ List.Forall₂ (fun p c => p c = true) ps w ∧ results (word ps) s = [([], rest)] := by
  induction ps generalizing s with
  | nil => exact .inr ⟨[], s, rfl, .nil, rfl⟩
  | cons p ps ih =>
    cases s with
    | nil =>
      refine .inl ⟨rfl, fun w rest hw hall => ?_⟩
      obtain ⟨rfl, -⟩ := List.append_eq_nil_iff.mp hw.symm
      cases hall
    | cons c s =>
      by_cases hp : p c = true
      · have hsplit : results (word (p :: ps)) (c :: s) = results (word ps) s := by
          simp [word, hp]
        rcases ih s with ⟨hnil, hnone⟩ | ⟨w, rest, rfl, hall, hone⟩
        · refine .inl ⟨hsplit.trans hnil, fun w rest hw hall => ?_⟩
          cases hall with
          | cons _ hall =>
            rw [List.cons_append, List.cons.injEq] at hw
            exact hnone _ rest hw.2 hall
        · exact .inr ⟨c :: w, rest, rfl, .cons hp hall, hsplit.trans hone⟩
      · refine .inl ⟨by simp [word, hp], fun w rest hw hall => ?_⟩
        cases hall with
        | cons hpc _ =>
          rw [List.cons_append, List.cons.injEq] at hw
          exact hp (hw.1 ▸ hpc)

end Regex

/-! ### Finding -/

/-- A piece of a text: a character between the matches, or a match. -/
inductive Piece (α : Type*)
  | plain (c : α)
  | matched (w : List α) (cs : Captures α)

/-- The pieces of a text, as far as the fuel lasts: at each place the first choice of the expression is a match, and
after an empty one the next character stands by itself. -/
def Regex.piecesFrom (r : Regex α) : ℕ → List α → List (Piece α)
  | 0, _ => []
  | _ + 1, [] =>
    match (r.results []).head? with
    | none => []
    | some (cs, _) => [.matched [] cs]
  | fuel + 1, c :: s =>
    match (r.results (c :: s)).head? with
    | none => .plain c :: piecesFrom r fuel s
    | some (cs, rest) =>
      if rest.length < (c :: s).length then
        .matched ((c :: s).take ((c :: s).length - rest.length)) cs :: piecesFrom r fuel rest
      else .matched [] cs :: .plain c :: piecesFrom r fuel s

def Regex.pieces (r : Regex α) (s : List α) : List (Piece α) := r.piecesFrom (s.length + 1) s

namespace Regex

theorem piecesFrom_fuel (r : Regex α) {fuel fuel' : ℕ} {s : List α} (h : s.length < fuel) (h' : s.length < fuel') :
    r.piecesFrom fuel s = r.piecesFrom fuel' s := by
  induction fuel generalizing fuel' s with
  | zero => exact absurd h (Nat.not_lt_zero _)
  | succ fuel ih =>
    cases fuel' with
    | zero => exact absurd h' (Nat.not_lt_zero _)
    | succ fuel' =>
      cases s with
      | nil => rfl
      | cons c s =>
        rw [List.length_cons, Nat.succ_lt_succ_iff] at h h'
        unfold piecesFrom
        rcases (r.results (c :: s)).head? with _ | ⟨cs, rest⟩
        · dsimp only
          rw [ih h h']
        · dsimp only
          split
          · rename_i hlt
            rw [List.length_cons, Nat.lt_succ_iff] at hlt
            rw [ih (Nat.lt_of_le_of_lt hlt h) (Nat.lt_of_le_of_lt hlt h')]
          · rw [ih h h']

variable {ps : List (α → Bool)}

theorem pieces_word_nil (hps : ps ≠ []) : (word ps).pieces ([] : List α) = [] := by
  obtain ⟨p, ps, rfl⟩ := List.exists_cons_of_ne_nil hps
  rfl

/-- At a place where the word does not match the text goes on. -/
theorem pieces_word_cons {c : α} {s : List α}
    (h : ∀ w rest, c :: s = w ++ rest → ¬ List.Forall₂ (fun p c => p c = true) ps w) :
    (word ps).pieces (c :: s) = .plain c :: (word ps).pieces s := by
  rcases results_word ps (c :: s) with ⟨hnil, -⟩ | ⟨w, rest, hw, hall, -⟩
  · rw [pieces, piecesFrom, hnil]
    rfl
  · exact absurd hall (h w rest hw)

theorem pieces_word_append (hps : ps ≠ []) {w : List α} (hw : List.Forall₂ (fun p c => p c = true) ps w)
    (rest : List α) : (word ps).pieces (w ++ rest) = .matched w [] :: (word ps).pieces rest := by
  have hlen : w.length = ps.length := (List.Forall₂.length_eq hw).symm
  have hpos : 0 < w.length := by
    rw [hlen]
    exact List.length_pos_iff.mpr hps
  rcases results_word ps (w ++ rest) with ⟨-, hnone⟩ | ⟨w', rest', hsplit, hall, hone⟩
  · exact absurd hw (hnone w rest rfl)
  · obtain ⟨rfl, rfl⟩ := List.append_inj hsplit (hlen.trans (List.Forall₂.length_eq hall))
    obtain ⟨c, w, rfl⟩ := List.exists_cons_of_ne_nil (List.length_pos_iff.mp hpos)
    rw [pieces, List.cons_append, piecesFrom, ← List.cons_append, hone, List.head?_cons]
    dsimp only
    rw [if_pos (by rw [List.length_append]; omega), List.length_append, Nat.add_sub_cancel, List.take_left]
    rw [piecesFrom_fuel (word ps) (by omega) (Nat.lt_succ_self rest.length)]
    rfl

/-- **Induction on the pieces of a text** for the matches of a word: the end, a place where the word does not match, and
a match. -/
theorem pieces_word_induction (hps : ps ≠ []) {motive : List α → List (Piece α) → Prop} (hnil : motive [] [])
    (hplain : ∀ c s, (∀ w rest, c :: s = w ++ rest → ¬ List.Forall₂ (fun p c => p c = true) ps w) →
      motive s ((word ps).pieces s) → motive (c :: s) (.plain c :: (word ps).pieces s))
    (hmatched : ∀ w rest, List.Forall₂ (fun p c => p c = true) ps w →
      motive rest ((word ps).pieces rest) → motive (w ++ rest) (.matched w [] :: (word ps).pieces rest))
    (s : List α) : motive s ((word ps).pieces s) := by
  induction hlen : s.length using Nat.strongRecOn generalizing s with
  | _ n ih =>
    cases s with
    | nil =>
      rw [pieces_word_nil hps]
      exact hnil
    | cons c s =>
      rw [List.length_cons] at hlen
      by_cases h : ∃ w rest, c :: s = w ++ rest ∧ List.Forall₂ (fun p c => p c = true) ps w
      · obtain ⟨w, rest, hsplit, hw⟩ := h
        have hpos : 0 < w.length := by
          rw [← List.Forall₂.length_eq hw]
          exact List.length_pos_iff.mpr hps
        have hlength := congrArg List.length hsplit
        rw [List.length_cons, List.length_append] at hlength
        rw [hsplit, pieces_word_append hps hw]
        exact hmatched w rest hw (ih rest.length (by omega) rest rfl)
      · have hnone : ∀ w rest, c :: s = w ++ rest → ¬ List.Forall₂ (fun p c => p c = true) ps w :=
          fun w rest hsplit hw => h ⟨w, rest, hsplit, hw⟩
        rw [pieces_word_cons hnone]
        exact hplain c s hnone (ih s.length (by omega) s rfl)

end Regex

end Dynamy.Lib
