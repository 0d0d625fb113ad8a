import Dynamy.Lib.Regex
import Mathlib.Algebra.Order.BigOperators.Group.List
import Mathlib.Algebra.Order.Group.Nat
import Mathlib.Algebra.GroupWithZero.Nat
import Mathlib.Data.List.Induction

/-!
# Dynamy.Lib.Pieces — texts in which the matches are replaced

`fill f ps` is the text of the pieces `ps` with `f w` in the place of each match `w`.  When do two replacements give the
same text?  What is counted in the texts must agree (`sum_countP_eq`), replacements of the same lengths must agree one by
one (`eq_of_fill_eq`), and if no match of either ends in `b`, then both texts end in as many `b`s (`trailing_fill`).
-/

namespace Dynamy.Lib

variable {α : Type*}

def Piece.image (f : List α → List α) : Piece α → List α
  | .plain c => [c]
  | .matched w _ => f w

def fill (f : List α → List α) (ps : List (Piece α)) : List α := ps.flatMap (Piece.image f)

/-- The matches. -/
def found : List (Piece α) → List (List α)
  | [] => []
  | .plain _ :: ps => found ps
  | .matched w _ :: ps => w :: found ps

variable {f g : List α → List α} {ps qs : List (Piece α)} {w : List α}

@[simp] theorem fill_nil : fill f [] = [] := rfl

@[simp] theorem fill_plain (c : α) : fill f (.plain c :: ps) = c :: fill f ps := rfl

@[simp] theorem fill_matched (cs : Captures α) : fill f (.matched w cs :: ps) = f w ++ fill f ps := rfl

theorem fill_append : fill f (ps ++ qs) = fill f ps ++ fill f qs := List.flatMap_append

theorem found_append : found (ps ++ qs) = found ps ++ found qs := by
  induction ps with
  | nil => rfl
  | cons p ps ih =>
    cases p with
    | plain c => exact ih
    | matched w cs => exact congrArg (w :: ·) ih

/-- Only what the matches are replaced by matters. -/
theorem fill_congr (h : ∀ w ∈ found ps, f w = g w) : fill f ps = fill g ps := by
  induction ps with
  | nil => rfl
  | cons p ps ih =>
    cases p with
    | plain c => rw [fill_plain, fill_plain, ih h]
    | matched w cs =>
      obtain ⟨hw, hps⟩ := List.forall_mem_cons.mp h
      rw [fill_matched, fill_matched, hw, ih hps]

/-- What comes up to the last match, and after it. -/
theorem exists_last_match (h : found ps ≠ []) :
    ∃ qs w cs rs, ps = qs ++ .matched w cs :: rs ∧ found rs = [] := by
  induction ps with
  | nil => exact absurd rfl h
  | cons p ps ih =>
    by_cases hps : found ps = []
    · cases p with
      | plain c => exact absurd hps h
      | matched w cs => exact ⟨[], w, cs, ps, rfl, hps⟩
    · obtain ⟨qs, w, cs, rs, rfl, hrs⟩ := ih hps
      exact ⟨p :: qs, w, cs, rs, rfl, hrs⟩

/-- If two fillings are the same, then so they are up to the last match. -/
theorem exists_last_eq (h : fill f ps = fill g ps) (hfound : found ps ≠ []) :
    ∃ qs w, (∀ w' ∈ found qs, w' ∈ found ps) ∧ w ∈ found ps ∧ fill f qs ++ f w = fill g qs ++ g w := by
  obtain ⟨qs, w, cs, rs, rfl, hrs⟩ := exists_last_match hfound
  have hrest : fill f rs = fill g rs := by
    refine fill_congr fun w hw => ?_
    rw [hrs] at hw
    exact absurd hw List.not_mem_nil
  rw [fill_append, fill_append, fill_matched, fill_matched, hrest, ← List.append_assoc, ← List.append_assoc] at h
  rw [found_append]
  exact ⟨qs, w, fun w' hw' => List.mem_append_left _ hw', List.mem_append_right _ (.head _),
    List.append_cancel_right h⟩

/-! ### Counting -/

/-- Sums of the same value in which no term of the first is greater have the same terms. -/
theorem eq_of_sum_eq_of_le {β : Type*} {l : List β} {a b : β → ℕ} (hle : ∀ x ∈ l, a x ≤ b x)
    (hsum : (l.map a).sum = (l.map b).sum) : ∀ x ∈ l, a x = b x := by
  induction l with
  | nil => exact fun x hx => absurd hx List.not_mem_nil
  | cons y l ih =>
    obtain ⟨hy, hl⟩ := List.forall_mem_cons.mp hle
    rw [List.map_cons, List.map_cons, List.sum_cons, List.sum_cons] at hsum
    have hrest : (l.map a).sum ≤ (l.map b).sum := List.sum_le_sum hl
    refine List.forall_mem_cons.mpr ⟨by omega, ih hl (by omega)⟩

theorem countP_fill (f : List α → List α) (ps : List (Piece α)) (p : α → Bool) :
    (fill f ps).countP p =
      (fill (fun _ => []) ps).countP p + ((found ps).map fun w => (f w).countP p).sum := by
  induction ps with
  | nil => rfl
  | cons q ps ih =>
    cases q with
    | plain c =>
      rw [fill_plain, fill_plain, List.countP_cons, List.countP_cons, ih, found]
      omega
    | matched w cs =>
      rw [fill_matched, fill_matched, List.countP_append, ih, found, List.map_cons, List.sum_cons, List.nil_append]
      omega

/-- The replacements in two fillings of the same text have, all in all, as many elements of each kind. -/
theorem sum_countP_eq (h : fill f ps = fill g ps) (p : α → Bool) :
    ((found ps).map fun w => (f w).countP p).sum = ((found ps).map fun w => (g w).countP p).sum := by
  have hf := countP_fill f ps p
  rw [h, countP_fill g ps p] at hf
  exact (Nat.add_left_cancel hf).symm

theorem sum_length_eq (h : fill f ps = fill g ps) :
    ((found ps).map fun w => (f w).length).sum = ((found ps).map fun w => (g w).length).sum := by
  have hcount := sum_countP_eq h fun _ => true
  simpa only [List.countP_true] using hcount

/-- Replacements of the same lengths are the same. -/
theorem eq_of_fill_eq (hlen : ∀ w ∈ found ps, (f w).length = (g w).length) (h : fill f ps = fill g ps) :
    ∀ w ∈ found ps, f w = g w := by
  induction ps with
  | nil => exact fun w hw => absurd hw List.not_mem_nil
  | cons p ps ih =>
    cases p with
    | plain c => exact ih hlen (List.cons.inj h).2
    | matched w cs =>
      obtain ⟨hw, hps⟩ := List.forall_mem_cons.mp hlen
      obtain ⟨hfirst, hrest⟩ := List.append_inj h hw
      exact List.forall_mem_cons.mpr ⟨hfirst, ih hps hrest⟩

/-! ### The end -/

/-- The text ends, and not in `b`. -/
def EndsApart (b : α) (s : List α) : Prop := ∃ t c, s = t ++ [c] ∧ c ≠ b

section Trailing

variable {b : α}

theorem endsApart_append {t : List α} (ht : EndsApart b t) (s : List α) : EndsApart b (s ++ t) := by
  obtain ⟨t, c, rfl, hc⟩ := ht
  exact ⟨s ++ t, c, (List.append_assoc _ _ _).symm, hc⟩

variable [DecidableEq α]

/-- With how many `b`s a text ends. -/
def trailing (b : α) (s : List α) : ℕ := (s.reverse.takeWhile (· == b)).length

theorem trailing_append_self (s : List α) : trailing b (s ++ [b]) = trailing b s + 1 := by
  simp [trailing]

theorem trailing_append_of_ne {c : α} (hc : c ≠ b) (s : List α) : trailing b (s ++ [c]) = 0 := by
  simp [trailing, hc]

theorem trailing_append_replicate (s : List α) (k : ℕ) : trailing b (s ++ List.replicate k b) = trailing b s + k := by
  induction k with
  | zero => simp
  | succ k ih => rw [List.replicate_succ', ← List.append_assoc, trailing_append_self, ih, Nat.add_assoc]

theorem trailing_append_of_endsApart {t : List α} (ht : EndsApart b t) (s : List α) : trailing b (s ++ t) = 0 := by
  obtain ⟨t, c, rfl, hc⟩ := ht
  rw [← List.append_assoc, trailing_append_of_ne hc]

/-- Of two texts that end in as many `b`s, neither has more of them before the same end. -/
theorem eq_zero_of_trailing_eq {s t u : List α} {k : ℕ} (hsame : trailing b s = trailing b t)
    (h : s ++ u = t ++ (List.replicate k b ++ u)) : k = 0 := by
  rw [← List.append_assoc] at h
  rw [List.append_cancel_right h, trailing_append_replicate] at hsame
  omega

/-- Two fillings, none of whose matches ends in `b`, end in as many `b`s. -/
theorem trailing_fill (hf : ∀ w ∈ found ps, EndsApart b (f w)) (hg : ∀ w ∈ found ps, EndsApart b (g w)) :
    trailing b (fill f ps) = trailing b (fill g ps) := by
  induction ps using List.reverseRecOn with
  | nil => rfl
  | append_singleton ps p ih =>
    rw [found_append] at hf hg
    have ih' := ih (fun w hw => hf w (List.mem_append_left _ hw)) fun w hw => hg w (List.mem_append_left _ hw)
    rw [fill_append, fill_append]
    cases p with
    | plain c =>
      by_cases hc : c = b
      · subst hc
        exact (trailing_append_self _).trans ((congrArg (· + 1) ih').trans (trailing_append_self _).symm)
      · exact (trailing_append_of_ne hc _).trans (trailing_append_of_ne hc _).symm
    | matched w cs =>
      have hw : w ∈ found ps ++ found [.matched w cs] := List.mem_append_right _ List.mem_cons_self
      rw [fill_matched, fill_matched, fill_nil, fill_nil, List.append_nil, List.append_nil,
        trailing_append_of_endsApart (hf w hw), trailing_append_of_endsApart (hg w hw)]

end Trailing

end Dynamy.Lib
