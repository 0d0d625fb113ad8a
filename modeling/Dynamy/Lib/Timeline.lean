import Dynamy.Lib.Prog
import Mathlib.Data.List.Forall2

/-!
# Dynamy.Lib.Timeline — the moments of what is seen

For programs whose state holds a clock that never goes back.  `Timed A p` says that the events of any run of `p` can be
given moments, in order and within the run, so that `A` holds of each event and its moment.  What an event says of the
outside is then so at a moment between those of any events around it (`Timeline.between`).
-/

namespace Dynamy.Lib

variable {ω : Type} {A : ω → ℕ → Prop} {b m e : ℕ} {es es' : List ω} {ts ts' : List ℕ}

/-- Moments from `b` to `e` for some events. -/
structure Timeline (A : ω → ℕ → Prop) (b e : ℕ) (es : List ω) (ts : List ℕ) : Prop where
  holds : List.Forall₂ A es ts
  sorted : ts.Pairwise (· ≤ ·)
  within : ∀ t ∈ ts, b ≤ t ∧ t ≤ e

theorem timeline_nil : Timeline A b e [] [] := ⟨.nil, .nil, fun _ ht => (List.not_mem_nil ht).elim⟩

theorem timeline_singleton {w : ω} {t : ℕ} (h : A w t) (hb : b ≤ t) (he : t ≤ e) : Timeline A b e [w] [t] where
  holds := .cons h .nil
  sorted := List.pairwise_singleton _ t
  within _ ht := List.mem_singleton.mp ht ▸ ⟨hb, he⟩

theorem Timeline.append (h : Timeline A b m es ts) (h' : Timeline A m e es' ts') (hb : b ≤ m) (he : m ≤ e) :
    Timeline A b e (es ++ es') (ts ++ ts') where
  holds := List.rel_append h.holds h'.holds
  sorted := List.pairwise_append.mpr
    ⟨h.sorted, h'.sorted, fun t ht t' ht' => Nat.le_trans (h.within t ht).2 (h'.within t' ht').1⟩
  within t ht := by
    rcases List.mem_append.mp ht with ht | ht
    · exact ⟨(h.within t ht).1, Nat.le_trans (h.within t ht).2 he⟩
    · exact ⟨Nat.le_trans hb (h'.within t ht).1, (h'.within t ht).2⟩

/-- What holds of an event holds at a moment between those of an event before it and one after it. -/
theorem Timeline.between (h : Timeline A b e es ts) {i j k : ℕ} (hij : i ≤ j) (hjk : j ≤ k) (hk : k < es.length) {w : ω}
    (hw : es[j]? = some w) : ∃ t₀ t t₁, ts[i]? = some t₀ ∧ ts[k]? = some t₁ ∧ t₀ ≤ t ∧ t ≤ t₁ ∧ A w t := by
  have hlength : es.length = ts.length := h.holds.length_eq
  have hmono := List.pairwise_iff_getElem.mp h.sorted
  have hle : ∀ x y (hx : x < ts.length) (hy : y < ts.length), x ≤ y → ts[x] ≤ ts[y] := by
    intro x y hx hy hxy
    rcases Nat.eq_or_lt_of_le hxy with rfl | hlt
    · exact Nat.le_refl _
    · exact hmono x y hx hy hlt
  have hj : j < ts.length := by omega
  refine ⟨ts[i], ts[j], ts[k], List.getElem?_eq_getElem _, List.getElem?_eq_getElem _, hle i j _ hj hij, hle j k hj _ hjk, ?_⟩
  have hat := h.holds.get (by omega) hj
  rw [List.getElem?_eq_getElem (by omega), Option.some.injEq] at hw
  exact hw ▸ hat

/-! ### Programs with a clock -/

namespace Prog

variable {σ ε α β : Type} {clock : σ → ℕ} {p : Prog ω σ ε α} {f : α → Prog ω σ ε β} {h : ε → Prog ω σ ε α}

/-- The clock does not go back, and what is seen has moments within the run. -/
def Timed (clock : σ → ℕ) (A : ω → ℕ → Prop) (p : Prog ω σ ε α) : Prop :=
  ∀ s, clock s ≤ clock (run p s).state ∧
    ∃ ts, Timeline A (clock s) (clock (run p s).state) (run p s).events ts

theorem timed_pure (a : α) : Timed clock A (pure a : Prog ω σ ε α) := fun _ => ⟨Nat.le_refl _, [], timeline_nil⟩

theorem timed_raise (x : ε) : Timed clock A (raise x : Prog ω σ ε α) := fun _ => ⟨Nat.le_refl _, [], timeline_nil⟩

theorem timed_read : Timed clock A (read : Prog ω σ ε σ) := fun _ => ⟨Nat.le_refl _, [], timeline_nil⟩

theorem timed_ofExcept (x : Except ε α) : Timed clock A (ofExcept x : Prog ω σ ε α) := by
  cases x with
  | ok a => exact timed_pure a
  | error x => exact timed_raise x

theorem timed_update {g : σ → σ} (hg : ∀ s, clock s ≤ clock (g s)) : Timed clock A (update g : Prog ω σ ε Unit) :=
  fun s => ⟨hg s, [], timeline_nil⟩

theorem timed_emit {w : ω} (hw : ∀ t, A w t) : Timed clock A (emit w : Prog ω σ ε Unit) :=
  fun s => ⟨Nat.le_refl _, [clock s], timeline_singleton (hw _) (Nat.le_refl _) (Nat.le_refl _)⟩

/-- **Sequence rule**. -/
theorem Timed.bind (hp : Timed clock A p) (hf : ∀ a, Timed clock A (f a)) : Timed clock A (p >>= f) := by
  intro s
  have hs := hp s
  rw [run_bind]
  rcases hrun : run p s with ⟨r, t, es⟩
  rw [hrun] at hs
  cases r with
  | error x => exact hs
  | ok a =>
    obtain ⟨hle, ts, hts⟩ := hs
    obtain ⟨hle', ts', hts'⟩ := hf a t
    exact ⟨Nat.le_trans hle hle', ts ++ ts', hts.append hts' hle hle'⟩

theorem Timed.attempt (hp : Timed clock A p) (hh : ∀ x, Timed clock A (h x)) : Timed clock A (Prog.attempt p h) := by
  intro s
  have hs := hp s
  rw [run_attempt]
  rcases hrun : run p s with ⟨r, t, es⟩
  rw [hrun] at hs
  cases r with
  | ok a => exact hs
  | error x =>
    obtain ⟨hle, ts, hts⟩ := hs
    obtain ⟨hle', ts', hts'⟩ := hh x t
    exact ⟨Nat.le_trans hle hle', ts ++ ts', hts.append hts' hle hle'⟩

end Prog

end Dynamy.Lib
