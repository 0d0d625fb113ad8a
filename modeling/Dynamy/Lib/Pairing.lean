import Mathlib.Logic.Function.Basic

/-!
# Dynamy.Lib.Pairing — two maps that pair each other's keys

`f` and `g` are maps (partial functions) that should be inverse to each other, but a pair is entered and removed in
two steps, first in `f` and then in `g`.  `Linked f g opening closing` says that they are inverse except for the
pairs that are just being entered (`opening`) or removed (`closing`).  There is one rule for each of the four steps,
with the state in which the step has to find the other half of its pair.
-/

namespace Dynamy.Lib

variable {α β : Type*}

structure Linked (f : α → Option β) (g : β → Option α) (opening closing : α → β → Prop) : Prop where
  fwd : ∀ a b, f a = some b → g b = some a ∨ opening a b
  bwd : ∀ a b, g b = some a → f a = some b ∨ closing a b

variable {f : α → Option β} {g : β → Option α} {opening closing opening' closing' : α → β → Prop} {a : α} {b : β}

namespace Linked

/-- Between steps the maps are inverse to each other. -/
theorem inverse (h : Linked f g opening closing) (ho : ∀ a b, ¬ opening a b) (hc : ∀ a b, ¬ closing a b) (a : α)
    (b : β) : f a = some b ↔ g b = some a :=
  ⟨fun hf => (h.fwd a b hf).resolve_right (ho a b), fun hg => (h.bwd a b hg).resolve_right (hc a b)⟩

theorem mono (h : Linked f g opening closing) (ho : ∀ a b, opening a b → opening' a b)
    (hc : ∀ a b, closing a b → closing' a b) : Linked f g opening' closing' :=
  ⟨fun a b hf => (h.fwd a b hf).imp_right (ho a b), fun a b hg => (h.bwd a b hg).imp_right (hc a b)⟩

section Forward

variable [DecidableEq α]

/-- The first half of entering `(a, b)` finds no entry of `a` but that one. -/
theorem putFwd (h : Linked f g opening closing) (hf : f a = none ∨ f a = some b) (hab : opening a b) :
    Linked (Function.update f a (some b)) g opening closing := by
  refine ⟨fun x y hxy => ?_, fun x y hg => ?_⟩
  · by_cases hx : x = a
    · subst hx
      rw [Function.update_self, Option.some.injEq] at hxy
      exact .inr (hxy ▸ hab)
    · rw [Function.update_of_ne hx] at hxy
      exact h.fwd x y hxy
  · rcases h.bwd x y hg with hxy | hc
    · by_cases hx : x = a
      · subst hx
        rcases hf with hf | hf
        · rw [hf] at hxy
          cases hxy
        · exact .inl (by rw [Function.update_self, ← hf, hxy])
      · exact .inl (by rw [Function.update_of_ne hx, hxy])
    · exact .inr hc

/-- The first half of removing `(a, b)` finds no entry of `a` but that one. -/
theorem removeFwd (h : Linked f g opening closing) (hf : f a = none ∨ f a = some b) (hab : closing a b) :
    Linked (Function.update f a none) g opening closing := by
  refine ⟨fun x y hxy => ?_, fun x y hg => ?_⟩
  · by_cases hx : x = a
    · rw [hx, Function.update_self] at hxy
      cases hxy
    · rw [Function.update_of_ne hx] at hxy
      exact h.fwd x y hxy
  · rcases h.bwd x y hg with hxy | hc
    · by_cases hx : x = a
      · subst hx
        rcases hf with hf | hf
        · rw [hf] at hxy
          cases hxy
        · obtain rfl : b = y := by rw [hf, Option.some.injEq] at hxy; exact hxy
          exact .inr hab
      · exact .inl (by rw [Function.update_of_ne hx, hxy])
    · exact .inr hc

end Forward

section Backward

variable [DecidableEq β]

/-- The second half of entering `(a, b)` finds the first half in place and no other entry of `b`. -/
theorem putBwd (h : Linked f g opening closing) (hf : f a = some b) (hg : g b = none ∨ g b = some a)
    (ho : ∀ x y, opening x y → (x = a ∧ y = b) ∨ opening' x y) :
    Linked f (Function.update g b (some a)) opening' closing := by
  refine ⟨fun x y hxy => ?_, fun x y hyx => ?_⟩
  · by_cases hy : y = b
    · subst hy
      rcases h.fwd x y hxy with hgy | hop
      · rcases hg with hg | hg
        · rw [hg] at hgy
          cases hgy
        · rw [hg] at hgy
          exact .inl (by rw [Function.update_self, hgy])
      · rcases ho x y hop with ⟨rfl, -⟩ | hop
        · exact .inl (Function.update_self ..)
        · exact .inr hop
    · rw [Function.update_of_ne hy]
      rcases h.fwd x y hxy with hgy | hop
      · exact .inl hgy
      · exact .inr ((ho x y hop).resolve_left fun he => hy he.2)
  · by_cases hy : y = b
    · subst hy
      rw [Function.update_self, Option.some.injEq] at hyx
      exact .inl (hyx ▸ hf)
    · rw [Function.update_of_ne hy] at hyx
      exact h.bwd x y hyx

/-- The second half of removing `(a, b)` finds the first half done and no entry of `b` but that one. -/
theorem removeBwd (h : Linked f g opening closing) (hf : f a ≠ some b) (hg : g b = none ∨ g b = some a)
    (hc : ∀ x y, closing x y → (x = a ∧ y = b) ∨ closing' x y) :
    Linked f (Function.update g b none) opening closing' := by
  refine ⟨fun x y hxy => ?_, fun x y hyx => ?_⟩
  · by_cases hy : y = b
    · subst hy
      rcases h.fwd x y hxy with hgy | hop
      · rcases hg with hg | hg
        · rw [hg] at hgy
          cases hgy
        · obtain rfl : a = x := by rw [hg, Option.some.injEq] at hgy; exact hgy
          exact absurd hxy hf
      · exact .inr hop
    · rw [Function.update_of_ne hy]
      exact h.fwd x y hxy
  · by_cases hy : y = b
    · rw [hy, Function.update_self] at hyx
      cases hyx
    · rw [Function.update_of_ne hy] at hyx
      rcases h.bwd x y hyx with hxy | hcl
      · exact .inl hxy
      · exact .inr ((hc x y hcl).resolve_left fun he => hy he.2)

end Backward

end Linked

end Dynamy.Lib
