import Mathlib.Data.List.Basic

/-!
# Dynamy.Lib.Noninterference — who can tell that the others are there

A machine takes actions one after the other, each of which moves the state and may put something out.  Some actions
are `seen`.  `Noninterfering` says that what the seen ones put out is what they put out with all others left away,
and `Unwinding` is the relation between the two runs that shows it: seen actions put out the same on both sides and
keep it, and an unseen one on the left alone keeps it too.
-/

namespace Dynamy.Lib

variable {σ α ω : Type*} (step : σ → α → σ) (out : σ → α → Option ω) (seen : α → Prop) [DecidablePred seen]

/-- What the seen actions of a run put out, in order. -/
def outputs : σ → List α → List ω
  | _, [] => []
  | s, a :: as => (if seen a then (out s a).toList else []) ++ outputs (step s a) as

/-- From `s` on, the seen actions put out what they put out without the others. -/
def Noninterfering (s : σ) : Prop :=
  ∀ as, outputs step out seen s as = outputs step out seen s (as.filter fun a => decide (seen a))

omit [DecidablePred seen] in
/-- A relation between a run and the run without the unseen actions. -/
structure Unwinding (R : σ → σ → Prop) : Prop where
  output : ∀ s t a, R s t → seen a → out s a = out t a
  unseen : ∀ s t a, R s t → ¬ seen a → R (step s a) t
  seen_step : ∀ s t a, R s t → seen a → R (step s a) (step t a)

variable {step out seen} {R : σ → σ → Prop}

theorem outputs_cons_seen {a : α} (ha : seen a) (s : σ) (as : List α) :
    outputs step out seen s (a :: as) = (out s a).toList ++ outputs step out seen (step s a) as := by
  rw [outputs, if_pos ha]

theorem outputs_cons_unseen {a : α} (ha : ¬ seen a) (s : σ) (as : List α) :
    outputs step out seen s (a :: as) = outputs step out seen (step s a) as := by
  rw [outputs, if_neg ha, List.nil_append]

/-- **Unwinding rule**: related states put out the same, with and without the unseen actions. -/
theorem Unwinding.outputs_eq (h : Unwinding step out seen R) : ∀ (as : List α) {s t : σ}, R s t →
    outputs step out seen s as = outputs step out seen t (as.filter fun a => decide (seen a))
  | [], _, _, _ => rfl
  | a :: as, s, t, hst => by
    by_cases ha : seen a
    · rw [List.filter_cons_of_pos (by simpa using ha), outputs_cons_seen ha, outputs_cons_seen ha,
        h.output s t a hst ha, h.outputs_eq as (h.seen_step s t a hst ha)]
    · rw [List.filter_cons_of_neg (by simpa using ha), outputs_cons_unseen ha, h.outputs_eq as (h.unseen s t a hst ha)]

theorem Unwinding.noninterfering (h : Unwinding step out seen R) {s : σ} (hs : R s s) :
    Noninterfering step out seen s := fun as => h.outputs_eq as hs

end Dynamy.Lib
