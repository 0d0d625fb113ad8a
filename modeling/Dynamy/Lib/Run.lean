import Mathlib.Logic.Function.Basic
import Mathlib.Data.List.Basic
import Mathlib.Algebra.GroupWithZero.Nat

/-!
# Dynamy.Lib.Run — runs of a scheduled machine

A machine is a partial step function `step : σ → α → Option σ`: in state `s` the scheduler's choice `a` is
either disabled (`none`) or leads to exactly one state.  `Runs step ok s t` says that `t` is reached from `s` by
steps that were each `ok` in the state they were taken in; with `ok := fun _ _ => True` (`Reaches`) this is
plain reachability.  `Runs.invariant` is the induction over a run, `Runs.simulation` the one over an abstract view of
it, `Along.potential` bounds the cost of a schedule, and `Runs.of_exec` replays a concrete one.  `logged` is the
machine with a log of what its choices did, and has all the rules above.
-/

namespace Dynamy.Lib

variable {σ α : Type*}

/-- `t` is reached from `s` by steps that each meet `ok` in the state they are taken in. -/
inductive Runs (step : σ → α → Option σ) (ok : σ → α → Prop) (s : σ) : σ → Prop
  | refl : Runs step ok s s
  | tail {t u : σ} {a : α} : Runs step ok s t → ok t a → step t a = some u → Runs step ok s u

/-- Reachability: a run whose steps need not meet anything. -/
abbrev Reaches (step : σ → α → Option σ) : σ → σ → Prop := Runs step (fun _ _ => True)

/-- Play a schedule; `none` as soon as a choice is disabled. -/
def exec (step : σ → α → Option σ) : σ → List α → Option σ
  | s, [] => some s
  | s, a :: as => (step s a).bind (fun t => exec step t as)

theorem exec_append {step : σ → α → Option σ} : ∀ (as bs : List α) (s : σ),
    exec step s (as ++ bs) = (exec step s as).bind fun t => exec step t bs
  | [], _, _ => rfl
  | a :: as, bs, s => by
    show (step s a).bind _ = ((step s a).bind _).bind _
    rw [Option.bind_assoc]
    congr 1
    funext t
    exact exec_append as bs t

/-- Each choice of the schedule is `ok` in the state it is taken in. -/
def Along (step : σ → α → Option σ) (ok : σ → α → Prop) : σ → List α → Prop
  | _, [] => True
  | s, a :: as => ok s a ∧ ∀ t, step s a = some t → Along step ok t as

variable {step : σ → α → Option σ} {ok ok' : σ → α → Prop} {s t u : σ}

/-- **Invariant rule**: what holds at the start and survives every admitted step holds along the run. -/
theorem Runs.invariant {I : σ → Prop} (h0 : I s)
    (hstep : ∀ t a u, I t → ok t a → step t a = some u → I u) (h : Runs step ok s t) : I t := by
  induction h with
  | refl => exact h0
  | tail _ hok hs ih => exact hstep _ _ _ ih hok hs

/-- What every admitted step keeps may be used to see what the steps of a run meet. -/
theorem Runs.of_invariant {I : σ → Prop} (h0 : I s) (hstep : ∀ t a u, I t → ok t a → step t a = some u → I u)
    (hok : ∀ t a, I t → ok t a → ok' t a) (h : Runs step ok s t) : Runs step ok' s t := by
  induction h with
  | refl => exact .refl
  | tail hrun ha hs ih => exact .tail ih (hok _ _ (Runs.invariant h0 hstep hrun) ha) hs

/-- **Simulation rule**: when every admitted step is a step of the view `v`, an invariant `J` of the view holds along
the run, together with what `K` keeps of the machine to see that. -/
theorem Runs.simulation {τ : Type*} {v : σ → τ} {R : τ → τ → Prop} {K : σ → Prop} {J : τ → Prop}
    (h : Runs step ok s t) (h0 : K s ∧ J (v s))
    (hsim : ∀ t a u, K t → J (v t) → ok t a → step t a = some u → K u ∧ R (v t) (v u))
    (hJ : ∀ x y, J x → R x y → J y) : K t ∧ J (v t) := by
  refine Runs.invariant (I := fun s => K s ∧ J (v s)) h0 (fun t a u hI hok hs => ?_) h
  obtain ⟨hK, hR⟩ := hsim t a u hI.1 hI.2 hok hs
  exact ⟨hK, hJ _ _ hI.2 hR⟩

theorem Runs.trans (h : Runs step ok s t) (h' : Runs step ok t u) : Runs step ok s u := by
  induction h' with
  | refl => exact h
  | tail _ ha hs ih => exact .tail ih ha hs

theorem Runs.head {a : α} (ha : ok s a) (hs : step s a = some t) (h : Runs step ok t u) : Runs step ok s u :=
  (Runs.tail .refl ha hs).trans h

/-- Every schedule of admitted choices that plays to its end is a run. -/
theorem Runs.of_along : ∀ (as : List α) {s t : σ}, Along step ok s as → exec step s as = some t → Runs step ok s t
  | [], s, t, _, h => by
    simp only [exec, Option.some.injEq] at h
    exact h ▸ .refl
  | a :: as, s, t, hok, h => by
    simp only [exec, Option.bind_eq_some_iff] at h
    obtain ⟨s', hs, h'⟩ := h
    exact Runs.head hok.1 hs (Runs.of_along as (hok.2 s' hs) h')

theorem Along.cons {a : α} {as : List α} (hs : step s a = some t) (ha : ok s a) (h : Along step ok t as) :
    Along step ok s (a :: as) := by
  refine ⟨ha, fun t' ht' => ?_⟩
  rw [hs, Option.some.injEq] at ht'
  exact ht' ▸ h

theorem Along.of_forall : ∀ (as : List α) (s : σ), (∀ a ∈ as, ∀ s, ok s a) → Along step ok s as
  | [], _, _ => trivial
  | a :: as, s, h =>
    ⟨h a List.mem_cons_self s, fun t _ => Along.of_forall as t fun b hb => h b (List.mem_cons_of_mem a hb)⟩

/-- What every admitted step keeps may be used to see what the choices of a schedule meet. -/
theorem Along.of_invariant {I : σ → Prop} (hstep : ∀ s a t, I s → ok s a → step s a = some t → I t)
    (hok : ∀ s a, I s → ok s a → ok' s a) :
    ∀ (as : List α) {s : σ}, I s → Along step ok s as → Along step ok' s as
  | [], _, _, _ => trivial
  | a :: as, s, hI, h => ⟨hok s a hI h.1, fun t hs => Along.of_invariant hstep hok as (hstep s a t hI h.1 hs) (h.2 t hs)⟩

/-- What holds before every choice and at the end holds at the start. -/
theorem Along.start {P : σ → Prop} {A : σ → α → Prop} {as : List α} (h : Along step (fun s a => P s ∧ A s a) s as)
    (hexec : exec step s as = some u) (hu : P u) : P s := by
  cases as with
  | nil =>
    simp only [exec, Option.some.injEq] at hexec
    exact hexec ▸ hu
  | cons a as => exact h.1.1

/-- **Potential rule**: when each step pays its cost out of the potential and of the credit that it brings, the cost of
a schedule is at most the potential at its start and all the credit. -/
theorem Along.potential {Φ : σ → ℕ} {cost credit : α → ℕ}
    (hstep : ∀ s a t, ok s a → step s a = some t → cost a + Φ t ≤ Φ s + credit a) :
    ∀ (as : List α) {s u : σ}, Along step ok s as → exec step s as = some u →
      (as.map cost).sum + Φ u ≤ Φ s + (as.map credit).sum
  | [], s, u, _, hexec => by
    simp only [exec, Option.some.injEq] at hexec
    simp [hexec]
  | a :: as, s, u, hok, hexec => by
    simp only [exec, Option.bind_eq_some_iff] at hexec
    obtain ⟨t, hs, hexec⟩ := hexec
    have hfirst := hstep s a t hok.1 hs
    have hrest := Along.potential hstep as (hok.2 t hs) hexec
    simp only [List.map_cons, List.sum_cons]
    omega

/-- **Exactness rule**: when each step keeps `I` and leads to a state with `P`, meeting `A`, exactly if it meets `B`,
then `P` holds in every state of a schedule and `A` at each of its steps exactly if `B` does at each of them. -/
theorem Along.iff_of_step {I P : σ → Prop} {A B : σ → α → Prop}
    (hstep : ∀ s a t, I s → P s → ok s a → step s a = some t → I t ∧ (P t ∧ A s a ↔ B s a)) :
    ∀ (as : List α) {s u : σ}, I s → P s → Along step ok s as → exec step s as = some u →
      (Along step (fun s a => P s ∧ A s a) s as ∧ P u ↔ Along step B s as)
  | [], s, u, _, hP, _, hexec => by
    simp only [exec, Option.some.injEq] at hexec
    exact ⟨fun _ => trivial, fun _ => ⟨trivial, hexec ▸ hP⟩⟩
  | a :: as, s, u, hI, hP, hok, hexec => by
    simp only [exec, Option.bind_eq_some_iff] at hexec
    obtain ⟨t, hs, hexec⟩ := hexec
    obtain ⟨hIt, hiff⟩ := hstep s a t hI hP hok.1 hs
    have hrest := fun hPt : P t => Along.iff_of_step hstep as hIt hPt (hok.2 t hs) hexec
    constructor
    · rintro ⟨⟨⟨-, hA⟩, htail⟩, hu⟩
      have hPt : P t := (htail t hs).start hexec hu
      exact .cons hs (hiff.mp ⟨hPt, hA⟩) ((hrest hPt).mp ⟨htail t hs, hu⟩)
    · rintro ⟨hB, htail⟩
      obtain ⟨hPt, hA⟩ := hiff.mpr hB
      obtain ⟨halong, hu⟩ := (hrest hPt).mpr (htail t hs)
      exact ⟨.cons hs ⟨hP, hA⟩ halong, hu⟩

/-- **Exactness rule** for a promise that is open until the last step: when `P` holds wherever a choice is admitted, and
each step leads to a state with `P` exactly if it meets `B`, then `P` holds in the end exactly if every step meets `B`. -/
theorem Along.last_iff_of_step {I P : σ → Prop} {B : σ → α → Prop}
    (hstep : ∀ s a t, I s → ok s a → step s a = some t → I t ∧ (P t ↔ B s a)) (hopen : ∀ s a, I s → ok s a → P s)
    {as : List α} (hI : I s) (hP : P s) (hok : Along step ok s as) (hexec : exec step s as = some u) :
    P u ↔ Along step B s as := by
  have hall : Along step (fun s a => P s ∧ True) s as :=
    Along.of_invariant (fun s a t h ha hs => (hstep s a t h ha hs).1) (fun s a h ha => ⟨hopen s a h ha, trivial⟩) as hI
      hok
  have hiff := Along.iff_of_step (I := I) (P := P) (A := fun _ _ => True) (B := B)
    (fun s a t h _ ha hs => by
      obtain ⟨ht, hkept⟩ := hstep s a t h ha hs
      exact ⟨ht, (and_iff_left trivial).trans hkept⟩) as hI hP hok hexec
  rw [← hiff]
  exact (and_iff_right hall).symm

/-- Every schedule that plays to its end is a run. -/
theorem Runs.of_exec (as : List α) (h : exec step s as = some t) : Reaches step s t :=
  Runs.of_along as (Along.of_forall as s fun _ _ _ => trivial) h

/-- A schedule whose last state is known up to a view of it. -/
theorem Runs.of_exec_map {β : Type*} {f : σ → β} {b : β} (as : List α)
    (h : (exec step s as).map f = some b) : ∃ t, Reaches step s t ∧ f t = b := by
  rw [Option.map_eq_some_iff] at h
  obtain ⟨t, ht, hb⟩ := h
  exact ⟨t, Runs.of_exec as ht, hb⟩

/-! ### A log -/

section Log

variable {β : Type*} {obs : σ → α → List β} {l l' : List β} {a : α}

/-- The machine with a log, to which each choice appends what `obs` sees of it in the state it is taken in. -/
def logged (step : σ → α → Option σ) (obs : σ → α → List β) : σ × List β → α → Option (σ × List β) := fun x a =>
  (step x.1 a).map fun t => (t, x.2 ++ obs x.1 a)

theorem logged_eq_some {x y : σ × List β} : logged step obs x a = some y ↔
    step x.1 a = some y.1 ∧ y.2 = x.2 ++ obs x.1 a := by
  rw [logged, Option.map_eq_some_iff]
  constructor
  · rintro ⟨t, hs, rfl⟩
    exact ⟨hs, rfl⟩
  · rintro ⟨hs, hl⟩
    exact ⟨y.1, hs, by rw [← hl]⟩

end Log

end Dynamy.Lib
