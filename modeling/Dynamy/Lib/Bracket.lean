import Dynamy.Lib.Prog
import Mathlib.Computability.Language
import Mathlib.Algebra.Ring.Int.Defs

/-!
# Dynamy.Lib.Bracket — what is acquired and given back

`Prog.ensuring p q` is `try p finally q`; what `q` does may depend on how far `p` came, so its rule speaks of states as
well (`Triple`).  The events of a program that acquires and gives back again and again are words of `L∗`, where `L` is
what one bracket looks like (`Speaks`).  What is held is a count that the events move: in an `Excursion` it comes back
to `0` and stays between `0` and `n` meanwhile, and a sequence of excursions is one (`excursion_of_mem_kstar`).
-/

namespace Dynamy.Lib

open scoped Computability

variable {ω σ ε α β : Type}

namespace Prog

/-- `try p finally q`: what `q` throws replaces what `p` returned or threw. -/
def ensuring (p : Prog ω σ ε α) (q : Prog ω σ ε Unit) : Prog ω σ ε α := fun s =>
  match p s with
  | ⟨r, s', es⟩ => ⟨(q s').result >>= fun _ => r, (q s').state, es ++ (q s').events⟩

theorem run_ensuring (p : Prog ω σ ε α) (q : Prog ω σ ε Unit) (s : σ) :
    run (ensuring p q) s =
      match run p s with
      | ⟨r, s', es⟩ => ⟨(run q s').result >>= fun _ => r, (run q s').state, es ++ (run q s').events⟩ := rfl

/-! ### From a state on -/

/-- Started in a state of `P`, `p` ends with a result, in a state and with events that satisfy `S`. -/
def Triple (P : σ → Prop) (p : Prog ω σ ε α) (S : Except ε α → σ → List ω → Prop) : Prop :=
  ∀ s, P s → S (run p s).result (run p s).state (run p s).events

section Triple

variable {P : σ → Prop} {p : Prog ω σ ε α} {f : α → Prog ω σ ε β} {S : Except ε α → σ → List ω → Prop}
  {R : Except ε β → σ → List ω → Prop}

theorem Triple.bind (hp : Triple P p S) (he : ∀ e t es, S (.error e) t es → R (.error e) t es)
    (hf : ∀ a es, Triple (fun t => S (.ok a) t es) (f a) fun r t es' => R r t (es ++ es')) : Triple P (p >>= f) R := by
  intro s hs
  have h := hp s hs
  rw [run_bind]
  match hr : run p s with
  | ⟨.ok a, s', es⟩ =>
    rw [hr] at h
    exact hf a es s' h
  | ⟨.error e, s', es⟩ =>
    rw [hr] at h
    exact he e s' es h

/-- What is made of a result does nothing. -/
theorem Triple.map {g : α → β} (hp : Triple P p S) :
    Triple P (p >>= fun a => pure (g a)) fun r t es => ∃ r', S r' t es ∧ r = r'.map g := by
  intro s hs
  have h := hp s hs
  rw [run_bind]
  match hr : run p s with
  | ⟨.ok a, s', es⟩ =>
    rw [hr] at h
    refine ⟨.ok a, ?_, rfl⟩
    show S _ s' (es ++ [])
    rw [List.append_nil]
    exact h
  | ⟨.error e, s', es⟩ =>
    rw [hr] at h
    exact ⟨.error e, h, rfl⟩

/-- **Bracket rule**: the second part begins where the first ended, in whatever way it ended. -/
theorem Triple.ensuring {q : Prog ω σ ε Unit} {R : Except ε α → σ → List ω → Prop} (hp : Triple P p S)
    (hq : ∀ r es, Triple (fun t => S r t es) q fun r' t es' => R (r' >>= fun _ => r) t (es ++ es')) :
    Triple P (Prog.ensuring p q) R := by
  intro s hs
  have h := hp s hs
  rw [run_ensuring]
  match hr : run p s with
  | ⟨r, s', es⟩ =>
    rw [hr] at h
    exact hq r es s' h

theorem Triple.attempt {h : ε → Prog ω σ ε α} {R : Except ε α → σ → List ω → Prop} (hp : Triple P p S)
    (hok : ∀ a t es, S (.ok a) t es → R (.ok a) t es)
    (hh : ∀ e es, Triple (fun t => S (.error e) t es) (h e) fun r t es' => R r t (es ++ es')) :
    Triple P (Prog.attempt p h) R := by
  intro s hs
  have hrun := hp s hs
  rw [run_attempt]
  match hr : run p s with
  | ⟨.ok a, s', es⟩ =>
    rw [hr] at hrun
    exact hok a s' es hrun
  | ⟨.error e, s', es⟩ =>
    rw [hr] at hrun
    exact hh e es s' hrun

theorem triple_pure {a : α} (h : ∀ s, P s → S (.ok a) s []) : Triple P (pure a) S := h

theorem triple_update_bind {g : σ → σ} {f : Unit → Prog ω σ ε β} {Q : σ → Prop} (h : ∀ s, P s → Q (g s))
    (hf : Triple Q (f ()) R) : Triple P (update g >>= f) R := fun s hs => hf (g s) (h s hs)

theorem triple_emit_bind {w : ω} {f : Unit → Prog ω σ ε β} (h : Triple P (f ()) fun r t es => R r t (w :: es)) :
    Triple P (emit w >>= f) R := h

theorem triple_read_bind {f : σ → Prog ω σ ε β} (h : ∀ s, P s → Triple (fun t => t = s) (f s) R) :
    Triple P (read >>= f) R := fun s hs => h s hs s rfl

theorem Triple.mono {S' : Except ε α → σ → List ω → Prop} (h : Triple P p S) (hS : ∀ r t es, S r t es → S' r t es) :
    Triple P p S' := fun s hs => hS _ _ _ (h s hs)

end Triple

/-! ### A part of the state that follows the events -/

/-- The part `f` of the state goes where the events lead it. -/
def Tracks {τ : Type} (f : σ → τ) (step : τ → ω → τ) (p : Prog ω σ ε α) : Prop :=
  ∀ s, f (run p s).state = (run p s).events.foldl step (f s)

section Tracks

variable {τ : Type} {k : σ → τ} {step : τ → ω → τ} {p : Prog ω σ ε α} {f : α → Prog ω σ ε β}

theorem tracks_pure (a : α) : Tracks k step (pure a : Prog ω σ ε α) := fun _ => rfl

theorem tracks_raise (e : ε) : Tracks k step (raise e : Prog ω σ ε α) := fun _ => rfl

theorem tracks_read : Tracks k step (read : Prog ω σ ε σ) := fun _ => rfl

theorem tracks_ofExcept (x : Except ε α) : Tracks k step (ofExcept x : Prog ω σ ε α) := by
  cases x with
  | ok a => exact tracks_pure a
  | error e => exact tracks_raise e

theorem tracks_update {g : σ → σ} (h : ∀ s, k (g s) = k s) : Tracks k step (update g : Prog ω σ ε Unit) := h

theorem tracks_emit {w : ω} (h : ∀ t, step t w = t) : Tracks k step (emit w : Prog ω σ ε Unit) := fun s => (h (k s)).symm

theorem Tracks.bind (hp : Tracks k step p) (hf : ∀ a, Tracks k step (f a)) : Tracks k step (p >>= f) := by
  intro s
  have h := hp s
  rw [run_bind]
  match hr : run p s with
  | ⟨.ok a, s', es⟩ =>
    rw [hr] at h
    show k (run (f a) s').state = (es ++ (run (f a) s').events).foldl step (k s)
    rw [hf a s', List.foldl_append, ← h]
  | ⟨.error e, s', es⟩ =>
    rw [hr] at h
    exact h

theorem Tracks.attempt {h : ε → Prog ω σ ε α} (hp : Tracks k step p) (hh : ∀ e, Tracks k step (h e)) :
    Tracks k step (Prog.attempt p h) := by
  intro s
  have hs := hp s
  rw [run_attempt]
  match hr : run p s with
  | ⟨.ok a, s', es⟩ =>
    rw [hr] at hs
    exact hs
  | ⟨.error e, s', es⟩ =>
    rw [hr] at hs
    show k (run (h e) s').state = (es ++ (run (h e) s').events).foldl step (k s)
    rw [hh e s', List.foldl_append, ← hs]

end Tracks

/-! ### One bracket after the other -/

/-- The events are some words of `L`, one after the other. -/
def Speaks (L : Language ω) (p : Prog ω σ ε α) : Prop := Emits p fun _ es => es ∈ L∗

section Speaks

variable {L : Language ω} {p : Prog ω σ ε α} {f : α → Prog ω σ ε β}

theorem speaks_pure (a : α) : Speaks L (pure a : Prog ω σ ε α) := fun _ => Language.nil_mem_kstar L

theorem speaks_ofExcept (x : Except ε α) : Speaks L (ofExcept x : Prog ω σ ε α) := fun s => by
  rw [run_ofExcept]
  exact Language.nil_mem_kstar L

theorem append_mem_kstar {es es' : List ω} (h : es ∈ L∗) (h' : es' ∈ L∗) : es ++ es' ∈ L∗ := by
  rw [← kstar_mul_kstar L]
  exact Language.append_mem_mul h h'

theorem Emits.speaks (h : Emits p fun _ es => es ∈ L) : Speaks L p := fun s => by
  have hle : L ≤ L∗ := le_kstar
  exact hle (h s)

theorem Speaks.bind (hp : Speaks L p) (hf : ∀ a, Speaks L (f a)) : Speaks L (p >>= f) :=
  Emits.bind hp (fun _ _ h => h) fun a _ h s => append_mem_kstar h (hf a s)

theorem Speaks.attempt {h : ε → Prog ω σ ε α} (hp : Speaks L p) (hh : ∀ e, Speaks L (h e)) :
    Speaks L (Prog.attempt p h) :=
  Emits.attempt hp (fun _ _ hes => hes) fun e _ hes s => append_mem_kstar hes (hh e s)

theorem Speaks.each {g : β → Prog ω σ ε Unit} (h : ∀ b, Speaks L (g b)) : ∀ l : List β, Speaks L (Prog.each g l)
  | [] => speaks_pure ()
  | b :: l => (h b).bind fun _ => Speaks.each h l

theorem Speaks.mapM {g : α → Prog ω σ ε β} (h : ∀ a, Speaks L (g a)) : ∀ l : List α, Speaks L (l.mapM g)
  | [] => speaks_pure []
  | a :: l => by
    rw [List.mapM_cons]
    exact (h a).bind fun b => (Speaks.mapM h l).bind fun bs => speaks_pure (b :: bs)

end Speaks

end Prog

/-! ### What is held -/

/-- The count starts at `0`, returns to `0` and is between `0` and `n` at every moment. -/
structure Excursion (w : ω → ℤ) (n : ℤ) (es : List ω) : Prop where
  returns : (es.map w).sum = 0
  within : ∀ pre, pre <+: es → 0 ≤ (pre.map w).sum ∧ (pre.map w).sum ≤ n

variable {w : ω → ℤ} {n : ℤ}

theorem excursion_nil (hn : 0 ≤ n) : Excursion w n [] where
  returns := rfl
  within pre hpre := by
    obtain rfl := List.prefix_nil.mp hpre
    exact ⟨le_rfl, hn⟩

theorem Excursion.append {es es' : List ω} (h : Excursion w n es) (h' : Excursion w n es') :
    Excursion w n (es ++ es') where
  returns := by rw [List.map_append, List.sum_append, h.returns, h'.returns, Int.add_zero]
  within pre hpre := by
    obtain ⟨suf, hsuf⟩ := hpre
    rcases List.append_eq_append_iff.mp hsuf with ⟨mid, rfl, -⟩ | ⟨mid, rfl, hmid⟩
    · exact h.within pre (List.prefix_append pre mid)
    · rw [List.map_append, List.sum_append, h.returns, Int.zero_add]
      exact h'.within mid ⟨suf, hmid.symm⟩

theorem sum_map_zero : ∀ es : List ω, (∀ x ∈ es, w x = 0) → (es.map w).sum = 0
  | [], _ => rfl
  | x :: es, h => by
    rw [List.map_cons, List.sum_cons, h x List.mem_cons_self, sum_map_zero es fun y hy => h y (List.mem_cons_of_mem x hy),
      Int.add_zero]

/-- What moves nothing. -/
theorem excursion_of_zero (hn : 0 ≤ n) {es : List ω} (h : ∀ x ∈ es, w x = 0) : Excursion w n es where
  returns := sum_map_zero es h
  within pre hpre := by
    rw [sum_map_zero pre fun x hx => h x (hpre.subset hx)]
    exact ⟨le_rfl, hn⟩

/-- One more is acquired before an excursion, and given back after it. -/
theorem Excursion.bracket {a b : ω} {es : List ω} (h : Excursion w n es) (hn : 0 ≤ n) (ha : w a = 1) (hb : w b = -1) :
    Excursion w (n + 1) (a :: es ++ [b]) where
  returns := by
    simp only [List.cons_append, List.map_cons, List.map_append, List.sum_cons, List.sum_append, h.returns, ha, hb,
      List.map_nil, List.sum_nil]
    omega
  within pre hpre := by
    cases pre with
    | nil => exact ⟨le_rfl, by simp only [List.map_nil, List.sum_nil]; omega⟩
    | cons x pre =>
      obtain ⟨hx, htail⟩ := List.cons_prefix_cons.mp hpre
      rw [List.map_cons, List.sum_cons, hx, ha]
      rcases List.prefix_concat_iff.mp htail with rfl | htail
      · rw [List.map_append, List.sum_append, h.returns, List.map_singleton, List.sum_singleton, hb]
        omega
      · have hmid := h.within pre htail
        omega

/-- Excursions one after the other. -/
theorem excursion_of_mem_kstar {L : Language ω} (hn : 0 ≤ n) (hL : ∀ es ∈ L, Excursion w n es) {es : List ω}
    (h : es ∈ L∗) : Excursion w n es := by
  obtain ⟨words, rfl, hwords⟩ := Language.mem_kstar.mp h
  clear h
  induction words with
  | nil => exact excursion_nil hn
  | cons word words ih =>
    rw [List.flatten_cons]
    exact (hL word (hwords word List.mem_cons_self)).append (ih fun y hy => hwords y (List.mem_cons_of_mem word hy))

end Dynamy.Lib
