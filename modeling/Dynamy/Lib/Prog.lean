import Mathlib.Data.List.Basic
import Mathlib.Order.Defs.Unbundled

/-!
# Dynamy.Lib.Prog — programs with state, exceptions and observable events

`Prog ω σ ε α` is a program that runs in a state `σ`, throws values of `ε`, and emits events of `ω` on its way;
what it did before an exception stays done.  `Emits p S` says that from every state the result of `p` and the
events it emits satisfy `S`; there is one rule for every way of composing programs, so that the events of a long
program are described from those of its parts.  `Always P p` is the special case that every event satisfies `P`.
-/

namespace Dynamy.Lib

/-- How a program ended: its result, the state it left, the events it emitted. -/
structure Outcome (ω σ ε α : Type) where
  result : Except ε α
  state : σ
  events : List ω

def Prog (ω σ ε α : Type) : Type := σ → Outcome ω σ ε α

namespace Prog

variable {ω σ ε α β : Type}

def run (p : Prog ω σ ε α) (s : σ) : Outcome ω σ ε α := p s

def ret (a : α) : Prog ω σ ε α := fun s => ⟨.ok a, s, []⟩

def seq (p : Prog ω σ ε α) (f : α → Prog ω σ ε β) : Prog ω σ ε β := fun s =>
  match p s with
  | ⟨.ok a, s', es⟩ => ⟨(f a s').result, (f a s').state, es ++ (f a s').events⟩
  | ⟨.error e, s', es⟩ => ⟨.error e, s', es⟩

instance : Monad (Prog ω σ ε) where
  pure := ret
  bind := seq

def raise (e : ε) : Prog ω σ ε α := fun s => ⟨.error e, s, []⟩

def ofExcept : Except ε α → Prog ω σ ε α
  | .ok a => ret a
  | .error e => raise e

def emit (w : ω) : Prog ω σ ε Unit := fun s => ⟨.ok (), s, [w]⟩

def read : Prog ω σ ε σ := fun s => ⟨.ok s, s, []⟩

def update (f : σ → σ) : Prog ω σ ε Unit := fun s => ⟨.ok (), f s, []⟩

/-- `try p catch h`: the handler starts in the state in which `p` threw. -/
def attempt (p : Prog ω σ ε α) (h : ε → Prog ω σ ε α) : Prog ω σ ε α := fun s =>
  match p s with
  | ⟨.ok a, s', es⟩ => ⟨.ok a, s', es⟩
  | ⟨.error e, s', es⟩ => ⟨(h e s').result, (h e s').state, es ++ (h e s').events⟩

/-- `for (a <- l) f(a)`: the first exception ends it. -/
def each (f : α → Prog ω σ ε Unit) : List α → Prog ω σ ε Unit
  | [] => pure ()
  | a :: l => f a >>= fun _ => each f l

/-! ### Evaluation -/

@[simp] theorem run_pure (a : α) (s : σ) : run (pure a : Prog ω σ ε α) s = ⟨.ok a, s, []⟩ := rfl

theorem run_bind (p : Prog ω σ ε α) (f : α → Prog ω σ ε β) (s : σ) :
    run (p >>= f) s =
      match run p s with
      | ⟨.ok a, s', es⟩ => ⟨(run (f a) s').result, (run (f a) s').state, es ++ (run (f a) s').events⟩
      | ⟨.error e, s', es⟩ => ⟨.error e, s', es⟩ := rfl

theorem run_attempt (p : Prog ω σ ε α) (h : ε → Prog ω σ ε α) (s : σ) :
    run (attempt p h) s =
      match run p s with
      | ⟨.ok a, s', es⟩ => ⟨.ok a, s', es⟩
      | ⟨.error e, s', es⟩ => ⟨(run (h e) s').result, (run (h e) s').state, es ++ (run (h e) s').events⟩ := rfl

/-- A part that returned without an event hands its state on. -/
theorem run_bind_of_ok {p : Prog ω σ ε α} {s s' : σ} {a : α} (h : run p s = ⟨.ok a, s', []⟩)
    (f : α → Prog ω σ ε β) : run (p >>= f) s = run (f a) s' := by
  rw [run_bind, h]
  rfl

/-- A part that threw ends the program. -/
theorem run_bind_of_error {p : Prog ω σ ε α} {s s' : σ} {e : ε} {es : List ω} (h : run p s = ⟨.error e, s', es⟩)
    (f : α → Prog ω σ ε β) : run (p >>= f) s = ⟨.error e, s', es⟩ := by
  rw [run_bind, h]

theorem ofExcept_ok_bind (a : α) (f : α → Prog ω σ ε β) : (ofExcept (.ok a) >>= f) = f a := rfl

theorem ofExcept_error_bind (e : ε) (f : α → Prog ω σ ε β) : (ofExcept (.error e) >>= f) = raise e := rfl

@[simp] theorem run_read_bind (f : σ → Prog ω σ ε β) (s : σ) : run (read >>= f) s = run (f s) s := rfl

@[simp] theorem run_update_bind (g : σ → σ) (f : Unit → Prog ω σ ε β) (s : σ) :
    run (update g >>= f) s = run (f ()) (g s) := rfl

@[simp] theorem run_ofExcept (x : Except ε α) (s : σ) : run (ofExcept x : Prog ω σ ε α) s = ⟨x, s, []⟩ := by
  cases x <;> rfl

@[simp] theorem run_ok_bind (a : α) (f : α → Prog ω σ ε β) (s : σ) :
    run (ofExcept (.ok a) >>= f) s = run (f a) s := rfl

@[simp] theorem run_error_bind (e : ε) (f : α → Prog ω σ ε β) (s : σ) :
    run (ofExcept (.error e) >>= f) s = ⟨.error e, s, []⟩ := rfl

@[simp] theorem run_emit_bind (w : ω) (f : Unit → Prog ω σ ε β) (s : σ) :
    run (emit w >>= f) s = ⟨(run (f ()) s).result, (run (f ()) s).state, w :: (run (f ()) s).events⟩ := rfl

@[simp] theorem run_raise (e : ε) (s : σ) : run (raise e : Prog ω σ ε α) s = ⟨.error e, s, []⟩ := rfl

@[simp] theorem run_raise_bind (e : ε) (f : α → Prog ω σ ε β) (s : σ) :
    run (raise e >>= f) s = ⟨.error e, s, []⟩ := rfl

instance : LawfulMonad (Prog ω σ ε) :=
  LawfulMonad.mk' _
    (fun p => by
      funext s
      show run (p >>= fun a => pure a) s = run p s
      rw [run_bind]
      rcases run p s with ⟨r, s', es⟩
      cases r with
      | ok a => simp
      | error e => rfl)
    (fun _ _ => rfl)
    (fun p f g => by
      funext s
      show run (p >>= f >>= g) s = run (p >>= fun a => f a >>= g) s
      rw [run_bind, run_bind, run_bind]
      rcases run p s with ⟨r, s', es⟩
      cases r with
      | error e => rfl
      | ok a =>
        dsimp only
        rw [run_bind]
        rcases run (f a) s' with ⟨r, s'', es'⟩
        cases r with
        | ok b => simp
        | error e => rfl)

/-! ### What a program emits -/

/-- From every state, `p` ends with a result and events that satisfy `S`. -/
def Emits (p : Prog ω σ ε α) (S : Except ε α → List ω → Prop) : Prop :=
  ∀ s, S (run p s).result (run p s).events

variable {p : Prog ω σ ε α} {f : α → Prog ω σ ε β} {S : Except ε α → List ω → Prop}
  {R : Except ε β → List ω → Prop}

theorem emits_pure {a : α} (h : S (.ok a) []) : Emits (pure a : Prog ω σ ε α) S := fun _ => h

theorem Emits.and {S' : Except ε α → List ω → Prop} (h : Emits p S) (h' : Emits p S') :
    Emits p fun r es => S r es ∧ S' r es := fun s => ⟨h s, h' s⟩

/-- **Sequence rule**: what `p` is known to emit, followed by what each continuation emits after that. -/
theorem Emits.bind (hp : Emits p S) (he : ∀ e es, S (.error e) es → R (.error e) es)
    (hf : ∀ a es₁, S (.ok a) es₁ → Emits (f a) fun r es => R r (es₁ ++ es)) : Emits (p >>= f) R := by
  intro s
  have h := hp s
  rw [run_bind]
  match hr : run p s with
  | ⟨.ok a, s', es⟩ =>
    rw [hr] at h
    exact hf a es h s'
  | ⟨.error e, s', es⟩ =>
    rw [hr] at h
    exact he e es h

/-- **Handler rule**: `p` as it ends, or what it did before it threw followed by the handler. -/
theorem Emits.attempt {R : Except ε α → List ω → Prop} {h : ε → Prog ω σ ε α} (hp : Emits p S)
    (hok : ∀ a es, S (.ok a) es → R (.ok a) es)
    (hh : ∀ e es₁, S (.error e) es₁ → Emits (h e) fun r es => R r (es₁ ++ es)) : Emits (Prog.attempt p h) R := by
  intro s
  have hs := hp s
  rw [run_attempt]
  match hr : run p s with
  | ⟨.ok a, s', es⟩ =>
    rw [hr] at hs
    exact hok a es hs
  | ⟨.error e, s', es⟩ =>
    rw [hr] at hs
    exact hh e es hs s'

/-- An event, then the rest. -/
theorem emits_emit_bind {w : ω} {f : Unit → Prog ω σ ε β} (h : Emits (f ()) fun r es => R r (w :: es)) :
    Emits (emit w >>= f) R :=
  Emits.bind (S := fun r es => r = .ok () ∧ es = [w]) (fun _ => ⟨rfl, rfl⟩) (fun _ _ hS => nomatch hS.1)
    (fun _ _ hS => hS.2 ▸ h)

/-- A computed value, then the rest. -/
theorem emits_ofExcept_bind {x : Except ε α} (he : ∀ e, x = .error e → R (.error e) [])
    (hf : ∀ a, x = .ok a → Emits (f a) R) : Emits (ofExcept x >>= f) R := by
  cases x with
  | ok a => exact hf a rfl
  | error e => exact fun _ => he e rfl

/-- **Loop rule**: a loop of which every pass returns yields what the passes return, and emits what they emit. -/
theorem Emits.mapM {S : α → β × List ω → Prop}
    (h : ∀ a, Emits (f a) fun r es => ∃ b, r = .ok b ∧ S a (b, es)) : ∀ l : List α, Emits (l.mapM f) fun r es =>
      ∃ passes : List (β × List ω), List.Forall₂ S l passes ∧ r = .ok (passes.map Prod.fst) ∧ es = passes.flatMap Prod.snd
  | [] => emits_pure ⟨[], .nil, rfl, rfl⟩
  | a :: l => by
    rw [List.mapM_cons]
    refine (h a).bind (fun e es ⟨b, he, _⟩ => nomatch he) fun b es ⟨b', hb, hS⟩ => ?_
    cases hb
    refine (Emits.mapM h l).bind (fun e es' ⟨passes, _, he, _⟩ => nomatch he) fun bs es' ⟨passes, hpasses, hbs, hes⟩ => ?_
    cases hbs
    refine emits_pure ⟨(b, es) :: passes, .cons hS hpasses, rfl, ?_⟩
    rw [List.append_nil, hes, List.flatMap_cons]

/-! ### What a program returns -/

/-- From every state, `p` ends with `r`. -/
def Returns (p : Prog ω σ ε α) (r : Except ε α) : Prop := Emits p fun r' _ => r' = r

theorem returns_pure (a : α) : Returns (pure a : Prog ω σ ε α) (.ok a) := fun _ => rfl

theorem returns_raise (e : ε) : Returns (raise e : Prog ω σ ε α) (.error e) := fun _ => rfl

theorem returns_emit (w : ω) : Returns (emit w : Prog ω σ ε Unit) (.ok ()) := fun _ => rfl

theorem returns_ofExcept (r : Except ε α) : Returns (ofExcept r : Prog ω σ ε α) r := fun s => by rw [run_ofExcept]

/-- **Sequence rule** for results: they go together as results do. -/
theorem Returns.seq {r : Except ε α} {g : α → Except ε β} (hp : Returns p r)
    (hf : ∀ a, r = .ok a → Returns (f a) (g a)) : Returns (p >>= f) (r >>= g) := by
  refine Emits.bind hp (fun e _ he => ?_) fun a _ ha => ?_
  · rw [← he]
    rfl
  · rw [← ha]
    exact hf a ha.symm

/-- What follows a part that returns `a`. -/
theorem Returns.bind {a : α} {r : Except ε β} (hp : Returns p (.ok a)) (hf : Returns (f a) r) : Returns (p >>= f) r :=
  hp.seq (g := fun _ => r) fun b hb => by
    cases hb
    exact hf

/-- Nothing follows a part that raises `e`. -/
theorem Returns.bind_error {e : ε} (hp : Returns p (.error e)) : Returns (p >>= f) (.error e) :=
  hp.seq (g := fun _ => .error e) fun _ hb => nomatch hb

/-! ### Where a program comes to its end -/

/-- Started in `s`, `p` returns `a` in `t`. -/
def Ends (p : Prog ω σ ε α) (s : σ) (a : α) (t : σ) : Prop := (run p s).result = .ok a ∧ (run p s).state = t

theorem ends_pure_iff {a b : α} {s t : σ} : Ends (pure a : Prog ω σ ε α) s b t ↔ a = b ∧ s = t := by
  rw [Ends, run_pure, Except.ok.injEq]

theorem ends_bind_iff {b : β} {s u : σ} : Ends (p >>= f) s b u ↔ ∃ a t, Ends p s a t ∧ Ends (f a) t b u := by
  unfold Ends
  rw [run_bind]
  rcases run p s with ⟨r, t, es⟩
  cases r with
  | ok a =>
    constructor
    · exact fun h => ⟨a, t, ⟨rfl, rfl⟩, h⟩
    · rintro ⟨a', t', ⟨ha, ht⟩, h⟩
      cases ha
      cases ht
      exact h
  | error e =>
    constructor
    · rintro ⟨h, -⟩
      cases h
    · rintro ⟨a', t', ⟨ha, -⟩, -⟩
      cases ha

/-- One after the other. -/
theorem ends_then_iff {p : Prog ω σ ε Unit} {q : Prog ω σ ε β} {b : β} {s u : σ} :
    Ends (p >>= fun _ => q) s b u ↔ ∃ t, Ends p s () t ∧ Ends q t b u :=
  ends_bind_iff.trans ⟨fun ⟨_, t, h⟩ => ⟨t, h⟩, fun ⟨t, h⟩ => ⟨(), t, h⟩⟩

theorem ends_each_nil_iff {g : β → Prog ω σ ε Unit} {s t : σ} : Ends (each g []) s () t ↔ s = t :=
  ends_pure_iff.trans (and_iff_right rfl)

theorem ends_each_cons_iff {g : β → Prog ω σ ε Unit} {b : β} {l : List β} {s u : σ} :
    Ends (each g (b :: l)) s () u ↔ ∃ t, Ends (g b) s () t ∧ Ends (each g l) t () u := ends_then_iff

theorem ends_each_append_iff {g : β → Prog ω σ ε Unit} {l l' : List β} {s u : σ} :
    Ends (each g (l ++ l')) s () u ↔ ∃ t, Ends (each g l) s () t ∧ Ends (each g l') t () u := by
  induction l generalizing s with
  | nil =>
    constructor
    · exact fun h => ⟨s, ends_each_nil_iff.mpr rfl, h⟩
    · rintro ⟨t, hnil, h⟩
      obtain rfl := ends_each_nil_iff.mp hnil
      exact h
  | cons b l ih =>
    rw [List.cons_append, ends_each_cons_iff]
    constructor
    · rintro ⟨t, hb, h⟩
      obtain ⟨t', hl, hl'⟩ := ih.mp h
      exact ⟨t', ends_each_cons_iff.mpr ⟨t, hb, hl⟩, hl'⟩
    · rintro ⟨t', h, hl'⟩
      obtain ⟨t, hb, hl⟩ := ends_each_cons_iff.mp h
      exact ⟨t, hb, ih.mpr ⟨t', hl, hl'⟩⟩

theorem each_map {γ : Type} (g : β → Prog ω σ ε Unit) (k : γ → β) (l : List γ) :
    each g (l.map k) = each (fun c => g (k c)) l := by
  induction l with
  | nil => rfl
  | cons c l ih => rw [List.map_cons, each, each, ih]

theorem ends_ofExcept_iff {x : Except ε α} {a : α} {s t : σ} :
    Ends (ofExcept x : Prog ω σ ε α) s a t ↔ x = .ok a ∧ s = t := by
  rw [Ends, run_ofExcept]

/-! ### Every event -/

/-- Whatever state `p` starts in, each event it emits satisfies `P`. -/
def Always (P : ω → Prop) (p : Prog ω σ ε α) : Prop := ∀ s, ∀ w ∈ (run p s).events, P w

/-- `p` emits nothing. -/
abbrev Silent (p : Prog ω σ ε α) : Prop := Always (fun _ => False) p

variable {P Q : ω → Prop} {h : ε → Prog ω σ ε α}

theorem Silent.events_eq (h : Silent p) (s : σ) : (run p s).events = [] :=
  List.eq_nil_iff_forall_not_mem.mpr (h s)

theorem Always.mono (h : Always P p) (hPQ : ∀ w, P w → Q w) : Always Q p := fun s w hw => hPQ w (h s w hw)

theorem Always.emits (h : Always P p) : Emits p fun _ es => ∀ w ∈ es, P w := h

theorem Silent.always (h : Silent p) : Always P p := h.mono fun _ hw => hw.elim

theorem silent_pure (a : α) : Silent (pure a : Prog ω σ ε α) := fun _ _ hw => (List.not_mem_nil hw).elim

theorem silent_raise (e : ε) : Silent (raise e : Prog ω σ ε α) := fun _ _ hw => (List.not_mem_nil hw).elim

theorem silent_read : Silent (read : Prog ω σ ε σ) := fun _ _ hw => (List.not_mem_nil hw).elim

theorem silent_update (f : σ → σ) : Silent (update f : Prog ω σ ε Unit) :=
  fun _ _ hw => (List.not_mem_nil hw).elim

theorem silent_ofExcept (x : Except ε α) : Silent (ofExcept x : Prog ω σ ε α) := by
  cases x with
  | ok a => exact silent_pure a
  | error e => exact silent_raise e

theorem always_emit {w : ω} (h : P w) : Always P (emit w : Prog ω σ ε Unit) :=
  fun _ _ hw => List.mem_singleton.mp hw ▸ h

theorem Always.bind (hp : Always P p) (hf : ∀ a, Always P (f a)) : Always P (p >>= f) := by
  refine Emits.bind (S := fun _ es => ∀ w ∈ es, P w) (R := fun _ es => ∀ w ∈ es, P w) hp (fun _ _ hes => hes)
    fun a es₁ hes₁ s w hw => ?_
  rcases List.mem_append.mp hw with hw | hw
  · exact hes₁ w hw
  · exact hf a s w hw

theorem Always.attempt (hp : Always P p) (hh : ∀ e, Always P (h e)) : Always P (Prog.attempt p h) := by
  refine Emits.attempt (R := fun _ es => ∀ w ∈ es, P w) hp.emits (fun _ _ hes => hes) fun e _ hes s w hw => ?_
  rcases List.mem_append.mp hw with hw | hw
  · exact hes w hw
  · exact hh e s w hw

/-- After a silent beginning only the rest is seen. -/
theorem Silent.emits_bind (hp : Silent p) (he : ∀ e, R (.error e) []) (hf : ∀ a, Emits (f a) R) :
    Emits (p >>= f) R :=
  Emits.bind (S := fun _ es => es = []) hp.events_eq (fun e es hes => hes ▸ he e)
    (fun a es₁ hes₁ => by rw [hes₁]; exact hf a)

/-! ### Where the state goes -/

/-- From every state, `p` moves the state along `R` and emits only events that satisfy `P`. -/
def Within (R : σ → σ → Prop) (P : ω → Prop) (p : Prog ω σ ε α) : Prop :=
  ∀ s, R s (run p s).state ∧ ∀ w ∈ (run p s).events, P w

section Within

variable {R : σ → σ → Prop}

theorem within_update {g : σ → σ} (h : ∀ s, R s (g s)) : Within R P (update g : Prog ω σ ε Unit) :=
  fun s => ⟨h s, fun _ hw => (List.not_mem_nil hw).elim⟩

variable [Std.Refl R]

theorem within_pure (a : α) : Within R P (pure a : Prog ω σ ε α) :=
  fun s => ⟨Std.Refl.refl s, fun _ hw => (List.not_mem_nil hw).elim⟩

theorem within_raise (e : ε) : Within R P (raise e : Prog ω σ ε α) :=
  fun s => ⟨Std.Refl.refl s, fun _ hw => (List.not_mem_nil hw).elim⟩

theorem within_read : Within R P (read : Prog ω σ ε σ) :=
  fun s => ⟨Std.Refl.refl s, fun _ hw => (List.not_mem_nil hw).elim⟩

theorem within_ofExcept (x : Except ε α) : Within R P (ofExcept x : Prog ω σ ε α) := by
  cases x with
  | ok a => exact within_pure a
  | error e => exact within_raise e

theorem within_emit {w : ω} (h : P w) : Within R P (emit w : Prog ω σ ε Unit) :=
  fun s => ⟨Std.Refl.refl s, fun _ hw => List.mem_singleton.mp hw ▸ h⟩

omit [Std.Refl R]

variable [IsTrans σ R]

theorem Within.bind (hp : Within R P p) (hf : ∀ a, Within R P (f a)) : Within R P (p >>= f) := by
  intro s
  have h := hp s
  rw [run_bind]
  match hr : run p s with
  | ⟨.ok a, s', es⟩ =>
    rw [hr] at h
    refine ⟨IsTrans.trans _ _ _ h.1 (hf a s').1, fun w hw => ?_⟩
    rcases List.mem_append.mp hw with hw | hw
    · exact h.2 w hw
    · exact (hf a s').2 w hw
  | ⟨.error e, s', es⟩ =>
    rw [hr] at h
    exact h

theorem Within.attempt (hp : Within R P p) (hh : ∀ e, Within R P (h e)) : Within R P (Prog.attempt p h) := by
  intro s
  have hs := hp s
  rw [run_attempt]
  match hr : run p s with
  | ⟨.ok a, s', es⟩ =>
    rw [hr] at hs
    exact hs
  | ⟨.error e, s', es⟩ =>
    rw [hr] at hs
    refine ⟨IsTrans.trans _ _ _ hs.1 (hh e s').1, fun w hw => ?_⟩
    rcases List.mem_append.mp hw with hw | hw
    · exact hs.2 w hw
    · exact (hh e s').2 w hw

theorem Within.each [Std.Refl R] {g : β → Prog ω σ ε Unit} (h : ∀ b, Within R P (g b)) :
    ∀ l, Within R P (each g l)
  | [] => within_pure ()
  | b :: l => (h b).bind fun _ => Within.each h l

theorem Within.mapM [Std.Refl R] {g : α → Prog ω σ ε β} (h : ∀ a, Within R P (g a)) : ∀ l : List α, Within R P (l.mapM g)
  | [] => within_pure []
  | a :: l => by
    rw [List.mapM_cons]
    exact (h a).bind fun b => (Within.mapM h l).bind fun bs => within_pure (b :: bs)

end Within

/-- The relation of keeping an invariant. -/
def Keeps (I : σ → Prop) (s t : σ) : Prop := I s → I t

instance (I : σ → Prop) : Std.Refl (Keeps I) := ⟨fun _ h => h⟩

instance (I : σ → Prop) : IsTrans σ (Keeps I) := ⟨fun _ _ _ h h' hs => h' (h hs)⟩

/-! ### A log in the state -/

/-- The list `f` of the state grows by what `g` picks from the events. -/
def Records (f : σ → List β) (g : ω → Option β) (p : Prog ω σ ε α) : Prop :=
  ∀ s, f (run p s).state = f s ++ (run p s).events.filterMap g

section Records

variable {γ : Type} {k : σ → List γ} {g : ω → Option γ}

theorem records_read : Records k g (read : Prog ω σ ε σ) := fun _ => (List.append_nil _).symm

theorem records_emit {w : ω} (h : g w = none) : Records k g (emit w : Prog ω σ ε Unit) := fun s => by
  show k s = k s ++ [w].filterMap g
  rw [List.filterMap_cons_none h, List.filterMap_nil, List.append_nil]

theorem records_update {m : σ → σ} (h : ∀ s, k (m s) = k s) : Records k g (update m : Prog ω σ ε Unit) :=
  fun s => (h s).trans (List.append_nil _).symm

/-- An event and the entry for it. -/
theorem records_emit_update {w : ω} {c : γ} {m : σ → σ} (hw : g w = some c) (h : ∀ s, k (m s) = k s ++ [c]) :
    Records k g (emit w >>= fun _ => (update m : Prog ω σ ε Unit)) := fun s => by
  show k (m s) = k s ++ [w].filterMap g
  rw [List.filterMap_cons_some hw, List.filterMap_nil, h]

theorem Records.bind (hp : Records k g p) (hf : ∀ a, Records k g (f a)) : Records k g (p >>= f) := by
  intro s
  have h := hp s
  rw [run_bind]
  match hr : run p s with
  | ⟨.ok a, s', es⟩ =>
    rw [hr] at h
    dsimp only at h ⊢
    rw [hf a s', h, List.filterMap_append, List.append_assoc]
  | ⟨.error e, s', es⟩ =>
    rw [hr] at h
    exact h

theorem Records.attempt (hp : Records k g p) (hh : ∀ e, Records k g (h e)) : Records k g (Prog.attempt p h) := by
  intro s
  have hs := hp s
  rw [run_attempt]
  match hr : run p s with
  | ⟨.ok a, s', es⟩ =>
    rw [hr] at hs
    exact hs
  | ⟨.error e, s', es⟩ =>
    rw [hr] at hs
    dsimp only at hs ⊢
    rw [hh e s', hs, List.filterMap_append, List.append_assoc]

end Records

/-! ### Comparing programs -/

/-- The result and the events do not depend on the state. -/
def Uniform (p : Prog ω σ ε α) : Prop :=
  ∀ s s', (run p s).result = (run p s').result ∧ (run p s).events = (run p s').events

theorem uniform_pure (a : α) : Uniform (pure a : Prog ω σ ε α) := fun _ _ => ⟨rfl, rfl⟩

theorem uniform_raise (e : ε) : Uniform (raise e : Prog ω σ ε α) := fun _ _ => ⟨rfl, rfl⟩

theorem uniform_ofExcept (x : Except ε α) : Uniform (ofExcept x : Prog ω σ ε α) := by
  cases x with
  | ok a => exact uniform_pure a
  | error e => exact uniform_raise e

theorem uniform_emit (w : ω) : Uniform (emit w : Prog ω σ ε Unit) := fun _ _ => ⟨rfl, rfl⟩

theorem Uniform.bind (hp : Uniform p) (hf : ∀ a, Uniform (f a)) : Uniform (p >>= f) := by
  intro s s'
  have h := hp s s'
  rw [run_bind, run_bind]
  rcases hr : run p s with ⟨r, t, es⟩
  rcases hr' : run p s' with ⟨r', t', es'⟩
  rw [hr, hr'] at h
  obtain ⟨hresult, hevents⟩ := h
  obtain rfl : r = r' := hresult
  obtain rfl : es = es' := hevents
  cases r with
  | error e => exact ⟨rfl, rfl⟩
  | ok a =>
    obtain ⟨hresult, hevents⟩ := hf a t t'
    refine ⟨hresult, ?_⟩
    dsimp only
    rw [hevents]

theorem uniform_update (g : σ → σ) : Uniform (update g : Prog ω σ ε Unit) := fun _ _ => ⟨rfl, rfl⟩

theorem Uniform.attempt {h : ε → Prog ω σ ε α} (hp : Uniform p) (hh : ∀ e, Uniform (h e)) :
    Uniform (Prog.attempt p h) := by
  intro s s'
  have hsame := hp s s'
  rw [run_attempt, run_attempt]
  rcases hr : run p s with ⟨r, t, es⟩
  rcases hr' : run p s' with ⟨r', t', es'⟩
  rw [hr, hr'] at hsame
  obtain ⟨hresult, hevents⟩ := hsame
  obtain rfl : r = r' := hresult
  obtain rfl : es = es' := hevents
  cases r with
  | ok a => exact ⟨rfl, rfl⟩
  | error e =>
    obtain ⟨hresult, hevents⟩ := hh e t t'
    refine ⟨hresult, ?_⟩
    dsimp only
    rw [hevents]

theorem Uniform.each {g : β → Prog ω σ ε Unit} (h : ∀ b, Uniform (g b)) : ∀ l : List β, Uniform (Prog.each g l)
  | [] => uniform_pure ()
  | b :: l => (h b).bind fun _ => Uniform.each h l

variable {γ δ : Type} {obs : ω → Option γ}

/-- What is observed of a program's run. -/
def observed (obs : ω → Option γ) (p : Prog ω σ ε α) (s : σ) : List γ := (run p s).events.filterMap obs

/-- From any two states the same is observed of both programs. -/
def Alike (obs : ω → Option γ) (p : Prog ω σ ε α) (q : Prog ω σ ε δ) : Prop :=
  ∀ s s', observed obs p s = observed obs q s'

/-- **Common beginning**: programs that begin alike and without a look at the state are alike if they go on alike. -/
theorem Alike.bind {g : α → Prog ω σ ε δ} (hp : Uniform p) (h : ∀ a, Alike obs (f a) (g a)) :
    Alike obs (p >>= f) (p >>= g) := by
  intro s s'
  have hsame := hp s s'
  rw [observed, observed, run_bind, run_bind]
  rcases hr : run p s with ⟨r, t, es⟩
  rcases hr' : run p s' with ⟨r', t', es'⟩
  rw [hr, hr'] at hsame
  obtain ⟨hresult, hevents⟩ := hsame
  obtain rfl : r = r' := hresult
  obtain rfl : es = es' := hevents
  cases r with
  | error e => rfl
  | ok a =>
    have htail : (run (f a) t).events.filterMap obs = (run (g a) t').events.filterMap obs := h a t t'
    rw [List.filterMap_append, List.filterMap_append, htail]

theorem observed_of_always (h : Always (fun w => obs w = none) p) (s : σ) : observed obs p s = [] := by
  rw [observed, List.filterMap_eq_nil_iff]
  exact h s

/-- An unseen end adds nothing. -/
theorem observed_bind_of_always (hf : ∀ a, Always (fun w => obs w = none) (f a)) (s : σ) :
    observed obs (p >>= f) s = observed obs p s := by
  rw [observed, observed, run_bind]
  rcases run p s with ⟨r, t, es⟩
  cases r with
  | error e => rfl
  | ok a =>
    have htail : (run (f a) t).events.filterMap obs = [] := observed_of_always (hf a) t
    rw [List.filterMap_append, htail, List.append_nil]

/-- An unseen handler adds nothing. -/
theorem observed_attempt_of_always {h : ε → Prog ω σ ε α} (hh : ∀ e, Always (fun w => obs w = none) (h e)) (s : σ) :
    observed obs (Prog.attempt p h) s = observed obs p s := by
  rw [observed, observed, run_attempt]
  rcases run p s with ⟨r, t, es⟩
  cases r with
  | ok a => rfl
  | error e =>
    have htail : (run (h e) t).events.filterMap obs = [] := observed_of_always (hh e) t
    rw [List.filterMap_append, htail, List.append_nil]

end Prog

end Dynamy.Lib
