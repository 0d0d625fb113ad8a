import Mathlib.Data.List.Basic

/-!
# Dynamy.Lib.Transducer — machines that write a word for each symbol they read

A transducer reads its input from left to right; its output is the same however the input is cut into parts.  If its
state only remembers the last symbol, its output is a function of the symbols and of those right before them
(`run_eq_flatMap`).  `precede a c` is such a function: it puts an `a` before every `c` that has none.
-/

namespace Dynamy.Lib

variable {σ α β S : Type*}

structure Transducer (σ α β : Type*) where
  next : σ → α → σ
  output : σ → α → List β

namespace Transducer

variable (T : Transducer σ α β)

def run : σ → List α → List β
  | _, [] => []
  | s, x :: xs => T.output s x ++ run (T.next s x) xs

@[simp] theorem run_nil (s : σ) : T.run s [] = [] := rfl

@[simp] theorem run_cons (s : σ) (x : α) (xs : List α) :
    T.run s (x :: xs) = T.output s x ++ T.run (T.next s x) xs := rfl

/-- `write` works on a state of its own, in which it keeps the state of the machine and all that it has written. -/
structure Implements (write : S → α → S) (state : S → σ) (out : S → List β) : Prop where
  state_write : ∀ s a, state (write s a) = T.next (state s) a
  out_write : ∀ s a, out (write s a) = out s ++ T.output (state s) a

variable {T} {write : S → α → S} {state : S → σ} {out : S → List β}

theorem Implements.out_foldl (h : T.Implements write state out) (s : S) (xs : List α) :
    out (xs.foldl write s) = out s ++ T.run (state s) xs := by
  induction xs generalizing s with
  | nil => rw [List.foldl_nil, run_nil, List.append_nil]
  | cons x xs ih =>
    rw [List.foldl_cons, ih, h.out_write, h.state_write, run_cons, List.append_assoc]

end Transducer

/-! ### Symbols with their predecessors -/

/-- Every symbol with the one before it; before the first stands `p`. -/
def withPrevious (p : Option α) (xs : List α) : List (Option α × α) := List.zip (p :: xs.map some) xs

@[simp] theorem withPrevious_nil (p : Option α) : withPrevious p [] = [] := rfl

@[simp] theorem withPrevious_cons (p : Option α) (x : α) (xs : List α) :
    withPrevious p (x :: xs) = (p, x) :: withPrevious (some x) xs := rfl

/-- The symbol at a place of the list, with the last one of what comes before. -/
theorem mem_withPrevious (p : Option α) (pre : List α) (x : α) (post : List α) :
    ((pre.getLast?).or p, x) ∈ withPrevious p (pre ++ x :: post) := by
  induction pre generalizing p with
  | nil => simp
  | cons y pre ih =>
    rw [List.cons_append, withPrevious_cons]
    refine List.mem_cons_of_mem _ ?_
    have hlast : ((y :: pre).getLast?).or p = (pre.getLast?).or (some y) := by
      rw [List.getLast?_cons]
      cases pre.getLast? <;> rfl
    rw [hlast]
    exact ih (some y)

/-- A machine that remembers the last symbol at most. -/
theorem Transducer.run_eq_flatMap (T : Transducer σ α β) (remember : Option α → σ)
    (hnext : ∀ p a, T.next (remember p) a = remember (some a)) (p : Option α) (xs : List α) :
    T.run (remember p) xs = (withPrevious p xs).flatMap fun q => T.output (remember q.1) q.2 := by
  induction xs generalizing p with
  | nil => rfl
  | cons x xs ih => rw [T.run_cons, hnext, ih, withPrevious_cons, List.flatMap_cons]

/-! ### Putting one symbol before another -/

variable {a c : α}

/-- Every `c` comes right after an `a`. -/
def Preceded (a c : α) (p : Option α) (xs : List α) : Prop := ∀ q ∈ withPrevious p xs, q.2 = c → q.1 = some a

theorem preceded_cons {p : Option α} {x : α} {xs : List α} :
    Preceded a c p (x :: xs) ↔ (x = c → p = some a) ∧ Preceded a c (some x) xs := by
  unfold Preceded
  rw [withPrevious_cons, List.forall_mem_cons]

theorem Preceded.before {xs : List α} (h : Preceded a c none xs) {pre post : List α} (hxs : xs = pre ++ c :: post) :
    ∃ pre', pre = pre' ++ [a] := by
  have hmem := mem_withPrevious none pre c post
  rw [← hxs] at hmem
  have hlast : pre.getLast? = some a := by
    have hor := h _ hmem rfl
    rwa [Option.or_none] at hor
  exact ⟨pre.dropLast, (List.dropLast_append_getLast? a hlast).symm⟩

variable [DecidableEq α]

/-- Every `c` that does not come right after an `a` becomes `a`, `c`. -/
def precede (a c : α) (p : Option α) (xs : List α) : List α :=
  (withPrevious p xs).flatMap fun q => if q.2 = c ∧ q.1 ≠ some a then [a, c] else [q.2]

theorem precede_cons (p : Option α) (x : α) (xs : List α) :
    precede a c p (x :: xs) = (if x = c ∧ p ≠ some a then [a, c] else [x]) ++ precede a c (some x) xs := by
  unfold precede
  rw [withPrevious_cons, List.flatMap_cons]

theorem preceded_precede (hac : a ≠ c) (p : Option α) (xs : List α) : Preceded a c p (precede a c p xs) := by
  induction xs generalizing p with
  | nil => exact fun q hq => absurd hq List.not_mem_nil
  | cons x xs ih =>
    rw [precede_cons]
    split
    · -- what is put in is no `c`, and what follows it is one
      rename_i hx
      rw [List.cons_append, List.singleton_append, preceded_cons, preceded_cons]
      have hrest := ih (some x)
      rw [hx.1] at hrest ⊢
      exact ⟨fun h => absurd h hac, fun _ => rfl, hrest⟩
    · rename_i hx
      rw [List.singleton_append, preceded_cons]
      exact ⟨fun hxc => not_not.mp fun hp => hx ⟨hxc, hp⟩, ih (some x)⟩

theorem precede_eq_self {p : Option α} {xs : List α} (h : Preceded a c p xs) : precede a c p xs = xs := by
  induction xs generalizing p with
  | nil => rfl
  | cons x xs ih =>
    rw [preceded_cons] at h
    rw [precede_cons, if_neg (fun hx => hx.2 (h.1 hx.1)), ih h.2, List.singleton_append]

theorem precede_precede (hac : a ≠ c) (p : Option α) (xs : List α) :
    precede a c p (precede a c p xs) = precede a c p xs :=
  precede_eq_self (preceded_precede hac p xs)

end Dynamy.Lib
