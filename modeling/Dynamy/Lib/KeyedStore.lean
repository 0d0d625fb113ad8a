import Mathlib.Logic.Function.Basic
import Mathlib.Data.List.Basic

/-!
# Dynamy.Lib.KeyedStore — a map behind a flat store of names

A finite map with keys up to an equality `==` is kept in a flat map from names: an operation on a key is done under
the name of the key, which need not exist.  The store answers like the map, whatever the values are, exactly for the
sequences in which every key that is used has a name and shares it with the equal keys of the map and no others
(`answersAlike_iff`).
-/

namespace Dynamy.Lib

variable {K S V ε σ α β : Type*}

inductive MapOp (K V : Type*)
  | get (k : K)
  | put (k : K) (v : V)
  | remove (k : K)
  | clear

/-- What a machine answers, action by action. -/
def answers (step : σ → α → σ × β) : σ → List α → List β
  | _, [] => []
  | s, a :: as => (step s a).2 :: answers step (step s a).1 as

/-! ### The map -/

section Map

variable [BEq K]

/-- The value of the entry of `k`. -/
def lookupKey (m : List (K × V)) (k : K) : Option V := (m.find? fun p => p.1 == k).map Prod.snd

def eraseKey (m : List (K × V)) (k : K) : List (K × V) := m.filter fun p => !(p.1 == k)

/-- An operation on the map, with the value that it returns. -/
def mapStep (m : List (K × V)) : MapOp K V → List (K × V) × Option V
  | .get k => (m, lookupKey m k)
  | .put k v => ((k, v) :: eraseKey m k, lookupKey m k)
  | .remove k => (eraseKey m k, lookupKey m k)
  | .clear => ([], none)

/-- The keys of the map after an operation. -/
def keysStep (ks : List K) : MapOp K V → List K
  | .get _ => ks
  | .put k _ => k :: ks.filter fun k' => !(k' == k)
  | .remove k => ks.filter fun k' => !(k' == k)
  | .clear => []

theorem mem_eraseKey {m : List (K × V)} {k : K} {p : K × V} : p ∈ eraseKey m k ↔ p ∈ m ∧ (p.1 == k) = false := by
  rw [eraseKey, List.mem_filter, Bool.not_eq_true']

theorem keys_mapStep (m : List (K × V)) (op : MapOp K V) :
    (mapStep m op).1.map Prod.fst = keysStep (m.map Prod.fst) op := by
  have herase : ∀ k, (eraseKey m k).map Prod.fst = (m.map Prod.fst).filter fun k' => !(k' == k) := by
    intro k
    rw [eraseKey, List.filter_map]
    rfl
  cases op with
  | get k => rfl
  | put k v => rw [mapStep, keysStep, List.map_cons, herase]
  | remove k => rw [mapStep, keysStep, herase]
  | clear => rfl

/-- No two entries have equal keys. -/
def KeysDiffer (m : List (K × V)) : Prop := ∀ p ∈ m, ∀ q ∈ m, (p.1 == q.1) = true → p = q

theorem KeysDiffer.put [EquivBEq K] {m : List (K × V)} (h : KeysDiffer m) (k : K) (v : V) :
    KeysDiffer ((k, v) :: eraseKey m k) := by
  intro p hp q hq hpq
  rcases List.mem_cons.mp hp with rfl | hp <;> rcases List.mem_cons.mp hq with rfl | hq
  · rfl
  · have hne := (mem_eraseKey.mp hq).2
    rw [BEq.symm hpq] at hne
    cases hne
  · have hne := (mem_eraseKey.mp hp).2
    rw [hpq] at hne
    cases hne
  · exact h p (mem_eraseKey.mp hp).1 q (mem_eraseKey.mp hq).1 hpq

theorem lookupKey_eq_some [EquivBEq K] {m : List (K × V)} (hm : KeysDiffer m) {k : K} {v : V} :
    lookupKey m k = some v ↔ ∃ p ∈ m, (p.1 == k) = true ∧ p.2 = v := by
  rw [lookupKey, Option.map_eq_some_iff]
  constructor
  · rintro ⟨p, hfind, hv⟩
    have hpk := List.find?_some hfind
    exact ⟨p, List.mem_of_find?_eq_some hfind, hpk, hv⟩
  · rintro ⟨p, hp, hpk, hv⟩
    have hfound : (m.find? fun p => p.1 == k).isSome = true := List.find?_isSome.mpr ⟨p, hp, hpk⟩
    obtain ⟨q, hfind⟩ := Option.isSome_iff_exists.mp hfound
    -- the entry found is the only one of the key
    have hqk : (q.1 == k) = true := by
      have hpred := List.find?_some hfind
      exact hpred
    have hqp : q = p := hm q (List.mem_of_find?_eq_some hfind) p hp (BEq.trans hqk (BEq.symm hpk))
    exact ⟨q, hfind, hqp ▸ hv⟩

end Map

/-! ### The store -/

section Store

variable (name : K → Except ε S)

/-- An operation on the store, done under the name of its key. -/
def storeStep [DecidableEq S] (f : S → Option V) : MapOp K V → (S → Option V) × Except ε (Option V)
  | .get k =>
    match name k with
    | .ok s => (f, .ok (f s))
    | .error e => (f, .error e)
  | .put k v =>
    match name k with
    | .ok s => (Function.update f s (some v), .ok (f s))
    | .error e => (f, .error e)
  | .remove k =>
    match name k with
    | .ok s => (Function.update f s none, .ok (f s))
    | .error e => (f, .error e)
  | .clear => (fun _ => none, .ok none)

variable [BEq K]

/-- `k` has a name, which is that of the equal keys among `ks` and of no others. -/
def Names (ks : List K) (k : K) : Prop := ∃ s, name k = .ok s ∧ ∀ k' ∈ ks, (k' == k) = true ↔ name k' = .ok s

/-- The key of the operation, if it has one, is named among the keys of the map. -/
def MapOp.Named (ks : List K) : MapOp K V → Prop
  | .get k => Names name ks k
  | .put k _ => Names name ks k
  | .remove k => Names name ks k
  | .clear => True

/-- Each operation is named at its turn, from a map with the keys `ks` on. -/
def NamedAlong : List K → List (MapOp K V) → Prop
  | _, [] => True
  | ks, op :: ops => op.Named name ks ∧ NamedAlong (keysStep ks op) ops

/-- From the beginning, the store answers what the map answers. -/
def AnswersAlike [DecidableEq S] (ops : List (MapOp K V)) : Prop :=
  answers (storeStep name) (fun _ => none) ops = (answers mapStep [] ops).map .ok

end Store

/-! ### The store holds the map -/

section Simulation

variable [BEq K] {name : K → Except ε S} {f : S → Option V} {m : List (K × V)}

/-- The store has the entries of the map under their names. -/
structure Holds (name : K → Except ε S) (f : S → Option V) (m : List (K × V)) : Prop where
  differ : KeysDiffer m
  named : ∀ p ∈ m, ∃ s, name p.1 = .ok s
  apart : ∀ p ∈ m, ∀ q ∈ m, name p.1 = name q.1 → p = q
  read : ∀ s v, f s = some v ↔ ∃ p ∈ m, name p.1 = .ok s ∧ p.2 = v

theorem holds_nil : Holds name (fun _ => none) ([] : List (K × V)) where
  differ p hp := absurd hp List.not_mem_nil
  named p hp := absurd hp List.not_mem_nil
  apart p hp := absurd hp List.not_mem_nil
  read s v := by simp

/-- A key that is named has the same value in both. -/
theorem Holds.lookup [EquivBEq K] (h : Holds name f m) {k : K} {s : S}
    (hk : ∀ p ∈ m, (p.1 == k) = true ↔ name p.1 = .ok s) : f s = lookupKey m k := by
  refine Option.ext fun v => ?_
  rw [h.read, lookupKey_eq_some h.differ]
  refine exists_congr fun p => and_congr_right fun hp => ?_
  rw [hk p hp]

theorem names_iff {k : K} : Names name (m.map Prod.fst) k ↔
    ∃ s, name k = .ok s ∧ ∀ p ∈ m, (p.1 == k) = true ↔ name p.1 = .ok s := by
  unfold Names
  simp only [List.forall_mem_map]

/-- What is left without a key that is named has other names. -/
theorem mem_eraseKey_iff_name {k : K} {s : S} (hk : ∀ p ∈ m, (p.1 == k) = true ↔ name p.1 = .ok s) (p : K × V) :
    p ∈ eraseKey m k ↔ p ∈ m ∧ name p.1 ≠ .ok s := by
  rw [mem_eraseKey]
  refine and_congr_right fun hp => ?_
  rw [← Bool.not_eq_true, hk p hp]

variable [DecidableEq S]

theorem Holds.erase (h : Holds name f m) {k : K} {s : S} (hk : ∀ p ∈ m, (p.1 == k) = true ↔ name p.1 = .ok s) :
    Holds name (Function.update f s none) (eraseKey m k) where
  differ p hp q hq := h.differ p (mem_eraseKey.mp hp).1 q (mem_eraseKey.mp hq).1
  named p hp := h.named p (mem_eraseKey.mp hp).1
  apart p hp q hq := h.apart p (mem_eraseKey.mp hp).1 q (mem_eraseKey.mp hq).1
  read s' v := by
    have hmem := mem_eraseKey_iff_name hk
    by_cases hs : s' = s
    · subst hs
      rw [Function.update_self]
      refine iff_of_false (fun hnone => by cases hnone) ?_
      rintro ⟨p, hp, hps, -⟩
      exact ((hmem p).mp hp).2 hps
    · rw [Function.update_of_ne hs, h.read]
      refine exists_congr fun p => ?_
      rw [hmem]
      refine ⟨fun hp => ⟨⟨hp.1, fun hps => hs ?_⟩, hp.2⟩, fun hp => ⟨hp.1.1, hp.2⟩⟩
      exact Except.ok.inj (hp.2.1.symm.trans hps)

theorem Holds.put [EquivBEq K] (h : Holds name f m) {k : K} {s : S} (hks : name k = .ok s)
    (hk : ∀ p ∈ m, (p.1 == k) = true ↔ name p.1 = .ok s) (v : V) :
    Holds name (Function.update f s (some v)) ((k, v) :: eraseKey m k) := by
  have hrest := h.erase hk
  have hother : ∀ p ∈ eraseKey m k, name p.1 ≠ .ok s := fun p hp => ((mem_eraseKey_iff_name hk p).mp hp).2
  refine ⟨h.differ.put k v, ?_, ?_, ?_⟩
  · intro p hp
    rcases List.mem_cons.mp hp with rfl | hp
    · exact ⟨s, hks⟩
    · exact hrest.named p hp
  · intro p hp q hq hpq
    rcases List.mem_cons.mp hp with rfl | hp
    · rcases List.mem_cons.mp hq with rfl | hq
      · rfl
      · exact absurd (hpq.symm.trans hks) (hother q hq)
    · rcases List.mem_cons.mp hq with rfl | hq
      · exact absurd (hpq.trans hks) (hother p hp)
      · exact hrest.apart p hp q hq hpq
  · intro s' w
    simp only [List.mem_cons, exists_eq_or_imp]
    by_cases hs : s' = s
    · subst hs
      rw [Function.update_self, Option.some.injEq]
      refine ⟨fun hvw => .inl ⟨hks, hvw⟩, ?_⟩
      rintro (⟨-, hvw⟩ | ⟨p, hp, hps, -⟩)
      · exact hvw
      · exact absurd hps (hother p hp)
    · have hread := hrest.read s' w
      rw [Function.update_of_ne hs] at hread
      rw [Function.update_of_ne hs, hread]
      refine ⟨fun hex => .inr hex, ?_⟩
      rintro (⟨hks', -⟩ | hex)
      · exact absurd (Except.ok.inj (hks'.symm.trans hks)) hs
      · exact hex

/-- **The step lemma**: a named operation answers alike, and the store goes on holding the map. -/
theorem Holds.step [EquivBEq K] (h : Holds name f m) {op : MapOp K V} (hop : op.Named name (m.map Prod.fst)) :
    (storeStep name f op).2 = .ok (mapStep m op).2 ∧ Holds name (storeStep name f op).1 (mapStep m op).1 := by
  cases op with
  | get k =>
    obtain ⟨s, hks, hk⟩ := names_iff.mp hop
    simp only [storeStep, mapStep, hks, h.lookup hk]
    exact ⟨trivial, h⟩
  | put k v =>
    obtain ⟨s, hks, hk⟩ := names_iff.mp hop
    simp only [storeStep, mapStep, hks, h.lookup hk]
    exact ⟨trivial, h.put hks hk v⟩
  | remove k =>
    obtain ⟨s, hks, hk⟩ := names_iff.mp hop
    simp only [storeStep, mapStep, hks, h.lookup hk]
    exact ⟨trivial, h.erase hk⟩
  | clear => exact ⟨rfl, holds_nil⟩

theorem answers_of_namedAlong [EquivBEq K] (h : Holds name f m) {ops : List (MapOp K V)}
    (hops : NamedAlong name (m.map Prod.fst) ops) :
    answers (storeStep name) f ops = (answers mapStep m ops).map .ok := by
  induction ops generalizing f m with
  | nil => rfl
  | cons op ops ih =>
    obtain ⟨hop, hrest⟩ := hops
    obtain ⟨hanswer, hholds⟩ := h.step hop
    rw [← keys_mapStep] at hrest
    rw [answers, answers, List.map_cons, hanswer, ih hholds hrest]

end Simulation

/-! ### Where it does not -/

/-- The operation with the value to put, if it puts one. -/
def MapOp.withValue (v : V) : MapOp K Unit → MapOp K V
  | .get k => .get k
  | .put k _ => .put k v
  | .remove k => .remove k
  | .clear => .clear

/-- The operations from the `n`-th on, with the values at their places. -/
def withValues (values : ℕ → V) : ℕ → List (MapOp K Unit) → List (MapOp K V)
  | _, [] => []
  | n, op :: ops => op.withValue (values n) :: withValues values (n + 1) ops

section Exact

variable [BEq K] {name : K → Except ε S} {f : S → Option V} {m : List (K × V)}

theorem named_withValue (ks : List K) (op : MapOp K Unit) (v : V) :
    (op.withValue v).Named name ks ↔ op.Named name ks := by
  cases op <;> rfl

theorem keysStep_withValue (ks : List K) (op : MapOp K Unit) (v : V) :
    keysStep ks (op.withValue v) = keysStep ks op := by
  cases op <;> rfl

theorem namedAlong_withValues (values : ℕ → V) (n : ℕ) (ks : List K) (ops : List (MapOp K Unit)) :
    NamedAlong name ks (withValues values n ops) ↔ NamedAlong name ks ops := by
  induction ops generalizing n ks with
  | nil => rfl
  | cons op ops ih => rw [withValues, NamedAlong, NamedAlong, named_withValue, keysStep_withValue, ih]

/-- A key that is not named has another value in the store than in the map, if the values of the map differ. -/
theorem Holds.lookup_ne [EquivBEq K] (h : Holds name f m) (hvalues : ∀ p ∈ m, ∀ q ∈ m, p.2 = q.2 → p = q) {k : K}
    {s : S} (hks : name k = .ok s) (hk : ¬ Names name (m.map Prod.fst) k) : f s ≠ lookupKey m k := by
  intro hsame
  refine hk (names_iff.mpr ⟨s, hks, fun p hp => ⟨fun hpk => ?_, fun hps => ?_⟩⟩)
  · have hmap : lookupKey m k = some p.2 := (lookupKey_eq_some h.differ).mpr ⟨p, hp, hpk, rfl⟩
    obtain ⟨q, hq, hqs, hqp⟩ := (h.read s p.2).mp (hsame.trans hmap)
    rwa [hvalues p hp q hq hqp.symm]
  · have hstore : f s = some p.2 := (h.read s p.2).mpr ⟨p, hp, hps, rfl⟩
    obtain ⟨q, hq, hqk, hqp⟩ := (lookupKey_eq_some h.differ).mp (hsame.symm.trans hstore)
    rwa [hvalues p hp q hq hqp.symm]

variable [DecidableEq S]

theorem Holds.step_ne [EquivBEq K] (h : Holds name f m) (hvalues : ∀ p ∈ m, ∀ q ∈ m, p.2 = q.2 → p = q)
    {op : MapOp K V} (hop : ¬ op.Named name (m.map Prod.fst)) : (storeStep name f op).2 ≠ .ok (mapStep m op).2 := by
  have hkey : ∀ k, ¬ Names name (m.map Prod.fst) k → (storeStep name f (.get k)).2 ≠ .ok (lookupKey m k) := by
    intro k hk
    rw [storeStep]
    cases hks : name k with
    | error e => simp
    | ok s =>
      intro hsame
      exact h.lookup_ne hvalues hks hk (Except.ok.inj hsame)
  cases op with
  | get k => exact hkey k hop
  | put k v =>
    have hne := hkey k hop
    simp only [storeStep, mapStep] at hne ⊢
    cases hks : name k with
    | error e => simp
    | ok s => simpa only [hks] using hne
  | remove k =>
    have hne := hkey k hop
    simp only [storeStep, mapStep] at hne ⊢
    cases hks : name k with
    | error e => simp
    | ok s => simpa only [hks] using hne
  | clear => exact absurd trivial hop

/-- The values of the map are different numbers below `n`. -/
def Numbered (n : ℕ) (m : List (K × ℕ)) : Prop :=
  (∀ p ∈ m, p.2 < n) ∧ ∀ p ∈ m, ∀ q ∈ m, p.2 = q.2 → p = q

theorem Numbered.step {n : ℕ} {m : List (K × ℕ)} (h : Numbered n m) (op : MapOp K Unit) :
    Numbered (n + 1) (mapStep m (op.withValue n)).1 := by
  obtain ⟨hlt, hne⟩ := h
  have herase : ∀ k, Numbered (n + 1) (eraseKey m k) := fun k =>
    ⟨fun p hp => Nat.lt_succ_of_lt (hlt p (mem_eraseKey.mp hp).1),
      fun p hp q hq => hne p (mem_eraseKey.mp hp).1 q (mem_eraseKey.mp hq).1⟩
  cases op with
  | get k => exact ⟨fun p hp => Nat.lt_succ_of_lt (hlt p hp), hne⟩
  | put k v =>
    have hold : ∀ p ∈ eraseKey m k, p.2 < n := fun p hp => hlt p (mem_eraseKey.mp hp).1
    refine ⟨fun p hp => ?_, fun p hp q hq hpq => ?_⟩
    · rcases List.mem_cons.mp hp with rfl | hp
      · exact Nat.lt_succ_self n
      · exact (herase k).1 p hp
    · rcases List.mem_cons.mp hp with rfl | hp
      · rcases List.mem_cons.mp hq with rfl | hq
        · rfl
        · exact absurd hpq.symm (Nat.ne_of_lt (hold q hq))
      · rcases List.mem_cons.mp hq with rfl | hq
        · exact absurd hpq (Nat.ne_of_lt (hold p hp))
        · exact (herase k).2 p hp q hq hpq
  | remove k => exact herase k
  | clear => exact ⟨fun p hp => absurd hp List.not_mem_nil, fun p hp => absurd hp List.not_mem_nil⟩

/-- With a new number for every operation, answers that are alike show that the operations are named. -/
theorem namedAlong_of_answers [EquivBEq K] {n : ℕ} {f : S → Option ℕ} {m : List (K × ℕ)} (h : Holds name f m)
    (hm : Numbered n m) {ops : List (MapOp K Unit)}
    (hsame : answers (storeStep name) f (withValues id n ops) = (answers mapStep m (withValues id n ops)).map .ok) :
    NamedAlong name (m.map Prod.fst) ops := by
  induction ops generalizing n f m with
  | nil => trivial
  | cons op ops ih =>
    rw [withValues, answers, answers, List.map_cons, List.cons.injEq] at hsame
    have hop : (op.withValue n).Named name (m.map Prod.fst) := by
      by_contra hnot
      exact h.step_ne hm.2 hnot hsame.1
    have hrest := ih (h.step hop).2 (hm.step op) hsame.2
    rw [keys_mapStep, keysStep_withValue] at hrest
    exact ⟨(named_withValue _ op n).mp hop, hrest⟩

/-- **A map behind a flat store, exactly.**  The operations answer alike for all values if and only if each of them is
named at its turn. -/
theorem answersAlike_iff [EquivBEq K] (ops : List (MapOp K Unit)) :
    (∀ (V : Type) (values : ℕ → V), AnswersAlike name (withValues values 0 ops)) ↔ NamedAlong name [] ops := by
  constructor
  · intro h
    have hnumbered : Numbered 0 ([] : List (K × ℕ)) :=
      ⟨fun p hp => absurd hp List.not_mem_nil, fun p hp => absurd hp List.not_mem_nil⟩
    exact namedAlong_of_answers holds_nil hnumbered (h ℕ id)
  · intro h V values
    exact answers_of_namedAlong holds_nil ((namedAlong_withValues values 0 [] ops).mpr h)

end Exact

end Dynamy.Lib
