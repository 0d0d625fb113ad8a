import Mathlib.Data.List.GetD
import Dynamy.Log.Overloads

/-!
# Dynamy.Log.Events — the log of any run, and the texts of the events

What is logged in any run is accounted for: the entries sent before the first message that ends the actor, `close` among
them, in the order sent, and nothing after it (`logged_exact`).  The text of an event is found by a loop that shifts its
type; it is the one at the highest bit of the type (`eventMessage_eq`).
-/

namespace Dynamy.Log

open Dynamy.Java Dynamy.Lib

variable {L : Type}

instance : DecidablePred (Message.Ends (L := L))
  | .logEntry entry => inferInstanceAs (Decidable (entry.bundle = none))
  | .registerListener _ => .isFalse id
  | .removeListener _ => .isFalse id
  | .listListeners => .isFalse id
  | .removeAllListeners => .isTrue trivial

/-- What is sent before the first message that ends the actor. -/
def heard (ms : List (Message L)) : List (Message L) := ms.takeWhile fun m => ¬ m.Ends

/-! ### What the actor makes of what it is sent -/

/-- Only a removal is matched by no case. -/
theorem matched_or_remove (m : Message L) :
    Actor.Matched react m = true ∨ ∃ listener, m = .removeListener listener := by
  cases m with
  | removeListener listener => exact .inr ⟨listener, rfl⟩
  | _ => exact .inl rfl

theorem not_ends_of_not_fatal {m : Message L} (h : ¬ Actor.Fatal react m) : ¬ m.Ends := by
  intro hends
  refine h (fatal_of_not_survivable fun hs => ?_)
  cases m with
  | logEntry entry => exact hs hends
  | _ => first | exact hends | exact hs

/-- A message that ends the actor is not logged. -/
theorem slf4j_of_ends {m : Message L} (h : m.Ends) (s : List L) :
    (Actor.play react s [m]).2.filterMap LogEvent.slf4jCall = [] := by
  cases m with
  | logEntry entry =>
    have hnull : entry.bundle = none := h
    simp only [Actor.play, react, run_reactEntry_null hnull]
    rfl
  | removeAllListeners => rfl
  | _ => exact h.elim

theorem heard_cons_of_not_ends {m : Message L} (h : ¬ m.Ends) (ms : List (Message L)) :
    heard (m :: ms) = m :: heard ms :=
  List.takeWhile_cons_of_pos (by simpa using h)

theorem heard_cons_of_ends {m : Message L} (h : m.Ends) (ms : List (Message L)) : heard (m :: ms) = [] :=
  List.takeWhile_cons_of_neg (by simpa using h)

theorem heard_append {ms : List (Message L)} (h : ∀ m ∈ ms, ¬ m.Ends) (ms' : List (Message L)) :
    heard (ms ++ ms') = ms ++ heard ms' :=
  List.takeWhile_append_of_pos fun m hm => by simpa using h m hm

/-- What no case matches may be left out. -/
theorem heard_filter (ms : List (Message L)) :
    heard (ms.filter (Actor.Matched react)) = (heard ms).filter (Actor.Matched react) := by
  induction ms with
  | nil => rfl
  | cons m ms ih =>
    rcases matched_or_remove m with hm | ⟨listener, rfl⟩
    · rw [List.filter_cons_of_pos hm]
      by_cases hends : m.Ends
      · rw [heard_cons_of_ends hends, heard_cons_of_ends hends, List.filter_nil]
      · rw [heard_cons_of_not_ends hends, heard_cons_of_not_ends hends, List.filter_cons_of_pos hm, ih]
    · have hskip : ¬ Actor.Matched react (.removeListener listener : Message L) = true :=
        Bool.false_ne_true
      rw [List.filter_cons_of_neg hskip, heard_cons_of_not_ends id, List.filter_cons_of_neg hskip, ih]

theorem entryCalls_filter (ms : List (Message L)) : entryCalls (ms.filter (Actor.Matched react)) = entryCalls ms := by
  induction ms with
  | nil => rfl
  | cons m ms ih =>
    unfold entryCalls at ih ⊢
    rcases matched_or_remove m with hm | ⟨listener, rfl⟩
    · rw [List.filter_cons_of_pos hm]
      cases he : m.entry with
      | none => rw [List.filterMap_cons_none he, List.filterMap_cons_none he, ih]
      | some entry => rw [List.filterMap_cons_some he, List.filterMap_cons_some he, List.map_cons, List.map_cons, ih]
    · exact ih

theorem entryCalls_append (ms ms' : List (Message L)) : entryCalls (ms ++ ms') = entryCalls ms ++ entryCalls ms' := by
  unfold entryCalls
  rw [List.filterMap_append, List.map_append]

/-! ### The log, exactly -/

section Logged

variable {a : LoggerActor L}

theorem entryCalls_heard : entryCalls (heard a.sent) = entryCalls (heard (a.sent.filter (Actor.Matched react))) := by
  rw [heard_filter, entryCalls_filter]

/-- While it lives the actor has logged the entries that it has taken out of its mailbox. -/
theorem logged_of_running (h : Actor.Accounted react [] a) (hrun : a.running = true) :
    entryCalls (heard a.sent) = a.events.filterMap LogEvent.slf4jCall ++
      entryCalls (heard (a.mailbox.filter (Actor.Matched react))) := by
  obtain ⟨hfatal, horder⟩ := h.alive hrun
  have hends : ∀ m ∈ a.treated, ¬ m.Ends := fun m hm => not_ends_of_not_fatal (hfatal m hm)
  have hplayed : a.events = (Actor.play react [] a.treated).2 := congrArg Prod.snd h.played
  rw [entryCalls_heard, horder, heard_append hends, entryCalls_append, hplayed, play_slf4j_of_not_ends [] hends]

/-- When it has stopped it has logged all that it will. -/
theorem logged_of_stopped (h : Actor.Accounted react [] a) (hrun : a.running = false) :
    entryCalls (heard a.sent) = a.events.filterMap LogEvent.slf4jCall := by
  obtain ⟨t, f, htreated, ht, hf, u, hsent⟩ := h.stopped hrun
  have hends : ∀ m ∈ t, ¬ m.Ends := fun m hm => not_ends_of_not_fatal (ht m hm)
  have hmatched : Actor.Matched react f = true := by
    have hmem : f ∈ a.sent.filter (Actor.Matched react) := by
      rw [← hsent]
      simp
    exact (List.mem_filter.mp hmem).2
  have hfends : f.Ends := by
    by_contra hnot
    exact hf (steady_of_not_ends hnot hmatched)
  have hplayed : a.events = (Actor.play react [] (t ++ [f])).2 := htreated ▸ congrArg Prod.snd h.played
  have hlast : (Actor.play react [] (t ++ [f])).2.filterMap LogEvent.slf4jCall = entryCalls t := by
    obtain ⟨body, hbody⟩ := Option.isSome_iff_exists.mp hmatched
    have hnothing := slf4j_of_ends hfends (Actor.play react [] t).1
    simp only [Actor.play, hbody, List.append_nil] at hnothing
    simp only [Actor.play_append, hbody, List.filterMap_append, hnothing, List.append_nil]
    exact play_slf4j_of_not_ends [] hends
  rw [entryCalls_heard, ← hsent, List.append_assoc, heard_append hends, List.singleton_append,
    heard_cons_of_ends hfends, List.append_nil, hplayed, hlast]

/-- **The log, exactly.**  Whoever sends what, and however the turns of the actor fall, it has logged the first of the
entries that come before a message that ends it, in order, and nothing else.  When it has come to rest, or to its end,
it has logged all of them. -/
theorem logged_exact (h : Reaches loggerStep LoggerActor.start a) :
    a.events.filterMap LogEvent.slf4jCall <+: entryCalls (heard a.sent) ∧
      (a.receive react = none → a.events.filterMap LogEvent.slf4jCall = entryCalls (heard a.sent)) := by
  have hA := Actor.accounted h
  cases hrun : a.running with
  | true =>
    have hlogged := logged_of_running hA hrun
    refine ⟨⟨_, hlogged.symm⟩, fun hrest => ?_⟩
    rw [hlogged, Actor.filter_of_rest hrun hrest]
    exact (List.append_nil _).symm
  | false =>
    have hlogged := logged_of_stopped hA hrun
    exact ⟨⟨[], by rw [List.append_nil, hlogged]⟩, fun _ => hlogged.symm⟩

end Logged

/-- An event that comes after `close` is not logged. -/
theorem logged_exact_close :
    let shutdown : LoggerActor ℕ :=
      { state := [], running := false, mailbox := [bundleChanged ⟨2, ⟨none⟩⟩],
        events := [.slf4j ⟨loggerActorName, .info, some "BundleEvent INSTALLED", none⟩],
        sent := [bundleChanged ⟨1, ⟨none⟩⟩, close, bundleChanged ⟨2, ⟨none⟩⟩],
        treated := [bundleChanged ⟨1, ⟨none⟩⟩, close] }
    shutdown.events.filterMap LogEvent.slf4jCall = entryCalls (heard shutdown.sent) := by
  intro shutdown
  have hreach : Reaches loggerStep LoggerActor.start shutdown :=
    Runs.of_exec
      [.send (bundleChanged ⟨1, ⟨none⟩⟩), .receive, .send close, .send (bundleChanged ⟨2, ⟨none⟩⟩), .receive] (by rfl)
  exact (logged_exact hreach).2 (by rfl)

/-! ### The texts of the events -/

theorem shiftRight_eq_one_iff (t : ℤ) (i : ℕ) : t >>> i = 1 ↔ 0 < t ∧ i = t.toNat.log2 := by
  cases t with
  | negSucc n =>
    constructor
    · intro h
      cases h
    · rintro ⟨hpos, -⟩
      omega
  | ofNat n =>
    have hshift : (Int.ofNat n) >>> i = 1 ↔ n >>> i = 1 := Int.ofNat_inj (m := n >>> i) (n := 1)
    rw [hshift, Nat.shiftRight_eq_div_pow, Nat.div_eq_iff (Nat.two_pow_pos i)]
    have hpow := Nat.two_pow_pos i
    have hsucc : 2 ^ (i + 1) = 2 * 2 ^ i := by rw [Nat.pow_succ, Nat.mul_comm]
    constructor
    · rintro ⟨hle, hlt⟩
      have hpos : 0 < n := by omega
      have hlog : n.log2 = i := (Nat.log2_eq_iff (Nat.ne_of_gt hpos)).mpr ⟨by omega, by omega⟩
      exact ⟨Int.natCast_pos.mpr hpos, hlog.symm⟩
    · rintro ⟨hpos, hlog⟩
      have hne : n ≠ 0 := by
        rintro rfl
        cases hpos
      obtain ⟨hle, hlt⟩ := (Nat.log2_eq_iff hne).mp hlog.symm
      omega

/-- A loop that keeps the element at the one index that satisfies `p`, if there is one. -/
theorem foldl_zipIdx_ite {α : Type} (p : ℕ → Prop) [DecidablePred p] {k : ℕ} (h : ∀ i, p i ↔ i = k) (init : α)
    (l : List α) :
    l.zipIdx.foldl (fun acc (x, i) => if p i then x else acc) init = l.getD k init := by
  induction l using List.reverseRecOn with
  | nil => rfl
  | append_singleton l x ih =>
    rw [List.zipIdx_append, List.foldl_append, ih]
    simp only [List.zipIdx_cons, List.zipIdx_nil, List.foldl_cons, List.foldl_nil, Nat.zero_add, h]
    split_ifs with heq
    · rw [← heq, List.getD_append_right _ _ _ _ (Nat.le_refl _), Nat.sub_self]
      rfl
    · rcases Nat.lt_or_ge k l.length with hlt | hge
      · rw [List.getD_append _ _ _ _ hlt]
      · rw [List.getD_eq_default _ _ hge, List.getD_eq_default]
        rw [List.length_append, List.length_singleton]
        omega

/-- **The text of an event** is the one at the highest bit of its type, whatever other bits there are; a type beyond the
table, or one that is not positive, has none. -/
theorem eventMessage_eq (messages : List String) (eventType : ℤ) :
    eventMessage messages eventType = if 0 < eventType then messages.getD eventType.toNat.log2 "" else "" := by
  unfold eventMessage
  split_ifs with hpos
  · exact foldl_zipIdx_ite (fun i => eventType >>> i = 1)
      (fun i => (shiftRight_eq_one_iff eventType i).trans (and_iff_right hpos)) "" messages
  · have hnone : ∀ i : ℕ, ¬ eventType >>> i = (1 : ℤ) := fun i h => hpos ((shiftRight_eq_one_iff eventType i).mp h).1
    simp only [hnone, if_false]
    exact List.foldl_fixed' (fun _ => rfl) _

end Dynamy.Log
