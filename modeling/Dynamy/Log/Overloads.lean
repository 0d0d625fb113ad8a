import Dynamy.Log.Logging

/-!
# Dynamy.Log.Overloads — what the `log` overloads say, and what SLF4J hears

`LogArguments` is what a call of one of the four `log` overloads says, with nothing for the arguments that its
overload does not have, and `LogArguments.call` the SLF4J call that it asks for.  The actor makes that call in its
turn for each of the overloads, except that `log(level, message, exception)` loses its exception on the way
(`carries_iff`).
-/

namespace Dynamy.Log

open Dynamy.Java Dynamy.Lib

variable {L : Type}

/-- What a call of a `log` overload says, for the bundle that requested the service. -/
structure LogArguments where
  bundle : Bundle
  sr : Option ServiceReference
  level : ℤ
  message : Option String
  exception : Option Throwable
  deriving DecidableEq, Repr

def LogCall.arguments : LogCall L → Option LogArguments
  | .log bundle level message => some ⟨bundle, none, level, message, none⟩
  | .logThrowable bundle level message exception => some ⟨bundle, none, level, message, exception⟩
  | .logReference bundle sr level message => some ⟨bundle, sr, level, message, none⟩
  | .logReferenceThrowable bundle sr level message exception => some ⟨bundle, sr, level, message, exception⟩
  | _ => none

namespace LogArguments

variable (args : LogArguments)

/-- The service is registered, if the call is about one. -/
def Live : Prop := ∀ sr, args.sr = some sr → sr.bundle ≠ none

/-- The bundle that the service reference belongs to, or the requesting one. -/
def owner : Option Bundle :=
  match args.sr with
  | some sr => sr.bundle
  | none => some args.bundle

/-- The SLF4J call that is asked for. -/
def call : Slf4jCall where
  logger := (args.owner.bind Bundle.symbolicName).getD loggerActorName
  level := slf4jLevel args.level
  message :=
    match args.sr with
    | some sr => some ("(" ++ sr.text ++ ") " ++ args.message.getD "null")
    | none => args.message
  exception := args.exception

/-- The entry that carries all of the arguments. -/
def entry : LogEntryImpl := ⟨args.owner, args.sr, args.level, args.message, args.exception⟩

theorem entry_call : args.entry.call = args.call := by
  unfold entry call LogEntryImpl.call formatMessage
  cases args.sr <;> rfl

variable {args}

theorem Live.owner_ne_none (h : args.Live) : args.owner ≠ none := by
  unfold owner
  cases hsr : args.sr with
  | none => exact Option.some_ne_none _
  | some sr => exact h sr hsr

end LogArguments

/-- `log(level, message, exception)` with an exception -/
def LogCall.Drops : LogCall L → Prop
  | .logThrowable _ _ _ exception => exception ≠ none
  | _ => False

/-- The actor ends at this message. -/
def Message.Ends : Message L → Prop
  | .logEntry entry => entry.bundle = none
  | .removeAllListeners => True
  | _ => False

/-- Whatever else is sent, and however its turns fall, the actor goes on to make the call asked for, in its place
after those of the messages before, unless one of these ends it. -/
def LogCall.Carries (c : LogCall L) (args : LogArguments) : Prop :=
  ∀ (pre post : List (Message L)) (a : LoggerActor L), Reaches loggerStep LoggerActor.start a →
    a.sent = pre ++ c.message :: post → (∀ m ∈ pre, ¬ m.Ends) →
    ∃ n b, exec loggerStep a (List.replicate n .receive) = some b ∧
      entryCalls pre ++ [args.call] <+: b.events.filterMap LogEvent.slf4jCall

/-- Treating the one call or the other does the same, from every state of the actor. -/
def SameEffect (c d : LogCall L) : Prop :=
  ∀ s, Actor.play react s [c.message] = Actor.play react s [d.message]

/-! ### The messages of the overloads -/

variable {c d : LogCall L} {args : LogArguments}

theorem message_of_not_drops (h : c.arguments = some args) (hd : ¬ c.Drops) : c.message = .logEntry args.entry := by
  cases c with
  | logThrowable bundle level message exception =>
    cases h
    rw [not_not.mp hd]
    rfl
  | log => cases h; rfl
  | logReference => cases h; rfl
  | logReferenceThrowable => cases h; rfl
  | _ => cases h

theorem message_of_drops (h : c.arguments = some args) (hd : c.Drops) :
    args.exception ≠ none ∧ c.message = .logEntry { args.entry with exception := none } := by
  cases c with
  | logThrowable bundle level message exception =>
    cases h
    exact ⟨hd, rfl⟩
  | _ => exact hd.elim

/-- Either way the call sends an entry with the owner for its bundle. -/
theorem message_of_arguments (h : c.arguments = some args) :
    ∃ entry, c.message = .logEntry entry ∧ entry.bundle = args.owner ∧ (entry.call = args.call ↔ ¬ c.Drops) := by
  by_cases hd : c.Drops
  · obtain ⟨hne, hm⟩ := message_of_drops h hd
    refine ⟨_, hm, rfl, fun hcall => ?_, fun hnot => absurd hd hnot⟩
    -- the call asked for carries an exception
    have hexc : none = args.exception := congrArg Slf4jCall.exception hcall
    exact absurd hexc.symm hne
  · exact ⟨_, message_of_not_drops h hd, rfl, fun _ => hd, fun _ => args.entry_call⟩

theorem steady_of_not_ends {m : Message L} (h : ¬ m.Ends) (hm : Actor.Matched react m = true) :
    Actor.Steady react m := by
  refine steady_of_survivable ?_
  cases m with
  | logEntry entry => exact h
  | registerListener l => trivial
  | listListeners => trivial
  | removeListener l => cases hm
  | removeAllListeners => exact absurd trivial h

theorem play_slf4j_of_not_ends (s : List L) {ms : List (Message L)} (h : ∀ m ∈ ms, ¬ m.Ends) :
    (Actor.play react s ms).2.filterMap LogEvent.slf4jCall = entryCalls ms := by
  induction ms generalizing s with
  | nil => rfl
  | cons m ms ih =>
    have hrest := fun s' => ih s' fun x hx => h x (List.mem_cons_of_mem _ hx)
    cases hm : react m with
    | some body =>
      have hs : m.Survivable := by
        have hmatched : Actor.Matched react m = true := by simp [Actor.Matched, hm]
        by_contra hns
        obtain ⟨body', hbody', hsteady⟩ := steady_of_not_ends (h m List.mem_cons_self) hmatched
        exact fatal_of_not_survivable hns body' hbody' s (hsteady s)
      simp only [Actor.play, hm, List.filterMap_append, react_slf4j hs hm s, hrest]
      simp only [entryCalls, ← List.map_append, ← List.filterMap_append, List.singleton_append]
    | none =>
      -- only a removal is matched by no case, and it carries no entry
      have hentry : m.entry = none := by
        cases m with
        | removeListener l => rfl
        | _ => cases hm
      simp only [Actor.play, hm, hrest, entryCalls, List.filterMap_cons, hentry]

theorem carries_of_call_eq (hb : args.owner ≠ none) {entry : LogEntryImpl} (hm : c.message = .logEntry entry)
    (hbundle : entry.bundle = args.owner) (hcall : entry.call = args.call) : c.Carries args := by
  intro pre post a hreach hsent hpre
  have hends : ¬ c.message.Ends := by
    rw [hm]
    show entry.bundle ≠ none
    rwa [hbundle]
  have hsteady := steady_of_not_ends hends (by rw [hm]; rfl)
  obtain ⟨n, b, hexec, hev⟩ := Actor.treats hreach hsent (fun x hx => steady_of_not_ends (hpre x hx)) hsteady
  refine ⟨n, b, hexec, ?_⟩
  have hall : ∀ x ∈ pre ++ [c.message], ¬ x.Ends := by
    intro x hx
    rcases List.mem_append.mp hx with hx | hx
    · exact hpre x hx
    · rwa [List.mem_singleton.mp hx]
  have hplay := play_slf4j_of_not_ends ([] : List L) hall
  have hlast : entryCalls (pre ++ [c.message]) = entryCalls pre ++ [args.call] := by
    simp only [entryCalls, List.filterMap_append, List.map_append, hm, ← hcall]
    rfl
  rw [← hlast, ← hplay]
  exact hev.filterMap _

theorem call_eq_of_carries {entry : LogEntryImpl} (hm : c.message = .logEntry entry) (hb : entry.bundle ≠ none)
    (h : c.Carries args) : entry.call = args.call := by
  have hreach : Reaches loggerStep LoggerActor.start (LoggerActor.start.send c.message) :=
    Runs.tail (a := .send c.message) .refl trivial rfl
  obtain ⟨n, b, hexec, hev⟩ := h [] [] _ hreach rfl fun m hmem => absurd hmem List.not_mem_nil
  have hsent : b.sent = [c.message] := Actor.sent_receives hexec
  -- the call can only come from the message itself
  have hmem : args.call ∈ b.events.filterMap LogEvent.slf4jCall := hev.subset List.mem_cons_self
  obtain ⟨w, hw, hwcall⟩ := List.mem_filterMap.mp hmem
  obtain ⟨m, hms, body, s, hbody, hwbody⟩ := (Actor.events_of_sent (hreach.trans (Runs.of_exec _ hexec))).2 w hw
  rw [hsent, List.mem_singleton] at hms
  rw [hms, hm] at hbody
  obtain rfl : reactEntry entry = body := by simpa [react] using hbody
  obtain ⟨bundle, hbundle⟩ := Option.ne_none_iff_exists'.mp hb
  rw [run_reactEntry hbundle, List.mem_singleton] at hwbody
  subst hwbody
  exact Option.some.inj hwcall

theorem play_entry {entry : LogEntryImpl} (hb : entry.bundle ≠ none) (s : List L) :
    Actor.play react s [.logEntry entry] = (s, [.slf4j entry.call]) := by
  obtain ⟨bundle, hbundle⟩ := Option.ne_none_iff_exists'.mp hb
  have hrun := run_reactEntry hbundle s
  simp only [Actor.play, react, hrun, List.append_nil]

/-- Two calls have the same effect if SLF4J hears the same. -/
theorem sameEffect_iff {e e' : LogEntryImpl} (hc : c.message = .logEntry e) (hd : d.message = .logEntry e')
    (hb : e.bundle ≠ none) (hb' : e'.bundle ≠ none) : SameEffect c d ↔ e.call = e'.call := by
  unfold SameEffect
  rw [hc, hd]
  constructor
  · intro h
    have hplay := h []
    rw [play_entry hb, play_entry hb', Prod.mk.injEq, List.cons.injEq, LogEvent.slf4j.injEq] at hplay
    exact hplay.2.1
  · intro h s
    rw [play_entry hb, play_entry hb', h]

/-- **The overloads, exactly.**  A call about a live service or none leads to the SLF4J call that its arguments ask
for, unless it is `log(level, message, exception)` with an exception; and two calls with the same arguments have the
same effect if both or neither are that. -/
theorem carries_iff (h : c.arguments = some args) (hlive : args.Live) :
    (c.Carries args ↔ ¬ c.Drops) ∧
      ∀ d : LogCall L, d.arguments = some args → (SameEffect c d ↔ (c.Drops ↔ d.Drops)) := by
  obtain ⟨e, hm, hb, hcall⟩ := message_of_arguments h
  have hne := hlive.owner_ne_none
  refine ⟨⟨fun hcarries => hcall.mp (call_eq_of_carries hm (hb ▸ hne) hcarries),
    fun hd => carries_of_call_eq hne hm hb (hcall.mpr hd)⟩, fun d hargs => ?_⟩
  obtain ⟨e', hm', hb', hcall'⟩ := message_of_arguments hargs
  rw [sameEffect_iff hm hm' (hb ▸ hne) (hb' ▸ hne)]
  by_cases hc : c.Drops
  · by_cases hd : d.Drops
    · -- both have dropped the same exception from the same entry
      have he := (message_of_drops h hc).2
      have he' := (message_of_drops hargs hd).2
      rw [hm, Message.logEntry.injEq] at he
      rw [hm', Message.logEntry.injEq] at he'
      exact iff_of_true (by rw [he, he']) (iff_of_true hc hd)
    · refine iff_of_false (fun heq => ?_) (fun hiff => hd (hiff.mp hc))
      exact hcall.mp (heq.trans (hcall'.mpr hd)) hc
  · by_cases hd : d.Drops
    · refine iff_of_false (fun heq => ?_) (fun hiff => hc (hiff.mpr hd))
      exact hcall'.mp (heq.symm.trans (hcall.mpr hc)) hd
    · exact iff_of_true ((hcall.mpr hc).trans (hcall'.mpr hd).symm) (iff_of_false hc hd)

/-- An error about a live service is logged with its exception by the overload that takes both. -/
theorem carries_iff_error :
    (LogCall.logReferenceThrowable (L := ℕ) ⟨some "app"⟩ (some ⟨"[svc]", some ⟨some "db"⟩⟩) LOG_ERROR (some "failed")
      (some ⟨.runtime, some "boom"⟩)).Carries
        ⟨⟨some "app"⟩, some ⟨"[svc]", some ⟨some "db"⟩⟩, LOG_ERROR, some "failed", some ⟨.runtime, some "boom"⟩⟩ :=
  (carries_iff rfl (by
    intro sr hsr
    cases hsr
    exact Option.some_ne_none _)).1.mpr not_false

/-- The overload without a reference drops the exception, and the other one with the same arguments does not. -/
theorem exception_dropped :
    ¬ ∀ (c d : LogCall ℕ) (args : LogArguments), c.arguments = some args → d.arguments = some args → args.Live →
      c.Carries args ∧ SameEffect c d := by
  intro h
  let lost : LogCall ℕ := .logThrowable ⟨some "app"⟩ LOG_ERROR (some "failed") (some ⟨.runtime, some "boom"⟩)
  have hcarries := (h lost lost _ rfl rfl (by
    intro sr hsr
    cases hsr)).1
  have hcall := call_eq_of_carries (c := lost) rfl (Option.some_ne_none _) hcarries
  have hexc : none = some (⟨.runtime, some "boom"⟩ : Throwable) := congrArg Slf4jCall.exception hcall
  cases hexc

end Dynamy.Log
