import Dynamy.Log.Log

/-!
# Dynamy.Log.Logging — what becomes of the log entries

The actor *serves* what it was sent when it is alive and, given its turns, empties its mailbox with one SLF4J call
for each entry, in the order sent.  It does so after every prefix of a call sequence exactly when all of its calls
are harmless (`serves_iff`): one entry without a bundle ends the actor, one `RemoveListener` stays for ever.
-/

namespace Dynamy.Log

open Dynamy.Java Dynamy.Lib

variable {L : Type}

/-- The entry that a message carries. -/
def Message.entry : Message L → Option LogEntryImpl
  | .logEntry entry => some entry
  | _ => none

def LogEvent.slf4jCall : LogEvent L → Option Slf4jCall
  | .slf4j call => some call
  | _ => none

/-- The SLF4J calls that stand for the entries among some messages. -/
def entryCalls (ms : List (Message L)) : List Slf4jCall := (ms.filterMap Message.entry).map LogEntryImpl.call

/-- The actor is alive and, with no further message, comes to the end of its mailbox alive, having made exactly one
SLF4J call for each entry it was sent, in order. -/
def LoggerActor.Serves (a : LoggerActor L) : Prop :=
  a.running = true ∧ ∃ n b, exec loggerStep a (List.replicate n .receive) = some b ∧ b.running = true ∧
    b.mailbox = [] ∧ b.events.filterMap LogEvent.slf4jCall = entryCalls a.sent

/-- What one survivable message adds to the SLF4J calls. -/
theorem react_slf4j {m : Message L} (h : m.Survivable) {body : LoggerM L Bool} (hb : react m = some body)
    (s : List L) : (body.run s).events.filterMap LogEvent.slf4jCall = entryCalls [m] := by
  cases m with
  | logEntry entry =>
    obtain ⟨bundle, hbundle⟩ := Option.ne_none_iff_exists'.mp h
    obtain rfl : reactEntry entry = body := by simpa [react] using hb
    rw [run_reactEntry hbundle]
    rfl
  | registerListener l =>
    simp only [react, Option.some.injEq] at hb
    subst hb
    rfl
  | listListeners =>
    simp only [react, Option.some.injEq] at hb
    subst hb
    rfl
  | removeListener l => exact h.elim
  | removeAllListeners => exact h.elim

theorem play_slf4j (s : List L) : ∀ {ms : List (Message L)}, (∀ m ∈ ms, m.Survivable) →
    (Actor.play react s ms).2.filterMap LogEvent.slf4jCall = entryCalls ms := by
  intro ms
  induction ms generalizing s with
  | nil => intro _; rfl
  | cons m ms ih =>
    intro h
    have hm := h m List.mem_cons_self
    obtain ⟨body, hbody, -⟩ := steady_of_survivable hm
    have hone := react_slf4j hm hbody s
    have hrest := ih (body.run s).state fun x hx => h x (List.mem_cons_of_mem _ hx)
    simp only [Actor.play, hbody, List.filterMap_append, hone, hrest]
    simp only [entryCalls, ← List.map_append, ← List.filterMap_append, List.singleton_append]

/-- **Harmless calls are served**, in every interleaving of senders and actor. -/
theorem serves_of_survivable {a : LoggerActor L} (h : Reaches loggerStep LoggerActor.start a)
    (hs : ∀ m ∈ a.sent, m.Survivable) : a.Serves := by
  have hsteady : ∀ m ∈ a.sent, Actor.Steady react m := fun m hm => steady_of_survivable (hs m hm)
  have hI := Actor.steady_run h hsteady
  obtain ⟨n, b, hexec, hrun, hempty, hev⟩ := Actor.steady_drain hI hsteady
  exact ⟨hI.running, n, b, hexec, hrun, hempty, by rw [hev, play_slf4j [] hs]⟩

/-- An actor with a harmful message in its mailbox does not serve. -/
theorem not_serves_of_mem {a : LoggerActor L} {m : Message L} (hm : m ∈ a.mailbox) (h : ¬ m.Survivable) :
    ¬ a.Serves := by
  rintro ⟨-, n, b, hexec, hrun, hempty, -⟩
  have hstays := Actor.fatal_stays (fatal_of_not_survivable h) hexec hrun hm
  rw [hempty] at hstays
  cases hstays

/-- **Serving, exactly.**  After every prefix of the calls, however the actor's turns fall, it serves what it was
sent, if and only if every call is harmless. -/
theorem serves_iff (cs : List (LogCall L)) :
    (∀ a, Reaches loggerStep LoggerActor.start a → a.sent <+: cs.map LogCall.message → a.Serves) ↔
      ∀ c ∈ cs, c.Harmless := by
  constructor
  · intro hserves c hc
    by_contra hharm
    -- all calls arrive before the actor gets its first turn
    have hreach := Actor.reaches_sendAll react (cs.map LogCall.message) (LoggerActor.start (L := L))
    refine not_serves_of_mem (m := c.message) ?_ (fun h => hharm (c.survivable_iff.mp h)) (hserves _ hreach ?_)
    · simpa [LoggerActor.start] using ⟨c, hc, rfl⟩
    · simp [LoggerActor.start]
  · intro hharm a hreach hpre
    refine serves_of_survivable hreach fun m hm => ?_
    obtain ⟨c, hc, rfl⟩ := List.mem_map.mp (hpre.subset hm)
    exact c.survivable_iff.mpr (hharm c hc)

/-- A bundle logs about a service that is unregistered meanwhile: its reference has no bundle any more. -/
theorem serves_not_always :
    ¬ ∀ (cs : List (LogCall ℕ)) (a : LoggerActor ℕ), Reaches loggerStep LoggerActor.start a →
      a.sent <+: cs.map LogCall.message → a.Serves := by
  intro h
  let gone : Message ℕ := OsgiLogService.logReference ⟨some "app"⟩ (some ⟨"[svc]", none⟩) LOG_INFO (some "bye")
  have hreach : Reaches loggerStep LoggerActor.start (LoggerActor.start.send gone) :=
    Runs.tail (a := .send gone) .refl trivial rfl
  refine not_serves_of_mem (m := gone) List.mem_cons_self (fun hs => hs rfl)
    (h [.logReference ⟨some "app"⟩ (some ⟨"[svc]", none⟩) LOG_INFO (some "bye")] _ hreach ?_)
  exact List.prefix_refl _

end Dynamy.Log
