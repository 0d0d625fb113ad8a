import Dynamy.Log.Logging

/-!
# Dynamy.Log.Listeners — the listeners of the log reader service

What `OsgiLogReaderServiceImpl` promises, read off a sequence of calls alone: the listeners registered after it, the
list each request should be answered with (`replies`) and the entry each listener should be handed (`deliveries`).
The actor keeps that promise exactly for the calls that never ask for the list and never log while a listener is
registered (`listeners_iff`): it answers with a list of its own buffer, knows no removal, and calls no listener.
-/

namespace Dynamy.Log

open Dynamy.Java Dynamy.Lib

variable {L : Type}

/-! ### What the actor does -/

def LogEvent.replied : LogEvent L → Option (List (LogObject L))
  | .reply objects => some objects
  | _ => none

def LogEvent.delivered : LogEvent L → Option (L × LogEntryImpl)
  | .logged l e => some (l, e)
  | _ => none

/-- Every event of the actor is an SLF4J call, or the answer `List(listeners)` to a request. -/
theorem react_events {m : Message L} {body : LoggerM L Bool} (hb : react m = some body) (s : List L)
    {w : LogEvent L} (hw : w ∈ (body.run s).events) :
    (∃ call, w = .slf4j call) ∨ m = .listListeners ∧ w = .reply [.buffer] := by
  cases m with
  | logEntry entry =>
    obtain rfl : reactEntry entry = body := by simpa [react] using hb
    cases hbundle : entry.bundle with
    | none => simp [run_reactEntry_null hbundle] at hw
    | some bundle =>
      rw [run_reactEntry hbundle, List.mem_singleton] at hw
      exact .inl ⟨_, hw⟩
  | listListeners =>
    simp only [react, Option.some.injEq] at hb
    subst hb
    exact .inr ⟨rfl, List.mem_singleton.mp hw⟩
  | registerListener l =>
    simp only [react, Option.some.injEq] at hb
    subst hb
    cases hw
  | removeAllListeners =>
    simp only [react, Option.some.injEq] at hb
    subst hb
    cases hw
  | removeListener l => cases hb

theorem message_eq_listListeners {c : LogCall L} (h : c.message = .listListeners) : c = .getLog := by
  cases c <;> first | rfl | cases h

section Reached

variable {a : LoggerActor L} {cs : List (LogCall L)}

/-- The actor hands no entry to any listener. -/
theorem delivered_eq_nil (h : Reaches loggerStep LoggerActor.start a) :
    a.events.filterMap LogEvent.delivered = [] := by
  refine List.filterMap_eq_nil_iff.mpr fun w hw => ?_
  obtain ⟨m, -, body, s, hb, hw'⟩ := (Actor.events_of_sent h).2 w hw
  rcases react_events hb s hw' with ⟨call, rfl⟩ | ⟨-, rfl⟩ <;> rfl

/-- Whatever the actor answers, it is the one-element list of its buffer, to a request that was made. -/
theorem replied_eq (h : Reaches loggerStep LoggerActor.start a) (hsent : a.sent = cs.map LogCall.message)
    {objects : List (LogObject L)} (ho : objects ∈ a.events.filterMap LogEvent.replied) :
    objects = [.buffer] ∧ .getLog ∈ cs := by
  obtain ⟨w, hw, hwo⟩ := List.mem_filterMap.mp ho
  obtain ⟨m, hm, body, s, hb, hw'⟩ := (Actor.events_of_sent h).2 w hw
  rcases react_events hb s hw' with ⟨call, rfl⟩ | ⟨rfl, rfl⟩
  · cases hwo
  · rw [hsent] at hm
    obtain ⟨c, hc, hcm⟩ := List.mem_map.mp hm
    refine ⟨by simpa [LogEvent.replied] using hwo.symm, message_eq_listListeners hcm ▸ hc⟩

end Reached

/-! ### The promise -/

section Promise

variable [DecidableEq L]

/-- The registered listeners after one more call. -/
def LogCall.register (ls : List L) : LogCall L → List L
  | .addLogListener l => if l ∈ ls then ls else ls ++ [l]
  | .removeLogListener l => ls.filter (· ≠ l)
  | _ => ls

/-- The listeners added and not removed since, in order of addition. -/
def registered (cs : List (LogCall L)) : List L := cs.foldl LogCall.register []

/-- The lists that the requests among the calls should be answered with. -/
def replies (ls : List L) : List (LogCall L) → List (List (LogObject L))
  | [] => []
  | .getLog :: cs => ls.map .listener :: replies ls cs
  | c :: cs => replies (c.register ls) cs

/-- Who should be handed which entry. -/
def deliveries (ls : List L) : List (LogCall L) → List (L × LogEntryImpl)
  | [] => []
  | c :: cs => (match c.message.entry with | some e => ls.map (·, e) | none => []) ++ deliveries (c.register ls) cs

/-- Every request was answered with the listeners registered when it came, and every entry was handed exactly once
to each listener registered when it came, to no other. -/
structure KeepsPromise (cs : List (LogCall L)) (a : LoggerActor L) : Prop where
  replied : a.events.filterMap LogEvent.replied = replies [] cs
  delivered : (a.events.filterMap LogEvent.delivered).Perm (deliveries [] cs)

/-! ### What is promised -/

theorem replies_eq_nil_iff (ls : List L) (cs : List (LogCall L)) : replies ls cs = [] ↔ .getLog ∉ cs := by
  induction cs generalizing ls with
  | nil => simp [replies]
  | cons c cs ih => cases c <;> simp [replies, ih]

/-- A promised answer holds listeners only. -/
theorem buffer_not_mem_replies (ls : List L) (cs : List (LogCall L)) {objects : List (LogObject L)}
    (h : objects ∈ replies ls cs) : .buffer ∉ objects := by
  induction cs generalizing ls with
  | nil => cases h
  | cons c cs ih =>
    cases c with
    | getLog =>
      simp only [replies, List.mem_cons] at h
      rcases h with rfl | h
      · simp
      · exact ih ls h
    | _ => exact ih _ h

/-- Nothing is logged while a listener is registered. -/
def Unheard (ls : List L) (cs : List (LogCall L)) : Prop :=
  ∀ pre c post, cs = pre ++ c :: post → c.message.entry ≠ none → pre.foldl LogCall.register ls = []

theorem deliveries_eq_nil_iff (ls : List L) (cs : List (LogCall L)) : deliveries ls cs = [] ↔ Unheard ls cs := by
  induction cs generalizing ls with
  | nil => simp [deliveries, Unheard]
  | cons c cs ih =>
    rw [deliveries, List.append_eq_nil_iff, ih]
    constructor
    · rintro ⟨hc, hcs⟩ pre d post heq hd
      cases pre with
      | nil =>
        obtain ⟨rfl, rfl⟩ := List.cons.inj heq
        obtain ⟨e, he⟩ := Option.ne_none_iff_exists'.mp hd
        simpa [he] using hc
      | cons p pre =>
        obtain ⟨rfl, rfl⟩ := List.cons.inj heq
        exact hcs pre d post rfl hd
    · intro h
      refine ⟨?_, fun pre d post heq hd => h (c :: pre) d post (by rw [heq]; rfl) hd⟩
      cases he : c.message.entry with
      | none => rfl
      | some e =>
        obtain rfl : ls = [] := h [] c cs rfl (by simp [he])
        rfl

/-! ### The promise kept, exactly -/

/-- **Listeners, exactly.**  Whenever the actor has come to rest after the calls `cs` it has kept the promise, if and
only if no call asks for the list and none logs while a listener is registered. -/
theorem listeners_iff (cs : List (LogCall L)) :
    (∀ a, Reaches loggerStep LoggerActor.start a → a.sent = cs.map LogCall.message → a.receive react = none →
      KeepsPromise cs a) ↔ .getLog ∉ cs ∧ Unheard [] cs := by
  constructor
  · intro hkeeps
    have hsend := Actor.reaches_sendAll react (cs.map LogCall.message) (LoggerActor.start (L := L))
    obtain ⟨a, hrest, hnone, hsent⟩ := Actor.reaches_rest react
      { LoggerActor.start (L := L) with
          mailbox := LoggerActor.start.mailbox ++ cs.map LogCall.message,
          sent := LoggerActor.start.sent ++ cs.map LogCall.message }
    have hreach := hsend.trans hrest
    have hsent' : a.sent = cs.map LogCall.message := by simpa [LoggerActor.start] using hsent
    have h := hkeeps a hreach hsent' hnone
    refine ⟨?_, ?_⟩
    · rw [← replies_eq_nil_iff [], ← h.replied, List.eq_nil_iff_forall_not_mem]
      intro objects ho
      obtain ⟨rfl, -⟩ := replied_eq hreach hsent' ho
      rw [h.replied] at ho
      exact buffer_not_mem_replies [] cs ho List.mem_cons_self
    · have hd := h.delivered
      rw [delivered_eq_nil hreach] at hd
      exact (deliveries_eq_nil_iff [] cs).mp hd.symm.eq_nil
  · rintro ⟨hget, hunheard⟩ a hreach hsent -
    refine ⟨?_, ?_⟩
    · rw [(replies_eq_nil_iff [] cs).mpr hget, List.eq_nil_iff_forall_not_mem]
      intro objects ho
      exact hget (replied_eq hreach hsent ho).2
    · rw [delivered_eq_nil hreach, (deliveries_eq_nil_iff [] cs).mpr hunheard]

end Promise

/-- One listener is added, and the list is asked for. -/
theorem listeners_not_listed :
    ¬ ∀ (cs : List (LogCall ℕ)) (a : LoggerActor ℕ), Reaches loggerStep LoggerActor.start a →
      a.sent = cs.map LogCall.message → a.receive react = none → KeepsPromise cs a := by
  intro h
  let afterTwo : LoggerActor ℕ :=
    { state := [7], events := [.reply [.buffer]], sent := [.registerListener 7, .listListeners],
      treated := [.registerListener 7, .listListeners] }
  have hreach : Reaches loggerStep LoggerActor.start afterTwo :=
    Runs.of_exec [.send (.registerListener 7), .receive, .send .listListeners, .receive] rfl
  have hreply := (h [.addLogListener 7, .getLog] afterTwo hreach rfl rfl).replied
  have hmem : LogObject.buffer ∈ [LogObject.listener 7] := by
    have hlist : [[LogObject.buffer]] = [[LogObject.listener 7]] := hreply
    rw [← (List.cons.inj hlist).1]
    exact List.mem_cons_self
  simp at hmem

end Dynamy.Log
