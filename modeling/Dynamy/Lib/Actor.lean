import Dynamy.Lib.Run
import Dynamy.Lib.Prog

/-!
# Dynamy.Lib.Actor — one actor with selective receive

An actor runs `while (true) receive { case .. }`.  `react m` is the program of the case that matches the message
`m`, or `none` when no case does; the program says whether the loop goes on.  A `receive` takes the first message
of the mailbox that some case matches and leaves the others where they are; an exception that escapes the case, or
a case that says so, ends the actor.  Senders append to the mailbox at any time.

`Steady` messages are those that the loop survives, `Fatal` ones those that it never gets rid of alive.  Along any
run the actor has treated the matched messages in the order sent, up to one that may have stopped it
(`inOrder_or_stopped`); so a steady message is treated if those before it are steady (`treats`), and an actor that was
sent only steady ones comes to the end of its mailbox (`steady_drain`).  A fatal message stays as long as the actor
lives.  `accounted` says of any run which messages were treated and that nothing else was done.
-/

namespace Dynamy.Lib

/-- The actor: what waits, its own state, whether it runs, what it did, and (for the record) what it was sent and
what it treated. -/
structure Actor (M ω σ : Type) where
  mailbox : List M := []
  state : σ
  running : Bool := true
  events : List ω := []
  sent : List M := []
  treated : List M := []

/-- What happens to an actor: a message is sent to it, or it gets its turn. -/
inductive ActorAction (M : Type)
  | send (m : M)
  | receive

/-- The first message that a case matches, that case, and the mailbox without the message. -/
def takeFirst {M β : Type} (f : M → Option β) : List M → Option (M × β × List M)
  | [] => none
  | m :: ms =>
    match f m with
    | some b => some (m, b, ms)
    | none => (takeFirst f ms).map fun (x, b, rest) => (x, b, m :: rest)

namespace Actor

variable {M ω σ ε : Type} (react : M → Option (Prog ω σ ε Bool))

def send (a : Actor M ω σ) (m : M) : Actor M ω σ :=
  { a with mailbox := a.mailbox ++ [m], sent := a.sent ++ [m] }

/-- The actor after the case `body` has treated `m`, with `rest` left in the mailbox. -/
def after (a : Actor M ω σ) (m : M) (body : Prog ω σ ε Bool) (rest : List M) : Actor M ω σ where
  mailbox := rest
  state := (body.run a.state).state
  running := match (body.run a.state).result with | .ok goOn => goOn | .error _ => false
  events := a.events ++ (body.run a.state).events
  sent := a.sent
  treated := a.treated ++ [m]

/-- One turn of the loop. -/
def receive (a : Actor M ω σ) : Option (Actor M ω σ) :=
  if a.running then (takeFirst react a.mailbox).map fun (m, body, rest) => a.after m body rest else none

def step (a : Actor M ω σ) : ActorAction M → Option (Actor M ω σ)
  | .send m => some (a.send m)
  | .receive => a.receive react

/-- `m` is matched, and the loop goes on after it from every state. -/
def Steady (m : M) : Prop := ∃ body, react m = some body ∧ ∀ s, (body.run s).result = .ok true

/-- `m` is matched by no case, or its case never lets the loop go on. -/
def Fatal (m : M) : Prop := ∀ body, react m = some body → ∀ s, (body.run s).result ≠ .ok true

/-- The state and the events after some messages were treated in order. -/
def play (s : σ) : List M → σ × List ω
  | [] => (s, [])
  | m :: ms =>
    match react m with
    | some body =>
      ((play (body.run s).state ms).1, (body.run s).events ++ (play (body.run s).state ms).2)
    | none => play s ms

variable {react} {a b : Actor M ω σ} {m : M}

theorem takeFirst_steady {ms : List M} {body : Prog ω σ ε Bool} (h : react m = some body) :
    takeFirst react (m :: ms) = some (m, body, ms) := by
  simp [takeFirst, h]

theorem takeFirst_some {β : Type} {f : M → Option β} {x : M} {c : β} : ∀ {ms rest : List M},
    takeFirst f ms = some (x, c, rest) → f x = some c ∧ ∃ pre post, ms = pre ++ x :: post ∧ rest = pre ++ post
  | [], _, h => by simp [takeFirst] at h
  | m :: ms, rest, h => by
    unfold takeFirst at h
    cases hm : f m with
    | some b =>
      simp only [hm, Option.some.injEq, Prod.mk.injEq] at h
      obtain ⟨rfl, rfl, rfl⟩ := h
      exact ⟨hm, [], ms, rfl, rfl⟩
    | none =>
      simp only [hm, Option.map_eq_some_iff, Prod.exists, Prod.mk.injEq] at h
      obtain ⟨x', c', rest', ht, rfl, rfl, rfl⟩ := h
      obtain ⟨hx, pre, post, rfl, rfl⟩ := takeFirst_some ht
      exact ⟨hx, m :: pre, post, rfl, rfl⟩

/-- What a turn does. -/
theorem receive_some (h : a.receive react = some b) : a.running = true ∧ ∃ m body pre post,
    react m = some body ∧ a.mailbox = pre ++ m :: post ∧ b.mailbox = pre ++ post ∧
      b.running = (match (body.run a.state).result with | .ok goOn => goOn | .error _ => false) ∧
      b.events = a.events ++ (body.run a.state).events ∧ b.sent = a.sent := by
  unfold receive at h
  split_ifs at h with hr
  simp only [Option.map_eq_some_iff, Prod.exists] at h
  obtain ⟨m, body, rest, ht, rfl⟩ := h
  obtain ⟨hm, pre, post, hmb, rfl⟩ := takeFirst_some ht
  exact ⟨hr, m, body, pre, post, hm, hmb, rfl, rfl, rfl, rfl⟩

/-- Every event comes from a message that was sent. -/
theorem events_of_sent {s₀ : σ} (h : Reaches (step react) { state := s₀ } a) :
    (∀ m ∈ a.mailbox, m ∈ a.sent) ∧
      ∀ w ∈ a.events, ∃ m ∈ a.sent, ∃ body s, react m = some body ∧ w ∈ (body.run s).events := by
  induction h with
  | refl => simp
  | @tail a b act _ _ hstep ih =>
    obtain ⟨hmail, hev⟩ := ih
    cases act with
    | send m =>
      simp only [step, Option.some.injEq] at hstep
      subst hstep
      refine ⟨fun x hx => ?_, fun w hw => ?_⟩
      · rcases List.mem_append.mp hx with h | h
        · exact List.mem_append_left _ (hmail x h)
        · exact List.mem_append_right _ h
      · obtain ⟨m', hm', h⟩ := hev w hw
        exact ⟨m', List.mem_append_left _ hm', h⟩
    | receive =>
      obtain ⟨-, m, body, pre, post, hm, hmb, hmb', -, hevents, hsent⟩ := receive_some hstep
      rw [hmb] at hmail
      refine ⟨fun x hx => ?_, fun w hw => ?_⟩
      · rw [hsent]
        rw [hmb'] at hx
        exact hmail x (by rcases List.mem_append.mp hx with h | h <;> simp [h])
      · rw [hsent]
        rw [hevents] at hw
        rcases List.mem_append.mp hw with h | h
        · exact hev w h
        · exact ⟨m, hmail m (by simp), body, a.state, hm, h⟩

/-! ### In order, or stopped -/

/-- Some case matches `m`. -/
def Matched (react : M → Option (Prog ω σ ε Bool)) (m : M) : Bool := (react m).isSome

theorem takeFirst_filter : ∀ {ms rest : List M} {x : M} {body : Prog ω σ ε Bool},
    takeFirst react ms = some (x, body, rest) →
      react x = some body ∧ ms.filter (Matched react) = x :: rest.filter (Matched react)
  | [], _, _, _, h => by simp [takeFirst] at h
  | m :: ms, rest, x, body, h => by
    unfold takeFirst at h
    cases hm : react m with
    | some b =>
      simp only [hm, Option.some.injEq, Prod.mk.injEq] at h
      obtain ⟨rfl, rfl, rfl⟩ := h
      exact ⟨hm, List.filter_cons_of_pos (by simp [Matched, hm])⟩
    | none =>
      simp only [hm, Option.map_eq_some_iff, Prod.exists, Prod.mk.injEq] at h
      obtain ⟨x', body', rest', ht, rfl, rfl, rfl⟩ := h
      obtain ⟨hx, hfilter⟩ := takeFirst_filter ht
      have hskip : ¬ Matched react m = true := by simp [Matched, hm]
      rw [List.filter_cons_of_neg hskip, List.filter_cons_of_neg hskip]
      exact ⟨hx, hfilter⟩

theorem exists_takeFirst {x : M} {body : Prog ω σ ε Bool} (hx : react x = some body) : ∀ {ms : List M}, x ∈ ms →
    ∃ m b rest, takeFirst react ms = some (m, b, rest)
  | m :: ms, h => by
    unfold takeFirst
    cases hm : react m with
    | some b => exact ⟨m, b, ms, rfl⟩
    | none =>
      have hne : x ≠ m := by
        rintro rfl
        rw [hx] at hm
        cases hm
      obtain ⟨m', b', rest', ht⟩ := exists_takeFirst hx (List.mem_of_ne_of_mem hne h)
      exact ⟨m', b', m :: rest', by simp [ht]⟩

/-- What no case matches is passed over. -/
theorem play_filter (s : σ) (ms : List M) : play react s (ms.filter (Matched react)) = play react s ms := by
  induction ms generalizing s with
  | nil => rfl
  | cons m ms ih =>
    cases hm : react m with
    | some body => simp [Matched, hm, play, ← ih]
    | none => simp [Matched, hm, play, ← ih]

theorem play_append (s : σ) (ms : List M) (m : M) : play react s (ms ++ [m]) =
    match react m with
    | some body => ((body.run (play react s ms).1).state,
        (play react s ms).2 ++ (body.run (play react s ms).1).events)
    | none => play react s ms := by
  induction ms generalizing s with
  | nil => cases h : react m <;> simp [play, h]
  | cons x ms ih =>
    cases hx : react x <;> cases h : react m <;> simp [play, hx, ih, h]

theorem play_beginning {t t' : List M} (h : t <+: t') (s : σ) : (play react s t).2 <+: (play react s t').2 := by
  induction t generalizing s t' with
  | nil => exact List.nil_prefix
  | cons m t ih =>
    obtain ⟨u, rfl⟩ := h
    cases hm : react m with
    | some body => simpa [play, hm] using ih (List.prefix_append t u) _
    | none => simpa [play, hm] using ih (List.prefix_append t u) s

/-- The actor is alive and has treated, in order, a prefix of the matched messages that it was sent. -/
structure InOrder (react : M → Option (Prog ω σ ε Bool)) (s₀ : σ) (a : Actor M ω σ) : Prop where
  running : a.running = true
  order : a.sent.filter (Matched react) = a.treated ++ a.mailbox.filter (Matched react)
  played : (a.state, a.events) = play react s₀ a.treated

/-- The actor has stopped at `f`, after treating `t`. -/
structure StoppedAt (react : M → Option (Prog ω σ ε Bool)) (s₀ : σ) (a : Actor M ω σ) (t : List M) (f : M) : Prop where
  stopped : a.running = false
  order : t ++ [f] <+: a.sent.filter (Matched react)
  fails : ¬ Steady react f
  played : (play react s₀ t).2 <+: a.events

theorem InOrder.after {s₀ : σ} (h : InOrder react s₀ a) {body : Prog ω σ ε Bool} {rest : List M}
    (ht : takeFirst react a.mailbox = some (m, body, rest)) :
    InOrder react s₀ (a.after m body rest) ∨ StoppedAt react s₀ (a.after m body rest) a.treated m := by
  obtain ⟨hm, hfilter⟩ := takeFirst_filter ht
  have horder : a.sent.filter (Matched react) = (a.treated ++ [m]) ++ rest.filter (Matched react) := by
    rw [h.order, hfilter, List.append_assoc, List.singleton_append]
  by_cases hok : (body.run a.state).result = .ok true
  · refine .inl ⟨by simp [Actor.after, hok], horder, ?_⟩
    simp only [Actor.after, play_append, hm, ← h.played]
  · refine .inr ⟨?_, ?_, ?_, ?_⟩
    · unfold Actor.after
      cases hres : (body.run a.state).result with
      | error e => rfl
      | ok goOn =>
        cases goOn with
        | false => rfl
        | true => exact absurd hres hok
    · exact ⟨_, horder.symm⟩
    · rintro ⟨body', hbody', hsteady⟩
      rw [hm, Option.some.injEq] at hbody'
      exact hok (hbody' ▸ hsteady a.state)
    · rw [← h.played]
      exact List.prefix_append _ _

/-- Whatever it is sent, the actor treats it in order until it stops. -/
theorem inOrder_or_stopped {s₀ : σ} (h : Reaches (step react) { state := s₀ } a) :
    InOrder react s₀ a ∨ ∃ t f, StoppedAt react s₀ a t f := by
  induction h with
  | refl => exact .inl ⟨rfl, rfl, rfl⟩
  | @tail a b act _ _ hstep ih =>
    cases act with
    | send m =>
      simp only [step, Option.some.injEq] at hstep
      subst hstep
      rcases ih with hI | ⟨t, f, hS⟩
      · refine .inl ⟨hI.running, ?_, hI.played⟩
        simp only [Actor.send, List.filter_append, hI.order, List.append_assoc]
      · refine .inr ⟨t, f, hS.stopped, hS.order.trans ?_, hS.fails, hS.played⟩
        simp only [Actor.send, List.filter_append]
        exact List.prefix_append _ _
    | receive =>
      have hrec : a.receive react = some b := hstep
      unfold Actor.receive at hrec
      split_ifs at hrec with hrun
      rcases ih with hI | ⟨t, f, hS⟩
      · simp only [Option.map_eq_some_iff, Prod.exists] at hrec
        obtain ⟨m, body, rest, ht, rfl⟩ := hrec
        exact (hI.after ht).imp_right fun hS => ⟨a.treated, m, hS⟩
      · rw [hS.stopped] at hrun
        cases hrun

/-- Receiving on, the actor treats the steady messages that come next. -/
theorem InOrder.receives {s₀ : σ} {ms post : List M} (h : InOrder react s₀ a) (hs : ∀ m ∈ ms, Steady react m)
    (hmb : a.mailbox.filter (Matched react) = ms ++ post) :
    ∃ n b, exec (step react) a (List.replicate n .receive) = some b ∧
      (play react s₀ (a.treated ++ ms)).2 = b.events := by
  induction ms generalizing a with
  | nil => exact ⟨0, a, rfl, by rw [List.append_nil, ← h.played]⟩
  | cons m ms ih =>
    obtain ⟨body, hbody, hok⟩ := hs m List.mem_cons_self
    have hmem : m ∈ a.mailbox.filter (Matched react) := by
      rw [hmb]
      exact List.mem_cons_self
    obtain ⟨x, body', rest, ht⟩ := exists_takeFirst hbody (List.mem_filter.mp hmem).1
    obtain ⟨hx, hfilter⟩ := takeFirst_filter ht
    rw [hmb, List.cons_append, List.cons.injEq] at hfilter
    obtain ⟨rfl, hrest⟩ := hfilter
    obtain hI | hS := h.after ht
    · obtain ⟨n, b, hexec, hev⟩ := ih hI (fun y hy => hs y (List.mem_cons_of_mem _ hy)) hrest.symm
      refine ⟨n + 1, b, ?_, ?_⟩
      · simp only [List.replicate_succ, exec, step, Actor.receive, if_pos h.running, ht, Option.map_some,
          Option.bind_some, hexec]
      · rw [← hev, Actor.after, List.append_assoc, List.singleton_append]
    · exact absurd ⟨body, hbody, hok⟩ hS.fails

/-- **A steady message is treated**, however the turns fall, if every matched message before it is steady too. -/
theorem treats {s₀ : σ} (h : Reaches (step react) { state := s₀ } a) {pre post : List M}
    (hsent : a.sent = pre ++ m :: post) (hpre : ∀ x ∈ pre, Matched react x = true → Steady react x)
    (hm : Steady react m) :
    ∃ n b, exec (step react) a (List.replicate n .receive) = some b ∧ (play react s₀ (pre ++ [m])).2 <+: b.events := by
  have hfilter : a.sent.filter (Matched react) =
      (pre ++ [m]).filter (Matched react) ++ post.filter (Matched react) := by
    rw [hsent, ← List.filter_append, List.append_assoc, List.singleton_append]
  have hsteady : ∀ x ∈ (pre ++ [m]).filter (Matched react), Steady react x := by
    intro x hx
    obtain ⟨hx, hxm⟩ := List.mem_filter.mp hx
    rcases List.mem_append.mp hx with hx | hx
    · exact hpre x hx hxm
    · rwa [List.mem_singleton.mp hx]
  rw [← play_filter]
  obtain hI | ⟨t, f, hS⟩ := inOrder_or_stopped h
  · have horder := hI.order
    rw [hfilter] at horder
    rcases List.append_eq_append_iff.mp horder with ⟨u, htreated, -⟩ | ⟨u, hall, hmb⟩
    · -- it has been treated before
      refine ⟨0, a, rfl, ?_⟩
      have hplayed : a.events = (play react s₀ a.treated).2 := congrArg Prod.snd hI.played
      rw [hplayed]
      exact play_beginning ⟨u, htreated.symm⟩ s₀
    · have hu : ∀ x ∈ u, Steady react x := fun x hx => hsteady x (hall ▸ List.mem_append_right _ hx)
      obtain ⟨n, b, hexec, hev⟩ := hI.receives hu hmb
      rw [hall]
      exact ⟨n, b, hexec, hev ▸ List.prefix_rfl⟩
  · -- what it stopped at comes after
    refine ⟨0, a, rfl, (play_beginning ?_ s₀).trans hS.played⟩
    have hbegins := List.prefix_or_prefix_of_prefix (hfilter ▸ List.prefix_append _ _) hS.order
    rcases hbegins with hle | hge
    · rcases List.prefix_concat_iff.mp hle with heq | hle
      · exact absurd (hsteady f (heq ▸ List.mem_append_right _ List.mem_cons_self)) hS.fails
      · exact hle
    · exact absurd (hsteady f (hge.subset (List.mem_append_right _ List.mem_cons_self))) hS.fails

/-- Receiving sends nothing. -/
theorem sent_receives {n : ℕ} (h : exec (step react) a (List.replicate n .receive) = some b) : b.sent = a.sent := by
  induction n generalizing a with
  | zero =>
    simp only [List.replicate_zero, exec, Option.some.injEq] at h
    rw [h]
  | succ n ih =>
    simp only [List.replicate_succ, exec, Option.bind_eq_some_iff] at h
    obtain ⟨c, hc, hexec⟩ := h
    obtain ⟨-, m, body, pre, post, -, -, -, -, -, hsent⟩ := receive_some hc
    rw [ih hexec, hsent]

/-! ### Every message accounted for -/

/-- What the actor did is what the treated messages do.  They are the matched ones in the order sent: as many as are no
longer in the mailbox while it is alive, none of them fatal; when it has stopped, up to one that is not steady. -/
structure Accounted (react : M → Option (Prog ω σ ε Bool)) (s₀ : σ) (a : Actor M ω σ) : Prop where
  played : (a.state, a.events) = play react s₀ a.treated
  alive : a.running = true → (∀ m ∈ a.treated, ¬ Fatal react m) ∧
    a.sent.filter (Matched react) = a.treated ++ a.mailbox.filter (Matched react)
  stopped : a.running = false → ∃ t f, a.treated = t ++ [f] ∧ (∀ m ∈ t, ¬ Fatal react m) ∧ ¬ Steady react f ∧
    t ++ [f] <+: a.sent.filter (Matched react)

theorem Accounted.after {s₀ : σ} (h : Accounted react s₀ a) (hrun : a.running = true)
    {body : Prog ω σ ε Bool} {rest : List M} (ht : takeFirst react a.mailbox = some (m, body, rest)) :
    Accounted react s₀ (a.after m body rest) := by
  obtain ⟨hm, hfilter⟩ := takeFirst_filter ht
  obtain ⟨hfatal, horder⟩ := h.alive hrun
  have horder' : a.sent.filter (Matched react) = (a.treated ++ [m]) ++ rest.filter (Matched react) := by
    rw [horder, hfilter, List.append_assoc, List.singleton_append]
  have hgoesOn : (a.after m body rest).running = true ↔ (body.run a.state).result = .ok true := by
    unfold Actor.after
    cases hres : (body.run a.state).result with
    | error e => simp
    | ok goOn => simp
  refine ⟨?_, fun halive => ⟨fun x hx => ?_, horder'⟩, fun hstop => ⟨a.treated, m, rfl, hfatal, ?_, ⟨_, horder'.symm⟩⟩⟩
  · simp only [Actor.after, play_append, hm, ← h.played]
  · rcases List.mem_append.mp hx with hx | hx
    · exact hfatal x hx
    · rw [List.mem_singleton.mp hx]
      exact fun hf => hf body hm a.state (hgoesOn.mp halive)
  · rintro ⟨body', hbody', hsteady⟩
    rw [hm, Option.some.injEq] at hbody'
    rw [hgoesOn.mpr (hbody' ▸ hsteady a.state)] at hstop
    cases hstop

theorem accounted {s₀ : σ} (h : Reaches (step react) { state := s₀ } a) : Accounted react s₀ a := by
  induction h with
  | refl => exact ⟨rfl, fun _ => ⟨fun _ hm => (List.not_mem_nil hm).elim, rfl⟩, fun hstop => by cases hstop⟩
  | @tail a b act _ _ hstep ih =>
    cases act with
    | send m =>
      simp only [step, Option.some.injEq] at hstep
      subst hstep
      refine ⟨ih.played, fun halive => ⟨(ih.alive halive).1, ?_⟩, fun hstop => ?_⟩
      · simp only [Actor.send, List.filter_append, (ih.alive halive).2, List.append_assoc]
      · obtain ⟨t, f, htreated, ht, hf, hpre⟩ := ih.stopped hstop
        refine ⟨t, f, htreated, ht, hf, hpre.trans ?_⟩
        simp only [Actor.send, List.filter_append]
        exact List.prefix_append _ _
    | receive =>
      have hrec : a.receive react = some b := hstep
      unfold Actor.receive at hrec
      split_ifs at hrec with hrun
      simp only [Option.map_eq_some_iff, Prod.exists] at hrec
      obtain ⟨m, body, rest, ht, rfl⟩ := hrec
      exact ih.after hrun ht

/-- An actor at rest that is alive has nothing that a case matches. -/
theorem filter_of_rest (hrun : a.running = true) (h : a.receive react = none) :
    a.mailbox.filter (Matched react) = [] := by
  rw [Actor.receive, if_pos hrun, Option.map_eq_none_iff] at h
  rw [List.filter_eq_nil_iff]
  intro m hm hmatched
  obtain ⟨body, hbody⟩ := Option.isSome_iff_exists.mp hmatched
  obtain ⟨m', body', rest, ht⟩ := exists_takeFirst hbody hm
  rw [h] at ht
  cases ht

/-! ### Steady messages -/

/-- The actor is alive and has treated a prefix of what it was sent, in order. -/
structure UpTo (react : M → Option (Prog ω σ ε Bool)) (s₀ : σ) (a : Actor M ω σ) : Prop where
  running : a.running = true
  order : a.sent = a.treated ++ a.mailbox
  played : (a.state, a.events) = play react s₀ a.treated

theorem UpTo.receive {s₀ : σ} (h : UpTo react s₀ a) (hs : ∀ m ∈ a.sent, Steady react m) {ms : List M}
    (hmb : a.mailbox = m :: ms) : ∃ b, a.receive react = some b ∧ UpTo react s₀ b ∧ b.mailbox = ms ∧
      b.sent = a.sent := by
  obtain ⟨body, hbody, hok⟩ := hs m (by rw [h.order, hmb]; simp)
  refine ⟨a.after m body ms, ?_, ⟨?_, ?_, ?_⟩, rfl, rfl⟩
  · rw [Actor.receive, if_pos h.running, hmb, takeFirst_steady hbody]
    rfl
  · simp [after, hok]
  · simp [after, h.order, hmb]
  · simp only [after, play_append, hbody, ← h.played]

/-- **Steady runs**: an actor that was sent steady messages only is alive and has treated them in order. -/
theorem steady_run {s₀ : σ} (h : Reaches (step react) { state := s₀ } a) (hs : ∀ m ∈ a.sent, Steady react m) :
    UpTo react s₀ a := by
  have hmatched : ∀ m ∈ a.sent, Matched react m = true := by
    intro m hm
    obtain ⟨body, hbody, -⟩ := hs m hm
    simp [Matched, hbody]
  have hmail := (events_of_sent h).1
  have hsent : a.sent.filter (Matched react) = a.sent := List.filter_eq_self.mpr hmatched
  obtain hI | ⟨t, f, hS⟩ := inOrder_or_stopped h
  · refine ⟨hI.running, ?_, hI.played⟩
    rw [← hsent, hI.order, List.filter_eq_self.mpr fun m hm => hmatched m (hmail m hm)]
  · have hf : f ∈ a.sent := hsent ▸ hS.order.subset (List.mem_append_right _ List.mem_cons_self)
    exact absurd (hs f hf) hS.fails

/-- Receiving on, the actor treats all that it was sent. -/
theorem steady_drain {s₀ : σ} (h : UpTo react s₀ a) (hs : ∀ m ∈ a.sent, Steady react m) :
    ∃ n b, exec (step react) a (List.replicate n .receive) = some b ∧ b.running = true ∧ b.mailbox = [] ∧
      b.events = (play react s₀ a.sent).2 := by
  generalize hmb : a.mailbox = ms
  induction ms generalizing a with
  | nil =>
    refine ⟨0, a, rfl, h.running, hmb, ?_⟩
    have ho := h.order
    rw [hmb, List.append_nil] at ho
    rw [ho, ← h.played]
  | cons m ms ih =>
    obtain ⟨b, hb, hI, hmb', hsent⟩ := h.receive hs hmb
    obtain ⟨n, c, hexec, hrun, hempty, hev⟩ := ih hI (by rw [hsent]; exact hs) hmb'
    refine ⟨n + 1, c, ?_, hrun, hempty, by rw [hev, hsent]⟩
    simp only [List.replicate_succ, exec, step, hb, Option.bind_some, hexec]

/-! ### Fatal messages -/

/-- A fatal message leaves the mailbox only when the actor dies. -/
theorem fatal_stays (hf : Fatal react m) {n : ℕ} (h : exec (step react) a (List.replicate n .receive) = some b)
    (hrun : b.running = true) (hm : m ∈ a.mailbox) : m ∈ b.mailbox := by
  induction n generalizing a with
  | zero =>
    simp only [List.replicate_zero, exec, Option.some.injEq] at h
    exact h ▸ hm
  | succ n ih =>
    simp only [List.replicate_succ, exec, Option.bind_eq_some_iff] at h
    obtain ⟨c, hc, hexec⟩ := h
    obtain ⟨-, x, body, pre, post, hx, hmb, hmb', hrun', -⟩ := receive_some hc
    refine ih hexec ?_
    by_cases hxm : x = m
    · -- the turn treated `m` itself, so the actor has stopped
      exfalso
      subst hxm
      have hstop : c.running = false := by
        rw [hrun']
        have hne := hf body hx a.state
        cases hres : (body.run a.state).result with
        | error e => rfl
        | ok goesOn =>
          cases goesOn with
          | false => rfl
          | true => exact absurd hres hne
      cases n with
      | zero =>
        simp only [List.replicate_zero, exec, Option.some.injEq] at hexec
        rw [hexec, hrun] at hstop
        cases hstop
      | succ n => simp [List.replicate_succ, exec, step, Actor.receive, hstop] at hexec
    · rw [hmb] at hm
      rw [hmb']
      rcases List.mem_append.mp hm with h | h
      · exact List.mem_append_left _ h
      · rcases List.mem_cons.mp h with h | h
        · exact absurd h.symm hxm
        · exact List.mem_append_right _ h

/-! ### Sending first, and coming to rest -/

variable (react)

/-- All messages can be sent before the actor gets a turn. -/
theorem reaches_sendAll (ms : List M) (a : Actor M ω σ) : Reaches (step react) a
    { a with mailbox := a.mailbox ++ ms, sent := a.sent ++ ms } := by
  induction ms generalizing a with
  | nil => simpa using Runs.refl
  | cons m ms ih =>
    have h := ih (a.send m)
    simp only [Actor.send, List.append_assoc, List.singleton_append] at h
    exact Runs.head (a := .send m) trivial rfl h

/-- Left alone, the actor comes to rest. -/
theorem reaches_rest (a : Actor M ω σ) :
    ∃ b, Reaches (step react) a b ∧ b.receive react = none ∧ b.sent = a.sent := by
  induction hn : a.mailbox.length generalizing a with
  | zero =>
    have hmb : a.mailbox = [] := List.length_eq_zero_iff.mp hn
    exact ⟨a, .refl, by simp [Actor.receive, hmb, takeFirst], rfl⟩
  | succ n ih =>
    match hr : a.receive react with
    | none => exact ⟨a, .refl, hr, rfl⟩
    | some b =>
      obtain ⟨-, m, body, pre, post, -, hmb, hmb', -, -, hsent⟩ := receive_some hr
      obtain ⟨c, hreach, hrest, hsent'⟩ := ih b (by rw [hmb'] ; rw [hmb] at hn; simp at hn ⊢; omega)
      exact ⟨c, Runs.head (a := .receive) trivial hr hreach, hrest, hsent'.trans hsent⟩

end Actor

end Dynamy.Lib
