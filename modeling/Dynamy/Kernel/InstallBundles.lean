import Dynamy.Osgi.Framework

/-!
# Dynamy.Kernel.InstallBundles — the bundles of `initial.list`

The kernel goes through the lines of `initial.list`: a comment is logged, a descriptor is installed, and whatever else
stands on a line is passed over without a word.  A failure is logged with the line, and the loop goes on.  So a line
that is no comment is treated, by an attempt to install its bundle or by a record at level `SEVERE`, exactly if it is a
descriptor (`treatsLine_iff`).
-/

namespace Dynamy.Kernel

open Dynamy.Java Dynamy.Lib Dynamy.Osgi

/-- `io.Source.fromInputStream(..).getLines` -/
def getLines : List Char → List (List Char)
  | [] => []
  | '\n' :: cs => [] :: getLines cs
  | '\r' :: '\n' :: cs => [] :: getLines cs
  | '\r' :: cs => [] :: getLines cs
  | c :: cs =>
    match getLines cs with
    | [] => [[c]]
    | line :: lines => (c :: line) :: lines

example : getLines "a\n\r\nbc\r".toList = ["a".toList, [], "bc".toList] := by decide

section Server

variable (framework : OsgiFramework) (bundleText : String → String)

/-- The body of the loop; `bundleText` is the text of the bundle at a location. -/
def DynamyServer.installLine (raises : FrameworkOp → Option Throwable) (line : String) : InstallM Unit :=
  match unapplySeq DynamyServer.Comment 1 line with
  | some groups => log .fine ("Got a comment " ++ (groups.headD none).getD "null") none
  | none =>
    match unapplyBundle DynamyServer.Bundle line with
    | some d =>
      Prog.attempt
        (installDescriptor framework raises ["Bundle " ++ bundleText d.url ++ " installed"]
          ["Bundle " ++ bundleText d.url ++ " started"] d)
        fun e => log .severe ("Cannot download bundle " ++ line) (some e)
    | none => return

/-- The lines from the `k`-th on; `raises k` is what fails on the `k`-th line. -/
def DynamyServer.installLines (raises : ℕ → FrameworkOp → Option Throwable) : ℕ → List String → InstallM Unit
  | _, [] => return
  | k, line :: lines => do
    DynamyServer.installLine framework bundleText (raises k) line
    installLines raises (k + 1) lines

/-- `installBundles`, for the content of `initial.list`. -/
def DynamyServer.installBundles (raises : ℕ → FrameworkOp → Option Throwable) (content : String) : InstallM Unit :=
  DynamyServer.installLines framework bundleText raises 0 ((getLines content.toList).map String.ofList)

end Server

/-! ### What a line should lead to -/

/-- The location of an attempt to install. -/
def attempt : InstallEvent → Option String
  | .call (.installBundle location) => some location
  | _ => none

/-- What stands on the line before the first `!`. -/
def urlOf (line : String) : String := String.ofList (line.toList.takeWhile (· != '!'))

/-- One attempt to install the bundle of the line, or else a record of the line at `SEVERE`. -/
def Treated (line : String) (es : List InstallEvent) : Prop :=
  es.filterMap attempt = [urlOf line] ∨
    es.filterMap attempt = [] ∧ ∃ message e, .log .severe message e ∈ es ∧ line.toList <:+: message.toList

section Claim

variable (framework : OsgiFramework) (bundleText : String → String) (raises : ℕ → FrameworkOp → Option Throwable)
  (b : Bundles)

/-- What the first lines lead to. -/
def eventsOf (lines : List String) : List InstallEvent :=
  ((DynamyServer.installLines framework bundleText raises 0 lines).run b).events

/-- The line at place `k` is treated when its turn comes. -/
def TreatsLine (lines : List String) (k : ℕ) (line : String) : Prop :=
  ∃ es, eventsOf framework bundleText raises b (lines.take (k + 1)) =
      eventsOf framework bundleText raises b (lines.take k) ++ es ∧
    Treated line es

/-- Whatever fails up to the line at place `k`, and whatever stands on these lines (a level that is no `Int`, too), the
lines after it lead to the same. -/
def FailuresStay (lines : List String) (k : ℕ) : Prop :=
  ∀ (raises' : ℕ → FrameworkOp → Option Throwable) (lines' : List String), (∀ j, k < j → raises' j = raises j) →
    lines'.length = (lines.take (k + 1)).length → ∃ later,
      eventsOf framework bundleText raises b lines =
        eventsOf framework bundleText raises b (lines.take (k + 1)) ++ later ∧
      eventsOf framework bundleText raises' b (lines' ++ lines.drop (k + 1)) =
        eventsOf framework bundleText raises' b lines' ++ later

end Claim

/-! ### One line -/

section Line

variable (framework : OsgiFramework) (bundleText : String → String) (raises : FrameworkOp → Option Throwable)

theorem uniform_installLine (line : String) : Prog.Uniform (DynamyServer.installLine framework bundleText raises line) := by
  unfold DynamyServer.installLine
  split
  · exact Prog.uniform_emit _
  · split
    · exact (uniform_installDescriptor framework raises _ _ _).attempt fun e => Prog.uniform_emit _
    · exact Prog.uniform_pure _

/-- Nothing gets out of the body of the loop. -/
theorem installLine_returns (line : String) (b : Bundles) :
    ((DynamyServer.installLine framework bundleText raises line).run b).result = .ok () := by
  unfold DynamyServer.installLine
  split
  · rfl
  · split
    · rw [Prog.run_attempt]
      split
      · rfl
      · rfl
    · rfl

/-- An event that is no attempt to install. -/
def NoAttempt (w : InstallEvent) : Prop := attempt w = none

theorem noAttempt_perform {op : FrameworkOp} (hop : attempt (.call op) = none) :
    Prog.Always NoAttempt (perform framework raises op) := by
  have hcall : Prog.Always NoAttempt (Prog.emit (.call op) : InstallM Unit) := Prog.always_emit hop
  refine hcall.bind fun _ => ?_
  cases raises op with
  | some e => exact (Prog.silent_raise e).always
  | none => exact (Prog.silent_update _).always

theorem noAttempt_logs (messages : List String) :
    Prog.Always NoAttempt (Prog.each (fun m => log .info m none) messages : InstallM Unit) := by
  induction messages with
  | nil => exact (Prog.silent_pure ()).always
  | cons m messages ih =>
    have hlog : Prog.Always NoAttempt (log .info m none) := Prog.always_emit rfl
    exact hlog.bind fun _ => ih

theorem noAttempt_startIfAsked (started : List String) (d : Descriptor) :
    Prog.Always NoAttempt (startIfAsked framework raises started d) := by
  unfold startIfAsked
  split
  · exact (noAttempt_perform framework raises rfl).bind fun _ => noAttempt_logs _
  · exact (Prog.silent_pure ()).always

theorem noAttempt_setRunlevel (d : Descriptor) : Prog.Always NoAttempt (setRunlevel framework raises d) := by
  unfold setRunlevel
  split
  · exact (Prog.silent_ofExcept _).always.bind fun _ => noAttempt_perform framework raises rfl
  · exact (Prog.silent_pure ()).always

theorem filterMap_attempt_of_noAttempt {es : List InstallEvent} (h : ∀ w ∈ es, NoAttempt w) :
    es.filterMap attempt = [] := List.filterMap_eq_nil_iff.mpr h

/-- The first thing is the attempt, and there is no other. -/
theorem attempts_installDescriptor (installed started : List String) (d : Descriptor) (b : Bundles) :
    ((installDescriptor framework raises installed started d).run b).events.filterMap attempt = [d.url] := by
  have hrest : Prog.Always NoAttempt (do
      Prog.each (fun m => log .info m none) installed
      startIfAsked framework raises started d
      setRunlevel framework raises d) :=
    (noAttempt_logs _).bind fun _ =>
      (noAttempt_startIfAsked framework raises _ d).bind fun _ => noAttempt_setRunlevel framework raises d
  rw [installDescriptor]
  cases hr : raises (.installBundle d.url) with
  | some e =>
    rw [run_perform_bind_of_raises hr]
    rfl
  | none =>
    rw [run_perform_bind hr, List.filterMap_cons]
    simp only [attempt]
    rw [filterMap_attempt_of_noAttempt (hrest _)]

/-- A descriptor is attempted to be installed, once. -/
theorem attempts_installLine {line : String} {d : Descriptor} (hcomment : unapplySeq DynamyServer.Comment 1 line = none)
    (hd : unapplyBundle DynamyServer.Bundle line = some d) (b : Bundles) :
    ((DynamyServer.installLine framework bundleText raises line).run b).events.filterMap attempt = [d.url] := by
  have hattempts := attempts_installDescriptor framework raises ["Bundle " ++ bundleText d.url ++ " installed"]
    ["Bundle " ++ bundleText d.url ++ " started"] d b
  rw [DynamyServer.installLine, hcomment]
  dsimp only
  rw [hd]
  dsimp only
  rw [Prog.run_attempt]
  rcases hrun : (installDescriptor framework raises ["Bundle " ++ bundleText d.url ++ " installed"]
    ["Bundle " ++ bundleText d.url ++ " started"] d).run b with ⟨result, b', es⟩
  rw [hrun] at hattempts
  cases result with
  | ok _ => exact hattempts
  | error e =>
    dsimp only at hattempts ⊢
    rw [List.filterMap_append, hattempts]
    rfl

/-- A line that is neither a comment nor a descriptor leads to nothing. -/
theorem events_installLine_of_none {line : String} (hcomment : unapplySeq DynamyServer.Comment 1 line = none)
    (hd : unapplyBundle DynamyServer.Bundle line = none) (b : Bundles) :
    ((DynamyServer.installLine framework bundleText raises line).run b).events = [] := by
  rw [DynamyServer.installLine, hcomment]
  dsimp only
  rw [hd]
  rfl

theorem url_eq {line : String} {d : Descriptor} (hd : unapplyBundle DynamyServer.Bundle line = some d) :
    d.url = urlOf line := by
  have hurl : d.url.toList = line.toList.takeWhile (· != '!') := url_of_accepted (by decide) (by decide) hd
  rw [urlOf, ← hurl, String.ofList_toList]

/-- **One line**: it is treated exactly if it is a descriptor. -/
theorem treated_iff {line : String} (hcomment : unapplySeq DynamyServer.Comment 1 line = none) (b : Bundles) :
    Treated line ((DynamyServer.installLine framework bundleText raises line).run b).events ↔
      (unapplyBundle DynamyServer.Bundle line).isSome = true := by
  cases hd : unapplyBundle DynamyServer.Bundle line with
  | some d =>
    have hattempts := attempts_installLine framework bundleText raises hcomment hd b
    exact iff_of_true (.inl (url_eq hd ▸ hattempts)) rfl
  | none =>
    rw [events_installLine_of_none framework bundleText raises hcomment hd b]
    refine iff_of_false ?_ (by simp)
    rintro (hurl | ⟨-, message, e, hmem, -⟩)
    · cases hurl
    · cases hmem

end Line

/-! ### All lines -/

section Lines

variable (framework : OsgiFramework) (bundleText : String → String) (raises : ℕ → FrameworkOp → Option Throwable)

theorem uniform_installLines (k : ℕ) (lines : List String) :
    Prog.Uniform (DynamyServer.installLines framework bundleText raises k lines) := by
  induction lines generalizing k with
  | nil => exact Prog.uniform_pure ()
  | cons line lines ih => exact (uniform_installLine framework bundleText (raises k) line).bind fun _ => ih (k + 1)

theorem run_installLines_cons (k : ℕ) (line : String) (lines : List String) (b : Bundles) :
    ((DynamyServer.installLines framework bundleText raises k (line :: lines)).run b).result =
        ((DynamyServer.installLines framework bundleText raises (k + 1) lines).run b).result ∧
      ((DynamyServer.installLines framework bundleText raises k (line :: lines)).run b).events =
        ((DynamyServer.installLine framework bundleText (raises k) line).run b).events ++
          ((DynamyServer.installLines framework bundleText raises (k + 1) lines).run b).events := by
  have hok := installLine_returns framework bundleText (raises k) line b
  rw [DynamyServer.installLines, Prog.run_bind]
  rcases hrun : (DynamyServer.installLine framework bundleText (raises k) line).run b with ⟨result, b', es⟩
  rw [hrun] at hok
  subst hok
  obtain ⟨hresult, hevents⟩ := uniform_installLines framework bundleText raises (k + 1) lines b' b
  dsimp only
  rw [hresult, hevents]
  exact ⟨rfl, rfl⟩

theorem installLines_returns (k : ℕ) (lines : List String) (b : Bundles) :
    ((DynamyServer.installLines framework bundleText raises k lines).run b).result = .ok () := by
  induction lines generalizing k with
  | nil => rfl
  | cons line lines ih => rw [(run_installLines_cons framework bundleText raises k line lines b).1, ih]

theorem events_installLines_append (k : ℕ) (xs ys : List String) (b : Bundles) :
    ((DynamyServer.installLines framework bundleText raises k (xs ++ ys)).run b).events =
      ((DynamyServer.installLines framework bundleText raises k xs).run b).events ++
        ((DynamyServer.installLines framework bundleText raises (k + xs.length) ys).run b).events := by
  induction xs generalizing k with
  | nil => rfl
  | cons x xs ih =>
    rw [List.cons_append, (run_installLines_cons framework bundleText raises k x (xs ++ ys) b).2,
      (run_installLines_cons framework bundleText raises k x xs b).2, ih, List.append_assoc,
        List.length_cons, Nat.add_right_comm,
      Nat.add_assoc]

/-- What fails on the earlier lines does not matter to the lines from `k` on. -/
theorem events_installLines_congr {raises' : ℕ → FrameworkOp → Option Throwable} {k : ℕ}
    (h : ∀ j, k ≤ j → raises' j = raises j) (lines : List String) (b : Bundles) :
    ((DynamyServer.installLines framework bundleText raises' k lines).run b).events =
      ((DynamyServer.installLines framework bundleText raises k lines).run b).events := by
  induction lines generalizing k with
  | nil => rfl
  | cons line lines ih =>
    rw [(run_installLines_cons framework bundleText raises' k line lines b).2,
      (run_installLines_cons framework bundleText raises k line lines b).2, h k le_rfl,
      ih fun j hj => h j ((Nat.le_succ k).trans hj)]

/-- The lines that come after others. -/
theorem eventsOf_append (xs ys : List String) (b : Bundles) : eventsOf framework bundleText raises b (xs ++ ys) =
    eventsOf framework bundleText raises b xs ++
      ((DynamyServer.installLines framework bundleText raises xs.length ys).run b).events := by
  have happend := events_installLines_append framework bundleText raises 0 xs ys b
  rwa [Nat.zero_add] at happend

theorem failuresStay (lines : List String) (b : Bundles) (k : ℕ) :
    FailuresStay framework bundleText raises b lines k := by
  intro raises' lines' hraises hlength
  have hsplit := eventsOf_append framework bundleText raises (lines.take (k + 1)) (lines.drop (k + 1)) b
  rw [List.take_append_drop] at hsplit
  refine ⟨_, hsplit, ?_⟩
  rw [eventsOf_append, hlength]
  by_cases hk : lines.length ≤ k + 1
  · rw [List.drop_of_length_le hk]
    rfl
  · have hlen : (lines.take (k + 1)).length = k + 1 := by
      rw [List.length_take]
      omega
    rw [hlen, events_installLines_congr framework bundleText raises fun j hj => hraises j hj]

/-- The turn of the line at place `k`. -/
theorem treatsLine_iff_treated {lines : List String} {k : ℕ} {line : String} (hline : lines[k]? = some line)
    (b : Bundles) : TreatsLine framework bundleText raises b lines k line ↔
      Treated line ((DynamyServer.installLine framework bundleText (raises k) line).run b).events := by
  obtain ⟨hlt, hget⟩ := List.getElem?_eq_some_iff.mp hline
  have htake : lines.take (k + 1) = lines.take k ++ [line] := by
    rw [List.take_succ_eq_append_getElem hlt, hget]
  have hlen : (lines.take k).length = k := by
    rw [List.length_take]
    omega
  have hevents : eventsOf framework bundleText raises b (lines.take (k + 1)) =
      eventsOf framework bundleText raises b (lines.take k) ++
      ((DynamyServer.installLine framework bundleText (raises k) line).run b).events := by
    have happend := events_installLines_append framework bundleText raises 0 (lines.take k) [line] b
    rw [← htake, hlen, Nat.zero_add, (run_installLines_cons framework bundleText raises k line [] b).2] at happend
    exact happend.trans (congrArg _ (List.append_nil _))
  constructor
  · rintro ⟨es, hes, htreated⟩
    rw [hevents] at hes
    rwa [List.append_cancel_left hes]
  · exact fun htreated => ⟨_, hevents, htreated⟩

/-- **The lines of `initial.list`, exactly.**  Whatever fails, the loop comes to its end, no failure matters to the
lines after it, and a line that is no comment is treated at its turn if and only if it is a descriptor. -/
theorem treatsLine_iff (content : String) (b : Bundles) {k : ℕ} {line : String}
    (hline : ((getLines content.toList).map String.ofList)[k]? = some line)
    (hcomment : unapplySeq DynamyServer.Comment 1 line = none) :
    ((DynamyServer.installBundles framework bundleText raises content).run b).result = .ok () ∧
      FailuresStay framework bundleText raises b ((getLines content.toList).map String.ofList) k ∧
      (TreatsLine framework bundleText raises b ((getLines content.toList).map String.ofList) k line ↔
        (unapplyBundle DynamyServer.Bundle line).isSome = true) := by
  refine ⟨installLines_returns framework bundleText raises 0 _ b, failuresStay framework bundleText raises _ b k, ?_⟩
  exact (treatsLine_iff_treated framework bundleText raises hline b).trans
    (treated_iff framework bundleText (raises k) hcomment b)

end Lines

/-- Without a network: the second line is a bundle that cannot be installed. -/
theorem treatsLine_iff_offline :
    ((DynamyServer.installBundles .plain id (fun _ _ => some ⟨.bundle, none⟩) "#x\nmvn:a!start").run fun _ => none).result =
        .ok () ∧
      FailuresStay .plain id (fun _ _ => some ⟨.bundle, none⟩) (fun _ => none)
        ((getLines "#x\nmvn:a!start".toList).map String.ofList) 1 ∧
      (TreatsLine .plain id (fun _ _ => some ⟨.bundle, none⟩) (fun _ => none)
          ((getLines "#x\nmvn:a!start".toList).map String.ofList) 1 "mvn:a!start" ↔
        (unapplyBundle DynamyServer.Bundle "mvn:a!start").isSome = true) :=
  treatsLine_iff _ _ _ _ _ (by decide) (by decide)

/-- A slip of the pen behind the url: nothing is installed and nothing is said. -/
theorem line_skipped :
    ¬ TreatsLine .plain id (fun _ _ => none) (fun _ => none) ((getLines "mvn:a!strat".toList).map String.ofList) 0
      "mvn:a!strat" := by
  have hnone : unapplyBundle DynamyServer.Bundle "mvn:a!strat" = none := by decide
  rw [treatsLine_iff_treated _ _ _ (by decide), treated_iff _ _ _ (by decide), hnone]
  exact Bool.false_ne_true

end Dynamy.Kernel
