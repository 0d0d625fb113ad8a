import Dynamy.Kernel.ServerSetup
import Dynamy.Lib.Run

/-!
# Dynamy.Kernel.Starts — what the marker promises

A server may be started any number of times, and every start may be broken off anywhere: by an I/O error, which may
leave a file half written, or because the process is killed.  `Files.createDirectories` and `Files.copy` are taken apart for
this, into the directories and the pieces that they write (`SetupOp`).  `initialise_reaches` says that whatever
`initialise` does is one of these runs.

Only one start that copied every file itself, from its beginning to its end, comes to the marker, and no start changes
what was there before (`marker_complete`).
-/

namespace Dynamy.Kernel

open Dynamy.Java Dynamy.Lib ServerSetup

/-- What a start has before it, one access to the file system at a time. -/
inductive SetupOp
  /-- one of the directories on the way to `target` -/
  | createDirectory (target q : Path)
  | copy (stream : Except Throwable String) (target : Path)
  /-- the rest of a copy: what the file holds, and what not yet -/
  | write (target : Path) (written more : List Char)
  | createFile (p : Path)

namespace SetupOp

/-- What an access leads to, and what is left of it.  A piece of a file is `k + 1` long. -/
def perform (fs : FileTree) (k : ℕ) : SetupOp → Except Throwable (FileTree × List SetupOp)
  | .createDirectory target q => do
    let fs ← FileTree.createDirectory target fs q
    pure (fs, [])
  | .copy stream target => do
    let content ← stream
    let fs ← fs.create target (.file "")
    pure (fs, [.write target [] content.toList])
  | .write _ _ [] => pure (fs, [])
  | .write target written more =>
    pure (fs.overwrite target (.ofList (written ++ more.take (k + 1))),
      [.write target (written ++ more.take (k + 1)) (more.drop (k + 1))])
  | .createFile p => do
    let fs ← fs.create p (.file "")
    pure (fs, [])

end SetupOp

/-- The file system, and what the start that is under way has before it. -/
structure ServerState where
  fs : FileTree
  todo : Option (List SetupOp) := none

inductive ServerAction
  /-- a start, with the resources of its version and the home that it runs in -/
  | start (resource : String → String) (home : String)
  | go (k : ℕ)
  /-- an I/O error, or the process is killed -/
  | breakOff

namespace ServerSetup

section Machine

variable (serverPath : Path)

def preparations (resource : String → String) (home : String) : List SetupOp :=
  (directories serverPath).flatMap (fun p => p.inits.map (.createDirectory p)) ++
    ((processed serverPath).map (fun r => .copy (process (resource r.1) home) r.2) ++
      (unprocessed serverPath ++ users serverPath).map fun r => .copy (.ok (resource r.1)) r.2)

def setupOps (resource : String → String) (home : String) : List SetupOp :=
  preparations serverPath resource home ++ [.createFile (initializedPath serverPath)]

def step (st : ServerState) : ServerAction → Option ServerState
  | .start resource home =>
    match st.todo with
    | some _ => none
    | none =>
      if isInitialized serverPath st.fs then some st
      else some { st with todo := some (setupOps serverPath resource home) }
  | .go k =>
    match st.todo with
    | none => none
    | some [] => some { st with todo := none }
    | some (op :: rest) =>
      match op.perform st.fs k with
      | .error _ => some { st with todo := none }
      | .ok (fs, ops) => some ⟨fs, some (ops ++ rest)⟩
  | .breakOff => some { st with todo := none }

end Machine

end ServerSetup

namespace SetupOp

/-! ### One access -/

def path : SetupOp → Path
  | .createDirectory _ q => q
  | .copy _ target => target
  | .write target _ _ => target
  | .createFile p => p

/-- The file that an access creates. -/
def creates : SetupOp → Option Path
  | .copy _ target => some target
  | .createFile p => some p
  | _ => none

/-- What there is when an access has been made in full. -/
def Done (fs : FileTree) : SetupOp → Prop
  | .createDirectory _ q => fs.node q = some .directory
  | .copy stream target => ∃ text, stream = .ok text ∧ fs.node target = some (.file text)
  | .write _ _ _ => True
  | .createFile p => ∃ content, fs.node p = some (.file content)

variable {fs fs' : FileTree} {op : SetupOp} {ops : List SetupOp} {p : Path} {k : ℕ}

theorem Done.mono (h : op.Done fs) (hext : fs.Extends fs') : op.Done fs' := by
  cases op with
  | createDirectory target q => exact hext _ _ h
  | copy stream target =>
    obtain ⟨text, hstream, hfile⟩ := h
    exact ⟨text, hstream, hext _ _ hfile⟩
  | write => exact trivial
  | createFile p =>
    obtain ⟨content, hfile⟩ := h
    exact ⟨content, hext _ _ hfile⟩

/-- Writing into another file keeps it. -/
theorem Done.overwrite {old content : String} (h : op.Done fs) (hfile : fs.node p = some (.file old))
    (hp : op.creates ≠ some p) : op.Done (fs.overwrite p content) := by
  cases op with
  | createDirectory target q =>
    have hq : q ≠ p := by
      rintro rfl
      rw [Done, hfile] at h
      cases h
    exact (FileTree.overwrite_of_ne hq).trans h
  | copy stream target =>
    obtain ⟨text, hstream, htext⟩ := h
    have hne : target ≠ p := fun heq => hp (congrArg some heq)
    exact ⟨text, hstream, (FileTree.overwrite_of_ne hne).trans htext⟩
  | write => exact trivial
  | createFile q =>
    obtain ⟨text, htext⟩ := h
    have hne : q ≠ p := fun heq => hp (congrArg some heq)
    exact ⟨text, (FileTree.overwrite_of_ne hne).trans htext⟩

/-- What an access can be that raises nothing. -/
inductive Performs (fs : FileTree) : SetupOp → FileTree → List SetupOp → Prop
  | createDirectory {target q : Path} {fs' : FileTree} (hq : fs'.node q = some .directory) (hext : fs.Extends fs')
      (hsame : ∀ p, p ≠ q → fs'.node p = fs.node p) : Performs fs (.createDirectory target q) fs' []
  | copy {content : String} {target : Path} {fs' : FileTree} (hfree : fs.node target = none)
      (hnode : fs'.node = Function.update fs.node target (some (.file ""))) :
      Performs fs (.copy (.ok content) target) fs' [.write target [] content.toList]
  | written {target : Path} {written : List Char} : Performs fs (.write target written []) fs []
  | writes {target : Path} {written piece more : List Char} :
      Performs fs (.write target written (piece ++ more)) (fs.overwrite target (.ofList (written ++ piece)))
        [.write target (written ++ piece) more]
  | createFile {p : Path} {fs' : FileTree} (hfree : fs.node p = none)
      (hnode : fs'.node = Function.update fs.node p (some (.file ""))) : Performs fs (.createFile p) fs' []

theorem performs_of_perform (h : op.perform fs k = .ok (fs', ops)) : Performs fs op fs' ops := by
  cases op with
  | createDirectory target q =>
    obtain ⟨fs₁, hcreate, h⟩ := of_bind_eq_ok h
    cases h
    obtain ⟨hq, hext, hsame⟩ := FileTree.createDirectory_ok hcreate
    exact .createDirectory hq hext hsame
  | copy stream target =>
    obtain ⟨content, hstream, hrest⟩ := of_bind_eq_ok h
    obtain ⟨fs₁, hcreate, hrest⟩ := of_bind_eq_ok hrest
    cases hrest
    subst hstream
    obtain ⟨hfree, -, hnode⟩ := FileTree.create_eq_ok_iff.mp hcreate
    exact .copy hfree hnode
  | write target written more =>
    cases more with
    | nil =>
      cases h
      exact .written
    | cons c more =>
      cases h
      have hpieces : Performs fs (.write target written ((c :: more).take (k + 1) ++ (c :: more).drop (k + 1))) _ _ :=
        .writes
      rwa [List.take_append_drop] at hpieces
  | createFile p =>
    obtain ⟨fs₁, hcreate, h⟩ := of_bind_eq_ok h
    cases h
    obtain ⟨hfree, -, hnode⟩ := FileTree.create_eq_ok_iff.mp hcreate
    exact .createFile hfree hnode

end SetupOp

/-! ### What a start has before it -/

section Ops

variable {serverPath : Path} {resource : String → String} {home : String} {op : SetupOp} {done rest : List SetupOp}
  {p : Path}

theorem creates_setupOps : (setupOps serverPath resource home).filterMap SetupOp.creates =
    relativeFiles.map (serverPath ++ ·) := by
  have hdirectories : ((directories serverPath).flatMap fun p => p.inits.map (SetupOp.createDirectory p)).filterMap
      SetupOp.creates = [] := by
    rw [List.filterMap_eq_nil_iff]
    intro op hop
    obtain ⟨p, -, hop⟩ := List.mem_flatMap.mp hop
    obtain ⟨q, -, rfl⟩ := List.mem_map.mp hop
    rfl
  rw [setupOps, preparations, List.filterMap_append, List.filterMap_append, hdirectories]
  rfl

/-- No file is created twice. -/
theorem nodup_creates : ((setupOps serverPath resource home).filterMap SetupOp.creates).Nodup := by
  have hrelative : relativeFiles.Nodup := by decide
  rw [creates_setupOps]
  exact List.Nodup.map (fun _ _ h => List.append_cancel_left h) hrelative

theorem creates_ne (h : done ++ op :: rest = setupOps serverPath resource home) (hop : op.creates = some p) :
    ∀ op' ∈ done, op'.creates ≠ some p := by
  intro op' hop' heq
  have hnodup : ((setupOps serverPath resource home).filterMap SetupOp.creates).Nodup := nodup_creates
  rw [← h, List.filterMap_append, List.filterMap_cons_some hop, List.nodup_append] at hnodup
  exact hnodup.2.2 p (List.mem_filterMap.mpr ⟨op', hop', heq⟩) p List.mem_cons_self rfl

theorem file_ne_marker : ∀ r ∈ processed serverPath ++ unprocessed serverPath ++ users serverPath,
    r.2 ≠ initializedPath serverPath := by
  have hpaths : (processed serverPath ++ unprocessed serverPath ++ users serverPath).map Prod.snd =
      relativeFiles.dropLast.map (serverPath ++ ·) := rfl
  have hrelative : [".initialized"] ∉ relativeFiles.dropLast := by decide
  intro r hr heq
  have hr' : r.2 ∈ relativeFiles.dropLast.map (serverPath ++ ·) := hpaths ▸ List.mem_map_of_mem hr
  obtain ⟨p, hp, hrp⟩ := List.mem_map.mp hr'
  have hp' : p = [".initialized"] := List.append_cancel_left (hrp.trans heq)
  exact hrelative (hp' ▸ hp)

theorem marker_not_above : ∀ d ∈ directories serverPath, ¬ initializedPath serverPath <+: d := by
  have hmarker : ((.ok "", initializedPath serverPath) : Except Throwable String × Path) ∈
      copies (fun _ => "") "" serverPath := by simp [copies]
  exact (copies_directories _ hmarker).1

/-- What is done before the last step. -/
theorem of_mem_preparations (h : op ∈ preparations serverPath resource home) :
    op.path ≠ initializedPath serverPath ∧
      ((∃ target q, op = .createDirectory target q) ∨ ∃ stream target, op = .copy stream target) := by
  simp only [preparations, List.mem_append, List.mem_flatMap, List.mem_map] at h
  rcases h with ⟨p, hp, q, hq, rfl⟩ | ⟨r, hr, rfl⟩ | ⟨r, hr, rfl⟩
  · refine ⟨fun heq => marker_not_above p hp ?_, .inl ⟨_, _, rfl⟩⟩
    have hq' : q = initializedPath serverPath := heq
    exact hq' ▸ (List.mem_inits q p).mp hq
  · exact ⟨file_ne_marker r (by simp [hr]), .inr ⟨_, _, rfl⟩⟩
  · exact ⟨file_ne_marker r (by simp [hr]), .inr ⟨_, _, rfl⟩⟩

/-- The last step is the marker's. -/
theorem setupOps_split (h : done ++ op :: rest = setupOps serverPath resource home) :
    op ∈ preparations serverPath resource home ∨
      done = preparations serverPath resource home ∧ op = .createFile (initializedPath serverPath) ∧ rest = [] := by
  rw [setupOps] at h
  rcases List.eq_nil_or_concat rest with rfl | ⟨rest, last, rfl⟩
  · obtain ⟨hdone, hop⟩ := List.append_inj' h rfl
    exact .inr ⟨hdone, by simpa using hop, rfl⟩
  · refine .inl ?_
    have hinit : done ++ op :: rest = preparations serverPath resource home := by
      rw [List.concat_eq_append, ← List.cons_append, ← List.append_assoc] at h
      exact (List.append_inj' h rfl).1
    rw [← hinit]
    exact List.mem_append_right _ List.mem_cons_self

theorem directory_mem {d : Path} (hd : d ∈ directories serverPath) :
    .createDirectory d d ∈ setupOps serverPath resource home := by
  refine List.mem_append_left _ (List.mem_append_left _ (List.mem_flatMap.mpr ⟨d, hd, List.mem_map.mpr ⟨d, ?_, rfl⟩⟩))
  exact (List.mem_inits d d).mpr List.prefix_rfl

theorem processed_mem {r : String × Path} (hr : r ∈ processed serverPath) :
    .copy (process (resource r.1) home) r.2 ∈ setupOps serverPath resource home :=
  List.mem_append_left _ (List.mem_append_right _ (List.mem_append_left _ (List.mem_map.mpr ⟨r, hr, rfl⟩)))

theorem copied_mem {r : String × Path} (hr : r ∈ unprocessed serverPath ++ users serverPath) :
    .copy (.ok (resource r.1)) r.2 ∈ setupOps serverPath resource home :=
  List.mem_append_left _ (List.mem_append_right _ (List.mem_append_right _ (List.mem_map.mpr ⟨r, hr, rfl⟩)))

end Ops

/-! ### A start that is under way -/

/-- `done` of a start has been done, with files that were not there in `fs₀`. -/
structure Progress (fs₀ fs : FileTree) (done : List SetupOp) : Prop where
  there : ∀ op ∈ done, op.Done fs
  fresh : ∀ op ∈ done, ∀ p, op.creates = some p → fs₀.node p = none

section Underway

variable (serverPath : Path) (resource : String → String) (home : String) (fs₀ fs : FileTree)

/-- What a start has before it, between two operations or within a copy. -/
inductive Underway : List SetupOp → Prop
  | between {done rest : List SetupOp} (hsplit : done ++ rest = setupOps serverPath resource home)
      (h : Progress fs₀ fs done) : Underway rest
  | writing {done rest : List SetupOp} {target : Path} {written more : List Char}
      (hsplit : done ++ .copy (.ok (.ofList (written ++ more))) target :: rest = setupOps serverPath resource home)
      (h : Progress fs₀ fs done) (hfile : fs.node target = some (.file (.ofList written)))
      (hfree : fs₀.node target = none) : Underway (.write target written more :: rest)

end Underway

section Steps

variable {serverPath : Path} {resource : String → String} {home : String} {fs₀ fs fs' : FileTree}
  {op : SetupOp} {ops done rest todo : List SetupOp}

theorem Progress.mono (h : Progress fs₀ fs done) (hext : fs.Extends fs') : Progress fs₀ fs' done :=
  ⟨fun op hop => (h.there op hop).mono hext, h.fresh⟩

theorem Progress.snoc (h : Progress fs₀ fs done) (hop : op.Done fs)
    (hfresh : ∀ p, op.creates = some p → fs₀.node p = none) : Progress fs₀ fs (done ++ [op]) where
  there op' hop' := by
    rcases List.mem_append.mp hop' with hop' | hop'
    · exact h.there op' hop'
    · exact List.mem_singleton.mp hop' ▸ hop
  fresh op' hop' := by
    rcases List.mem_append.mp hop' with hop' | hop'
    · exact h.fresh op' hop'
    · exact List.mem_singleton.mp hop' ▸ hfresh

/-- **One access** of a start that is under way: what was there in `fs₀` stays, and the marker comes last. -/
theorem Underway.performs (h : Underway serverPath resource home fs₀ fs (op :: rest)) (hext : fs₀.Extends fs)
    (hmarker : fs.node (initializedPath serverPath) = none) (hop : op.Performs fs fs' ops) :
    Underway serverPath resource home fs₀ fs' (ops ++ rest) ∧ fs₀.Extends fs' ∧
      (fs'.node (initializedPath serverPath) ≠ none → ops ++ rest = []) := by
  cases h with
  | @between done _ hsplit h =>
    rcases setupOps_split hsplit with hprep | ⟨rfl, rfl, rfl⟩
    · obtain ⟨hpath, hkind⟩ := of_mem_preparations hprep
      cases hop with
      | @createDirectory target q fs' hq hext' hsame =>
        have hdone : SetupOp.Done fs' (.createDirectory target q) := hq
        refine ⟨.between (by simpa using hsplit) ((h.mono hext').snoc hdone (by simp [SetupOp.creates])),
          hext.trans hext', fun hne => ?_⟩
        rw [hsame _ (fun heq => hpath heq.symm), hmarker] at hne
        exact absurd rfl hne
      | @copy content target fs' hfree hnode =>
        have hext' := FileTree.extends_update hfree hnode
        have htarget : initializedPath serverPath ≠ target := fun heq => hpath heq.symm
        refine ⟨.writing ?_ (h.mono hext') ?_ (hext.node_eq_none hfree), hext.trans hext', fun hne => ?_⟩
        · rw [List.nil_append, String.ofList_toList]
          exact hsplit
        · rw [hnode, Function.update_self]
        · rw [hnode, Function.update_of_ne htarget, hmarker] at hne
          exact absurd rfl hne
      | written => obtain ⟨_, _, h⟩ | ⟨_, _, h⟩ := hkind <;> cases h
      | writes => obtain ⟨_, _, h⟩ | ⟨_, _, h⟩ := hkind <;> cases h
      | createFile => obtain ⟨_, _, h⟩ | ⟨_, _, h⟩ := hkind <;> cases h
    · cases hop with
      | createFile hfree hnode =>
        have hext' := FileTree.extends_update hfree hnode
        have hdone : SetupOp.Done fs' (.createFile (initializedPath serverPath)) := ⟨"", by
          rw [hnode, Function.update_self]⟩
        have hfresh : ∀ p, (SetupOp.createFile (initializedPath serverPath)).creates = some p → fs₀.node p = none := by
          intro p hp
          cases hp
          exact hext.node_eq_none hfree
        exact ⟨.between (by simpa using hsplit) ((h.mono hext').snoc hdone hfresh), hext.trans hext',
          fun _ => rfl⟩
  | @writing done _ target written more hsplit h hfile hfree =>
    have hcreates := creates_ne hsplit rfl
    have htarget : initializedPath serverPath ≠ target := by
      rcases setupOps_split hsplit with hprep | ⟨-, hlast, -⟩
      · exact (of_mem_preparations hprep).1.symm
      · cases hlast
    cases hop with
    | written =>
      rw [List.append_nil] at hsplit
      have hdone : SetupOp.Done fs (.copy (.ok (.ofList written)) target) := ⟨_, rfl, hfile⟩
      have hfresh : ∀ p, (SetupOp.copy (.ok (.ofList written)) target).creates = some p → fs₀.node p = none := by
        intro p hp
        cases hp
        exact hfree
      exact ⟨.between (by simpa using hsplit) (h.snoc hdone hfresh), hext,
        fun hne => absurd hmarker hne⟩
    | @writes _ _ piece more =>
      rw [← List.append_assoc] at hsplit
      refine ⟨.writing hsplit ⟨fun op hop => ?_, h.fresh⟩ (FileTree.overwrite_self hfile) hfree, fun q n hq => ?_,
        fun hne => ?_⟩
      · exact (h.there op hop).overwrite hfile (hcreates op hop)
      · have hne : q ≠ target := by
          rintro rfl
          rw [hfree] at hq
          cases hq
        exact (FileTree.overwrite_of_ne hne).trans (hext q n hq)
      · exact absurd ((FileTree.overwrite_of_ne htarget).trans hmarker) hne

end Steps

/-! ### Any number of starts -/

/-- Every start is of a version and in a home that `P` admits. -/
def Starts (P : (String → String) → String → Prop) (_ : ServerState) (a : ServerAction) : Prop :=
  ∀ resource home, a = .start resource home → P resource home

/-- Nothing but the next access: no exception ends the start, and nothing kills it. -/
def Goes (_ : ServerState) (a : ServerAction) : Prop := ∃ k, a = .go k

section History

variable (serverPath : Path) (P : (String → String) → String → Prop) (fs₀ fs₁ fs : FileTree)
  (resource : String → String) (home : String)

/-- The start that has `ops` before it found `fs₁`, and has come to `fs` alone. -/
structure Begun (ops : List SetupOp) : Prop where
  admitted : P resource home
  starts : Runs (step serverPath) (Starts P) ⟨fs₀, none⟩ ⟨fs₁, none⟩
  found : fs₀.Extends fs₁
  goes : Runs (step serverPath) Goes ⟨fs₁, some (setupOps serverPath resource home)⟩ ⟨fs, some ops⟩
  kept : fs₁.Extends fs
  underway : Underway serverPath resource home fs₁ fs ops

/-- What holds between any two accesses. -/
structure Kept (st : ServerState) : Prop where
  starts : Runs (step serverPath) (Starts P) ⟨fs₀, none⟩ st
  before : fs₀.Extends st.fs
  marker : fs₀.node (initializedPath serverPath) = none → st.fs.node (initializedPath serverPath) ≠ none →
    ∃ fs₁ resource home, Begun serverPath P fs₀ fs₁ st.fs resource home []
  todo : ∀ ops, st.todo = some ops → ∃ fs₁ resource home, Begun serverPath P fs₀ fs₁ st.fs resource home ops ∧
    (ops ≠ [] → st.fs.node (initializedPath serverPath) = none)

end History

section Runs

variable {serverPath : Path} {P : (String → String) → String → Prop} {fs₀ fs₁ fs fs' : FileTree}
  {resource : String → String} {home : String} {op : SetupOp} {ops rest : List SetupOp} {st st' : ServerState}

theorem Underway.finished (h : Underway serverPath resource home fs₁ fs []) :
    Progress fs₁ fs (setupOps serverPath resource home) := by
  cases h with
  | between hsplit h =>
    rw [List.append_nil] at hsplit
    exact hsplit ▸ h

/-- One access of the start that is under way. -/
theorem Begun.go {k : ℕ} (h : Begun serverPath P fs₀ fs₁ fs resource home (op :: rest))
    (hmarker : fs.node (initializedPath serverPath) = none) (hperform : op.perform fs k = .ok (fs', ops)) :
    Begun serverPath P fs₀ fs₁ fs' resource home (ops ++ rest) ∧
      (fs'.node (initializedPath serverPath) ≠ none → ops ++ rest = []) := by
  obtain ⟨hnext, hext, hlast⟩ := h.underway.performs h.kept hmarker (SetupOp.performs_of_perform hperform)
  have hstep : step serverPath ⟨fs, some (op :: rest)⟩ (.go k) = some ⟨fs', some (ops ++ rest)⟩ := by
    simp only [ServerSetup.step, hperform]
  exact ⟨{ h with goes := h.goes.tail ⟨k, rfl⟩ hstep, kept := hext, underway := hnext }, hlast⟩

theorem Kept.step (h : Kept serverPath P fs₀ st) {a : ServerAction} (ha : Starts P st a)
    (hs : step serverPath st a = some st') : Kept serverPath P fs₀ st' := by
  have hstarts := h.starts.tail ha hs
  have hended : { st with todo := none } = st' → Kept serverPath P fs₀ st' := by
    rintro rfl
    exact ⟨hstarts, h.before, h.marker, fun ops hops => by cases hops⟩
  cases a with
  | start resource home =>
    rw [ServerSetup.step] at hs
    split at hs
    · cases hs
    · rename_i htodo
      split at hs
      · cases hs
        exact h
      · rename_i hmarker
        cases hs
        refine ⟨hstarts, h.before, h.marker, fun ops hops => ?_⟩
        cases hops
        have hnone : st.fs.node (initializedPath serverPath) = none := by
          simpa [isInitialized] using hmarker
        have hfound : Runs (ServerSetup.step serverPath) (Starts P) ⟨fs₀, none⟩ ⟨st.fs, none⟩ := htodo ▸ h.starts
        exact ⟨st.fs, resource, home,
          { admitted := ha resource home rfl, starts := hfound, found := h.before, goes := .refl, kept := .refl st.fs,
            underway := .between (List.nil_append _) ⟨by simp, by simp⟩ }, fun _ => hnone⟩
  | go k =>
    rw [ServerSetup.step] at hs
    split at hs
    · cases hs
    · exact hended (Option.some.inj hs)
    · rename_i op rest htodo
      obtain ⟨fs₁, resource, home, hbegun, hmarker⟩ := h.todo _ htodo
      split at hs
      · exact hended (Option.some.inj hs)
      · rename_i fs ops hperform
        cases hs
        obtain ⟨hnext, hlast⟩ := hbegun.go (hmarker (List.cons_ne_nil op rest)) hperform
        refine ⟨hstarts, hnext.found.trans hnext.kept, fun _ hne => ⟨fs₁, resource, home, hlast hne ▸ hnext⟩,
          fun ops' hops' => ?_⟩
        cases hops'
        exact ⟨fs₁, resource, home, hnext, fun hne => by
          by_contra hthere
          exact hne (hlast hthere)⟩
  | breakOff => exact hended (Option.some.inj hs)

/-- **The marker**, after any number of starts that may each be broken off anywhere: what was there before is as it was,
and where there was no marker, it is there only if one start, which nothing broke off and after which nothing was
written, found none of the files, made all the directories and copied every file in full. -/
theorem marker_complete (h : Runs (step serverPath) (Starts P) ⟨fs₀, none⟩ st) : fs₀.Extends st.fs ∧
    (fs₀.node (initializedPath serverPath) = none → st.fs.node (initializedPath serverPath) ≠ none →
      ∃ fs₁ resource home, P resource home ∧ Runs (step serverPath) (Starts P) ⟨fs₀, none⟩ ⟨fs₁, none⟩ ∧
        Runs (step serverPath) Goes ⟨fs₁, some (setupOps serverPath resource home)⟩ ⟨st.fs, some []⟩ ∧
        fs₀.Extends fs₁ ∧ fs₁.Extends st.fs ∧
        (∀ r ∈ processed serverPath ++ unprocessed serverPath ++ users serverPath, fs₁.node r.2 = none) ∧
        (∀ d ∈ directories serverPath, st.fs.node d = some .directory) ∧
        (∀ r ∈ processed serverPath, ∃ text, process (resource r.1) home = .ok text ∧
          st.fs.node r.2 = some (.file text)) ∧
        ∀ r ∈ unprocessed serverPath ++ users serverPath, st.fs.node r.2 = some (.file (resource r.1))) := by
  have hstart : Kept serverPath P fs₀ ⟨fs₀, none⟩ :=
    ⟨.refl, .refl fs₀, fun hnone hne => absurd hnone hne, fun ops hops => by cases hops⟩
  have hkept := Runs.invariant (I := Kept serverPath P fs₀) hstart (fun st a st' hI ha hs => hI.step ha hs) h
  refine ⟨hkept.before, fun hnone hne => ?_⟩
  obtain ⟨fs₁, resource, home, hbegun⟩ := hkept.marker hnone hne
  have hprogress := hbegun.underway.finished
  refine ⟨fs₁, resource, home, hbegun.admitted, hbegun.starts, hbegun.goes, hbegun.found, hbegun.kept, fun r hr => ?_,
    fun d hd => hprogress.there _ (directory_mem hd), fun r hr => hprogress.there _ (processed_mem hr), fun r hr => ?_⟩
  · rw [List.append_assoc, List.mem_append] at hr
    rcases hr with hr | hr
    · exact hprogress.fresh _ (processed_mem hr) _ rfl
    · exact hprogress.fresh _ (copied_mem hr) _ rfl
  · obtain ⟨text, htext, hfile⟩ := hprogress.there _ (copied_mem hr)
    cases htext
    exact hfile

end Runs

/-- A first start, which writes the files one character at a time. -/
def firstStart : List ServerAction := .start (fun _ => "a") "/opt" :: List.replicate 44 (.go 0)

theorem marker_complete_first : ∃ st, Runs (step ["opt"]) (Starts fun resource _ => resource = fun _ => "a")
    ⟨.empty, none⟩ st ∧ st.fs.node (initializedPath ["opt"]) ≠ none ∧
      st.fs.node (logbackConf ["opt"]) = some (.file "a") := by
  have hadmitted : ∀ a ∈ firstStart, ∀ st, Starts (fun resource _ => resource = fun _ => "a") st a := by
    intro a ha st resource home heq
    subst heq
    simp only [firstStart, List.mem_cons, List.mem_replicate, reduceCtorEq, and_false, or_false,
      ServerAction.start.injEq] at ha
    exact ha.1
  have hplayed : (exec (step ["opt"]) ⟨.empty, none⟩ firstStart).map
      (fun st => st.fs.node (initializedPath ["opt"])) = some (some (.file "")) := rfl
  obtain ⟨st, hexec, hmarker⟩ := Option.map_eq_some_iff.mp hplayed
  have hrun := Runs.of_along firstStart (Along.of_forall firstStart _ hadmitted) hexec
  have hthere : st.fs.node (initializedPath ["opt"]) ≠ none := by rw [hmarker]; nofun
  obtain ⟨-, resource, -, hresource, -, -, -, -, -, -, -, hcopied⟩ := (marker_complete hrun).2 rfl hthere
  refine ⟨st, hrun, hthere, ?_⟩
  rw [hcopied ("/logback.xml", logbackConf ["opt"]) (by decide), hresource]

/-! ### What `initialise` does is such a run -/

/-- What a start has left after a part of it: the rest, or nothing after an exception. -/
def left (rest : List SetupOp) : Except Throwable Unit → Option (List SetupOp)
  | .ok _ => some rest
  | .error _ => none

/-- A part of `initialise` is a run through the accesses `ops`. -/
def Plays (serverPath : Path) (p : SetupM Unit) (ops : List SetupOp) : Prop :=
  ∀ fs rest, Reaches (step serverPath) ⟨fs, some (ops ++ rest)⟩ ⟨(p.run fs).state, left rest (p.run fs).result⟩

section Plays

variable {serverPath : Path} {p q : SetupM Unit} {ops ops' : List SetupOp} {ioError : FileOp → Option Throwable}

theorem reaches_brokenOff {st : ServerState} : Reaches (step serverPath) st { st with todo := none } :=
  .tail (a := .breakOff) .refl trivial rfl

theorem reaches_go {fs fs' : FileTree} {op : SetupOp} {rest : List SetupOp} (k : ℕ)
    (h : op.perform fs k = .ok (fs', ops)) :
    Reaches (step serverPath) ⟨fs, some (op :: rest)⟩ ⟨fs', some (ops ++ rest)⟩ := by
  refine .tail (a := .go k) .refl trivial ?_
  simp only [ServerSetup.step, h]

theorem Plays.seq (hp : Plays serverPath p ops) (hq : Plays serverPath q ops') :
    Plays serverPath (p >>= fun _ => q) (ops ++ ops') := by
  intro fs rest
  have hfirst := hp fs (ops' ++ rest)
  rw [List.append_assoc, Prog.run_bind]
  match hr : p.run fs with
  | ⟨.ok (), fs', es⟩ =>
    rw [hr] at hfirst
    exact hfirst.trans (hq fs' rest)
  | ⟨.error e, fs', es⟩ =>
    rw [hr] at hfirst
    exact hfirst

theorem Plays.each {β : Type} {f : β → SetupM Unit} {ops : β → List SetupOp} (h : ∀ b, Plays serverPath (f b) (ops b)) :
    ∀ l : List β, Plays serverPath (Prog.each f l) (l.flatMap ops)
  | [] => fun _ _ => .refl
  | b :: l => (h b).seq (Plays.each h l)

theorem reaches_foldlM {target : Path} (rest : List SetupOp) : ∀ (l : List Path) {fs fs' : FileTree},
    l.foldlM (FileTree.createDirectory target) fs = .ok fs' →
      Reaches (step serverPath) ⟨fs, some (l.map (.createDirectory target) ++ rest)⟩ ⟨fs', some rest⟩
  | [], fs, fs', h => by
    cases h
    exact .refl
  | q :: l, fs, fs', h => by
    rw [List.foldlM_cons] at h
    obtain ⟨fs₁, hfirst, hrest⟩ := of_bind_eq_ok h
    have hgo : (SetupOp.createDirectory target q).perform fs 0 = .ok (fs₁, []) := by
      rw [SetupOp.perform, hfirst]
      rfl
    exact (reaches_go 0 hgo).trans (reaches_foldlM rest l hrest)

theorem reaches_written {fs : FileTree} (target : Path) (written : List Char) (rest : List SetupOp) :
    Reaches (step serverPath) ⟨fs, some (.write target written [] :: rest)⟩ ⟨fs, some rest⟩ := by
  have hgo : (SetupOp.write target written []).perform fs 0 = .ok (fs, []) := rfl
  exact reaches_go 0 hgo

/-- A file is copied in one piece. -/
theorem reaches_copy {fs fs' : FileTree} {target : Path} {content : String} (rest : List SetupOp)
    (h : fs.create target (.file content) = .ok fs') :
    Reaches (step serverPath) ⟨fs, some (.copy (.ok content) target :: rest)⟩ ⟨fs', some rest⟩ := by
  obtain ⟨hfree, hparent, hnode⟩ := FileTree.create_eq_ok_iff.mp h
  obtain ⟨fs₁, hcreate⟩ := FileTree.exists_create (.file "") hfree hparent
  obtain ⟨-, -, hempty⟩ := FileTree.create_eq_ok_iff.mp hcreate
  have hopened : (SetupOp.copy (.ok content) target).perform fs 0 = .ok (fs₁, [.write target [] content.toList]) := by
    show (fs.create target (.file "") >>= fun fs => _) = _
    rw [hcreate]
    rfl
  refine (reaches_go 0 hopened).trans ?_
  cases htext : content.toList with
  | nil =>
    have hcontent : content = "" := by
      have hback : String.ofList content.toList = content := String.ofList_toList
      rw [← hback, htext]
    have hsame : fs₁ = fs' := FileTree.ext (by rw [hempty, hnode, hcontent])
    subst hsame
    exact reaches_written target [] rest
  | cons c cs =>
    have hall : (c :: cs).take (cs.length + 1) = c :: cs := List.take_of_length_le (by simp)
    have hnone : (c :: cs).drop (cs.length + 1) = [] := List.drop_of_length_le (by simp)
    have hsame : fs₁.overwrite target (.ofList (c :: cs)) = fs' := by
      refine FileTree.ext (funext fun q => ?_)
      by_cases hq : q = target
      · subst hq
        have hopen : fs₁.node q = some (.file "") := by rw [hempty, Function.update_self]
        rw [FileTree.overwrite_self hopen, hnode, Function.update_self, ← htext, String.ofList_toList]
      · rw [FileTree.overwrite_of_ne hq, hempty, hnode, Function.update_of_ne hq, Function.update_of_ne hq]
    have hwritten : (SetupOp.write target [] (c :: cs)).perform fs₁ cs.length =
        .ok (fs', [.write target (c :: cs) []]) := by
      show Except.ok (fs₁.overwrite target (.ofList ([] ++ (c :: cs).take (cs.length + 1))),
        [SetupOp.write target ([] ++ (c :: cs).take (cs.length + 1)) ((c :: cs).drop (cs.length + 1))]) = _
      rw [hall, hnone, List.nil_append, hsame]
    exact (reaches_go cs.length hwritten).trans (reaches_written target (c :: cs) rest)

theorem plays_perform {op : FileOp} (h : ∀ fs fs' rest, op.apply fs = .ok fs' →
      Reaches (step serverPath) ⟨fs, some (ops ++ rest)⟩ ⟨fs', some rest⟩) :
    Plays serverPath (perform ioError op) ops := by
  intro fs rest
  rw [perform, Prog.run_read_bind]
  cases ioError op with
  | some e => exact reaches_brokenOff
  | none =>
    cases happly : op.apply fs with
    | ok fs' => exact h fs fs' rest happly
    | error e => exact reaches_brokenOff

theorem plays_createDirectories (p : Path) :
    Plays serverPath (perform ioError (.createDirectories p)) (p.inits.map (.createDirectory p)) :=
  plays_perform fun _ _ rest h => reaches_foldlM rest _ h

theorem plays_copy (stream : Except Throwable String) (target : Path) :
    Plays serverPath (copy ioError stream target) [.copy stream target] := by
  cases stream with
  | error e => exact fun fs rest => reaches_brokenOff
  | ok content => exact plays_perform fun fs fs' rest h => reaches_copy rest h

theorem plays_createFile (p : Path) : Plays serverPath (perform ioError (.createFile p)) [.createFile p] :=
  plays_perform fun fs fs' rest h => by
    have hcreate : fs.create p (.file "") = .ok fs' := h
    have hgo : (SetupOp.createFile p).perform fs 0 = .ok (fs', []) := by
      rw [SetupOp.perform, hcreate]
      rfl
    exact reaches_go 0 hgo

theorem plays_directories (ds : List Path) : Plays serverPath
    (Prog.each (fun d => perform ioError (.createDirectories d)) ds)
    (ds.flatMap fun p => p.inits.map (.createDirectory p)) := Plays.each plays_createDirectories ds

theorem plays_copies (stream : String × Path → Except Throwable String) (l : List (String × Path)) : Plays serverPath
    (Prog.each (fun r => copy ioError (stream r) r.2) l) (l.map fun r => .copy (stream r) r.2) := by
  rw [List.map_eq_flatMap]
  exact Plays.each (fun r => plays_copy (stream r) r.2) l

theorem plays_setUp (resource : String → String) (home : String) :
    Plays serverPath (setUp ioError resource home serverPath) (setupOps serverPath resource home) := by
  rw [setupOps, preparations, List.map_append, List.append_assoc, List.append_assoc, List.append_assoc]
  exact (plays_directories _).seq ((plays_copies _ _).seq ((plays_copies _ _).seq
    ((plays_copies _ _).seq (plays_createFile _))))

/-- **Whatever `initialise` does**, with I/O errors or without, is a run of one start. -/
theorem initialise_reaches (ioError : FileOp → Option Throwable) (resource : String → String) (home : String)
    (fs : FileTree) : Reaches (step serverPath) ⟨fs, none⟩
      ⟨((initialise ioError resource home serverPath).run fs).state, none⟩ := by
  rw [initialise, Prog.run_read_bind]
  split
  · exact .refl
  · rename_i hmarker
    have hstart : step serverPath ⟨fs, none⟩ (.start resource home) =
        some ⟨fs, some (setupOps serverPath resource home)⟩ := by
      rw [ServerSetup.step, if_neg hmarker]
    have hplays : Plays serverPath (setUp ioError resource home serverPath) (setupOps serverPath resource home) :=
      plays_setUp resource home
    have hplays := hplays fs []
    rw [List.append_nil] at hplays
    exact (Runs.head trivial hstart hplays).trans reaches_brokenOff

end Plays

end Dynamy.Kernel
