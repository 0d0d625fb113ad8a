import Dynamy.JavaFiles
import Dynamy.Kernel.Process
import Dynamy.Lib.Prog
import Mathlib.Data.List.Nodup

/-!
# Dynamy.Kernel.ServerSetup — the files of a server

At its first start a server gets its directories, its configuration files and, last, a marker that keeps later starts from
doing all this again.  The directories may be there already, but a configuration file may not: `Files.copy` raises if
its target exists.  So after a first start that was broken off once a file had been copied no later one comes to its end
(`completes_iff`).
-/

namespace Dynamy.Kernel

open Dynamy.Java Dynamy.Lib

/-- The calls that change the file system. -/
inductive FileOp
  | createDirectories (p : Path)
  | copy (content : String) (target : Path)
  | createFile (p : Path)
  deriving DecidableEq, Repr

def FileOp.apply (fs : FileTree) : FileOp → Except Throwable FileTree
  | .createDirectories p => fs.createDirectories p
  | .copy content target => fs.create target (.file content)
  | .createFile p => fs.create p (.file "")

abbrev SetupM : Type → Type := Prog Empty FileTree Throwable

namespace ServerSetup

section Paths

variable (serverPath : Path)

def confPath : Path := serverPath ++ ["conf"]
def logsPath : Path := serverPath ++ ["logs"]
def storagePath : Path := serverPath ++ ["storage"]
def usersPath : Path := serverPath ++ ["storage", "users"]
def jndiPath : Path := serverPath ++ ["jndi"]
def kernelProperties : Path := serverPath ++ ["conf", "kernel.properties"]
def serverYaml : Path := serverPath ++ ["conf", "server.yaml"]
def memcachedProperties : Path := serverPath ++ ["conf", "memcached.json"]
def shiroIni : Path := serverPath ++ ["conf", "shiro.ini"]
def atomikosProperties : Path := serverPath ++ ["conf", "atomikos.properties"]
def jetty : Path := serverPath ++ ["conf", "jetty.xml"]
def logbackConf : Path := serverPath ++ ["conf", "logback.xml"]
def logbackAccessConf : Path := serverPath ++ ["conf", "logback-access.xml"]
def initializedPath : Path := serverPath ++ [".initialized"]

def users : List (String × Path) := [("/users/db.h2.db", serverPath ++ ["storage", "users", "db.h2.db"])]

def directories : List Path :=
  [confPath serverPath, logsPath serverPath, storagePath serverPath, usersPath serverPath, jndiPath serverPath]

/-- The resources that are processed on their way. -/
def processed : List (String × Path) :=
  [("/kernel.properties", kernelProperties serverPath), ("/atomikos.properties", atomikosProperties serverPath),
    ("/shiro.ini", shiroIni serverPath), ("/jetty.xml", jetty serverPath), ("/server.yaml", serverYaml serverPath)]

/-- Those that are copied as they are. -/
def unprocessed : List (String × Path) :=
  [("/logback.xml", logbackConf serverPath), ("/logback-access.xml", logbackAccessConf serverPath),
    ("/memcached.json", memcachedProperties serverPath)]

end Paths

section Initialize

/- What raises an `IOException`; the texts of the resources; the property `prog.home`. -/
variable (ioError : FileOp → Option Throwable) (resource : String → String) (home : String)

def perform (op : FileOp) : SetupM Unit := do
  let fs ← Prog.read
  match ioError op with
  | some e => Prog.raise e
  | none =>
    match op.apply fs with
    | .ok fs' => Prog.update fun _ => fs'
    | .error e => Prog.raise e

/-- `Files.copy(stream, target)`, where the stream may not come about. -/
def copy (stream : Except Throwable String) (target : Path) : SetupM Unit := do
  let content ← Prog.ofExcept stream
  perform ioError (.copy content target)

def isInitialized (serverPath : Path) (fs : FileTree) : Bool := (fs.node (initializedPath serverPath)).isSome

def setUp (serverPath : Path) : SetupM Unit := do
  Prog.each (fun d => perform ioError (.createDirectories d)) (directories serverPath)
  Prog.each (fun r => copy ioError (process (resource r.1) home) r.2) (processed serverPath)
  Prog.each (fun r => copy ioError (.ok (resource r.1)) r.2) (unprocessed serverPath)
  Prog.each (fun r => copy ioError (.ok (resource r.1)) r.2) (users serverPath)
  perform ioError (.createFile (initializedPath serverPath))

/-- `initialize`, which is a word of Lean's. -/
def initialise (serverPath : Path) : SetupM Unit := do
  let fs ← Prog.read
  if isInitialized serverPath fs then return
  else setUp ioError resource home serverPath

end Initialize

end ServerSetup

open ServerSetup

/-! ### What a start should do -/

/-- Everything that a server needs is there. -/
structure Complete (serverPath : Path) (fs : FileTree) : Prop where
  directory : ∀ d ∈ directories serverPath, fs.node d = some .directory
  file : ∀ r ∈ processed serverPath ++ unprocessed serverPath ++ users serverPath,
    ∃ content, fs.node r.2 = some (.file content)
  marker : ∃ content, fs.node (initializedPath serverPath) = some (.file content)

section Claim

variable (resource : String → String) (home : String) (serverPath : Path) (fs : FileTree)

/-- How a start ends in which no I/O error occurs. -/
def started : Outcome Empty FileTree Throwable Unit := (initialise (fun _ => none) resource home serverPath).run fs

def Completes : Prop :=
  (started resource home serverPath fs).result = .ok () ∧ Complete serverPath (started resource home serverPath fs).state

/-- None of the files is there, no file is in the way of a directory, and the home can be put into the templates. -/
structure Ready : Prop where
  clear : ∀ d ∈ directories serverPath, fs.Clear d
  free : ∀ r ∈ processed serverPath ++ unprocessed serverPath ++ users serverPath, fs.node r.2 = none
  text : ∀ r ∈ processed serverPath, ∃ text, process (resource r.1) home = .ok text

end Claim

/-! ### The loops, where no I/O error occurs -/

section Loops

variable {fs fs' : FileTree} {p : Path}

theorem ends_perform_iff {op : FileOp} :
    Prog.Ends (perform (fun _ => none) op) fs () fs' ↔ op.apply fs = .ok fs' := by
  rw [Prog.Ends, perform, Prog.run_read_bind]
  dsimp only
  cases op.apply fs with
  | ok fs₁ =>
    rw [Except.ok.injEq]
    exact and_iff_right rfl
  | error e =>
    constructor
    · rintro ⟨h, -⟩
      cases h
    · intro h
      cases h

theorem ends_copy_iff {stream : Except Throwable String} :
    Prog.Ends (copy (fun _ => none) stream p) fs () fs' ↔
      ∃ content, stream = .ok content ∧ fs.create p (.file content) = .ok fs' := by
  rw [copy, Prog.ends_bind_iff]
  constructor
  · rintro ⟨content, fs₁, hstream, hperform⟩
    obtain ⟨hcontent, rfl⟩ := Prog.ends_ofExcept_iff.mp hstream
    exact ⟨content, hcontent, ends_perform_iff.mp hperform⟩
  · rintro ⟨content, hcontent, hcreate⟩
    exact ⟨content, fs, Prog.ends_ofExcept_iff.mpr ⟨hcontent, rfl⟩, ends_perform_iff.mpr hcreate⟩

/-- The loop over the directories. -/
theorem of_ends_directories {ds : List Path}
    (h : Prog.Ends (Prog.each (fun d => perform (fun _ => none) (.createDirectories d)) ds) fs () fs') :
    (∀ d ∈ ds, fs.Clear d ∧ fs'.node d = some .directory) ∧ fs.Extends fs' := by
  induction ds generalizing fs with
  | nil =>
    obtain rfl := Prog.ends_each_nil_iff.mp h
    exact ⟨fun d hd => absurd hd List.not_mem_nil, FileTree.Extends.refl fs⟩
  | cons d ds ih =>
    obtain ⟨fs₁, hfirst, hrest⟩ := Prog.ends_each_cons_iff.mp h
    obtain ⟨hclear, hwith⟩ := FileTree.createDirectories_ok (ends_perform_iff.mp hfirst)
    obtain ⟨hds, hextends⟩ := ih hrest
    have hfirst' := hwith.extends hclear
    have hd : fs₁.node d = some .directory := by
      rw [hwith, if_pos List.prefix_rfl]
    refine ⟨List.forall_mem_cons.mpr ⟨⟨hclear, hextends d _ hd⟩, fun d' hd' => ?_⟩, hfirst'.trans hextends⟩
    exact ⟨hfirst'.clear (hds d' hd').1, (hds d' hd').2⟩

theorem exists_ends_directories {ds : List Path} (h : ∀ d ∈ ds, fs.Clear d) :
    ∃ fs', Prog.Ends (Prog.each (fun d => perform (fun _ => none) (.createDirectories d)) ds) fs () fs' ∧
      (∀ d ∈ ds, ∀ q, q <+: d → fs'.node q = some .directory) ∧
      ∀ q, (∀ d ∈ ds, ¬ q <+: d) → fs'.node q = fs.node q := by
  induction ds generalizing fs with
  | nil => exact ⟨fs, Prog.ends_each_nil_iff.mpr rfl, fun d hd => absurd hd List.not_mem_nil, fun q _ => rfl⟩
  | cons d ds ih =>
    obtain ⟨hd, hds⟩ := List.forall_mem_cons.mp h
    obtain ⟨fs₁, hfs₁, hwith⟩ := FileTree.exists_createDirectories hd
    have hclear : ∀ d' ∈ ds, fs₁.Clear d' := by
      intro d' hd' q hq content hfile
      rw [hwith q] at hfile
      split at hfile
      · cases hfile
      · exact hds d' hd' q hq content hfile
    obtain ⟨fs₂, hfs₂, hdirectories, hsame⟩ := ih hclear
    refine ⟨fs₂, Prog.ends_each_cons_iff.mpr ⟨fs₁, ends_perform_iff.mpr hfs₁, hfs₂⟩, ?_, fun q hq => ?_⟩
    · refine List.forall_mem_cons.mpr ⟨fun q hq => ?_, hdirectories⟩
      have hq₁ : fs₁.node q = some .directory := by
        rw [hwith, if_pos hq]
      exact (of_ends_directories hfs₂).2 q _ hq₁
    · obtain ⟨hqd, hqds⟩ := List.forall_mem_cons.mp hq
      rw [hsame q hqds, hwith, if_neg hqd]

/-- A loop that copies. -/
theorem of_ends_copies {l : List (Except Throwable String × Path)}
    (h : Prog.Ends (Prog.each (fun r => copy (fun _ => none) r.1 r.2) l) fs () fs') :
    (∀ r ∈ l, (∃ content, r.1 = .ok content) ∧ fs.node r.2 = none ∧
      ∃ content, fs'.node r.2 = some (.file content)) ∧ fs.Extends fs' := by
  induction l generalizing fs with
  | nil =>
    obtain rfl := Prog.ends_each_nil_iff.mp h
    exact ⟨fun d hd => absurd hd List.not_mem_nil, FileTree.Extends.refl fs⟩
  | cons r l ih =>
    obtain ⟨fs₁, hfirst, hrest⟩ := Prog.ends_each_cons_iff.mp h
    obtain ⟨content, hcontent, hcreate⟩ := ends_copy_iff.mp hfirst
    obtain ⟨hfree, -, hnode⟩ := FileTree.create_eq_ok_iff.mp hcreate
    obtain ⟨hl, hextends⟩ := ih hrest
    have hfirst' := FileTree.extends_update hfree hnode
    have hr : fs₁.node r.2 = some (.file content) := by
      rw [hnode, Function.update_self]
    refine ⟨List.forall_mem_cons.mpr ⟨⟨⟨content, hcontent⟩, hfree, content, hextends _ _ hr⟩, fun r' hr' => ?_⟩,
      hfirst'.trans hextends⟩
    obtain ⟨hcontent', hfree', hfile⟩ := hl r' hr'
    exact ⟨hcontent', hfirst'.node_eq_none hfree', hfile⟩

theorem exists_ends_copies {l : List (Except Throwable String × Path)} (hnodup : (l.map Prod.snd).Nodup)
    (hcontent : ∀ r ∈ l, ∃ content, r.1 = .ok content) (hfree : ∀ r ∈ l, fs.node r.2 = none)
    (hparent : ∀ r ∈ l, fs.node r.2.dropLast = some .directory) :
    ∃ fs', Prog.Ends (Prog.each (fun r => copy (fun _ => none) r.1 r.2) l) fs () fs' := by
  induction l generalizing fs with
  | nil => exact ⟨fs, Prog.ends_each_nil_iff.mpr rfl⟩
  | cons r l ih =>
    obtain ⟨hr, hl⟩ := List.forall_mem_cons.mp hcontent
    obtain ⟨hrfree, hlfree⟩ := List.forall_mem_cons.mp hfree
    obtain ⟨hrparent, hlparent⟩ := List.forall_mem_cons.mp hparent
    rw [List.map_cons, List.nodup_cons] at hnodup
    obtain ⟨content, hr⟩ := hr
    obtain ⟨fs₁, hcreate⟩ := FileTree.exists_create (.file content) hrfree hrparent
    obtain ⟨-, -, hnode⟩ := FileTree.create_eq_ok_iff.mp hcreate
    have hother : ∀ r' ∈ l, fs₁.node r'.2 = none := by
      intro r' hr'
      have hne : r'.2 ≠ r.2 := fun h => hnodup.1 (h ▸ List.mem_map_of_mem hr')
      rw [hnode, Function.update_of_ne hne, hlfree r' hr']
    obtain ⟨fs₂, hfs₂⟩ := ih hnodup.2 hl hother fun r' hr' =>
      FileTree.extends_update hrfree hnode _ _ (hlparent r' hr')
    exact ⟨fs₂, Prog.ends_each_cons_iff.mpr ⟨fs₁, ends_copy_iff.mpr ⟨content, hr, hcreate⟩, hfs₂⟩⟩

end Loops

/-! ### The whole -/

section Whole

variable {resource : String → String} {home : String} {serverPath : Path} {fs fs' : FileTree}

/-- All files in the order in which they come about, with the streams they come from. -/
def copies (resource : String → String) (home : String) (serverPath : Path) : List (Except Throwable String × Path) :=
  (processed serverPath).map (fun r => (process (resource r.1) home, r.2)) ++
    ((unprocessed serverPath).map (fun r => (.ok (resource r.1), r.2)) ++
      ((users serverPath).map (fun r => (.ok (resource r.1), r.2)) ++ [(.ok "", initializedPath serverPath)]))

theorem ends_setUp_iff : Prog.Ends (setUp (fun _ => none) resource home serverPath) fs () fs' ↔
    ∃ fs₁,
      Prog.Ends (Prog.each (fun d => perform (fun _ => none) (.createDirectories d)) (directories serverPath)) fs () fs₁ ∧
      Prog.Ends (Prog.each (fun r => copy (fun _ => none) r.1 r.2) (copies resource home serverPath)) fs₁ () fs' := by
  rw [setUp, Prog.ends_then_iff]
  refine exists_congr fun fs₁ => and_congr_right fun _ => ?_
  rw [copies, Prog.ends_then_iff, Prog.ends_each_append_iff, Prog.each_map]
  refine exists_congr fun fs₂ => and_congr_right fun _ => ?_
  rw [Prog.ends_then_iff, Prog.ends_each_append_iff, Prog.each_map]
  refine exists_congr fun fs₃ => and_congr_right fun _ => ?_
  rw [Prog.ends_then_iff, Prog.ends_each_append_iff, Prog.each_map]
  refine exists_congr fun fs₄ => and_congr_right fun _ => ?_
  rw [Prog.ends_each_cons_iff]
  constructor
  · exact fun h => ⟨fs', ends_copy_iff.mpr ⟨"", rfl, ends_perform_iff.mp h⟩, Prog.ends_each_nil_iff.mpr rfl⟩
  · rintro ⟨fs₅, hcopy, hnil⟩
    obtain rfl := Prog.ends_each_nil_iff.mp hnil
    obtain ⟨content, hcontent, hcreate⟩ := ends_copy_iff.mp hcopy
    cases hcontent
    exact ends_perform_iff.mpr hcreate

theorem forall_copies_path (P : Path → Prop) : (∀ r ∈ copies resource home serverPath, P r.2) ↔
    (∀ r ∈ processed serverPath ++ unprocessed serverPath ++ users serverPath, P r.2) ∧
      P (initializedPath serverPath) := by
  have hpaths : (copies resource home serverPath).map Prod.snd =
      (processed serverPath ++ unprocessed serverPath ++ users serverPath).map Prod.snd ++
        [initializedPath serverPath] := rfl
  rw [← List.forall_mem_map (f := Prod.snd) (P := P), hpaths, List.forall_mem_append, List.forall_mem_map,
    List.forall_mem_singleton]

theorem forall_copies_content : (∀ r ∈ copies resource home serverPath, ∃ content, r.1 = .ok content) ↔
    ∀ r ∈ processed serverPath, ∃ text, process (resource r.1) home = .ok text := by
  rw [copies, List.forall_mem_append, List.forall_mem_map]
  refine and_iff_left ?_
  rw [List.forall_mem_append, List.forall_mem_append, List.forall_mem_map, List.forall_mem_map,
    List.forall_mem_singleton]
  exact ⟨fun r _ => ⟨_, rfl⟩, fun r _ => ⟨_, rfl⟩, _, rfl⟩

/-- The paths of the files, seen from the server's. -/
def relativeFiles : List Path :=
  [["conf", "kernel.properties"], ["conf", "atomikos.properties"], ["conf", "shiro.ini"], ["conf", "jetty.xml"],
    ["conf", "server.yaml"], ["conf", "logback.xml"], ["conf", "logback-access.xml"], ["conf", "memcached.json"],
    ["storage", "users", "db.h2.db"], [".initialized"]]

def relativeDirectories : List Path := [["conf"], ["logs"], ["storage"], ["storage", "users"], ["jndi"]]

theorem copies_paths : (copies resource home serverPath).map Prod.snd = relativeFiles.map (serverPath ++ ·) := rfl

theorem directories_eq : directories serverPath = relativeDirectories.map (serverPath ++ ·) := rfl

theorem nodup_copies : ((copies resource home serverPath).map Prod.snd).Nodup := by
  have hrelative : relativeFiles.Nodup := by decide
  rw [copies_paths]
  exact List.Nodup.map (fun _ _ h => List.append_cancel_left h) hrelative

/-- No file is on the way to a directory, and each file belongs into one. -/
theorem copies_directories : ∀ r ∈ copies resource home serverPath,
    (∀ d ∈ directories serverPath, ¬ r.2 <+: d) ∧ ∃ d ∈ directories serverPath, r.2.dropLast <+: d := by
  have hrelative : ∀ p ∈ relativeFiles, p ≠ [] ∧ (∀ d ∈ relativeDirectories, ¬ p <+: d) ∧
      ∃ d ∈ relativeDirectories, p.dropLast <+: d := by decide
  intro r hr
  have hpath : r.2 ∈ relativeFiles.map (serverPath ++ ·) := copies_paths ▸ List.mem_map_of_mem hr
  obtain ⟨p, hp, hrp⟩ := List.mem_map.mp hpath
  obtain ⟨hne, hnot, d, hd, hdrop⟩ := hrelative p hp
  rw [← hrp, directories_eq]
  refine ⟨fun d' hd' hbegins => ?_, serverPath ++ d, List.mem_map_of_mem hd, ?_⟩
  · obtain ⟨e, he, rfl⟩ := List.mem_map.mp hd'
    exact hnot e he ((List.prefix_append_right_inj serverPath).mp hbegins)
  · rw [List.dropLast_append_of_ne_nil hne]
    exact (List.prefix_append_right_inj serverPath).mpr hdrop

theorem started_of_absent (h : fs.node (initializedPath serverPath) = none) :
    started resource home serverPath fs = (setUp (fun _ => none) resource home serverPath).run fs := by
  rw [started, initialise, Prog.run_read_bind, isInitialized, h]
  rfl

/-- **What a start needs.** -/
theorem ready_of_completes (h : fs.node (initializedPath serverPath) = none)
    (hcompletes : Completes resource home serverPath fs) : Ready resource home serverPath fs := by
  obtain ⟨hresult, -⟩ := hcompletes
  rw [started_of_absent h] at hresult
  obtain ⟨fs₁, hdirectories, hcopies⟩ := ends_setUp_iff.mp ⟨hresult, rfl⟩
  obtain ⟨hclear, hextends⟩ := of_ends_directories hdirectories
  obtain ⟨hall, -⟩ := of_ends_copies hcopies
  have hfree : ∀ r ∈ copies resource home serverPath, fs.node r.2 = none :=
    fun r hr => hextends.node_eq_none (hall r hr).2.1
  exact
    { clear := fun d hd => (hclear d hd).1
      free := ((forall_copies_path fun p => fs.node p = none).mp hfree).1
      text := forall_copies_content.mp fun r hr => (hall r hr).1 }

/-- **What a start leaves.** -/
theorem completes_of_ready (h : fs.node (initializedPath serverPath) = none)
    (hready : Ready resource home serverPath fs) : Completes resource home serverPath fs := by
  obtain ⟨fs₁, hdirectories, habove, hsame⟩ := exists_ends_directories hready.clear
  have hfree : ∀ r ∈ copies resource home serverPath, fs₁.node r.2 = none := by
    intro r hr
    rw [hsame r.2 (copies_directories r hr).1]
    exact (forall_copies_path fun p => fs.node p = none).mpr ⟨hready.free, h⟩ r hr
  have hparent : ∀ r ∈ copies resource home serverPath, fs₁.node r.2.dropLast = some .directory := by
    intro r hr
    obtain ⟨d, hd, hbegins⟩ := (copies_directories r hr).2
    exact habove d hd _ hbegins
  obtain ⟨fs₂, hcopies⟩ := exists_ends_copies nodup_copies (forall_copies_content.mpr hready.text) hfree hparent
  obtain ⟨hresult, hstate⟩ := ends_setUp_iff.mpr ⟨fs₁, hdirectories, hcopies⟩
  obtain ⟨hall, hextends⟩ := of_ends_copies hcopies
  obtain ⟨hfile, hmarker⟩ := (forall_copies_path fun p => ∃ content, fs₂.node p = some (.file content)).mp
    fun r hr => (hall r hr).2.2
  rw [Completes, started_of_absent h]
  refine ⟨hresult, ?_⟩
  rw [hstate]
  exact
    { directory := fun d hd => hextends d _ (habove d hd d List.prefix_rfl)
      file := hfile
      marker := hmarker }

end Whole

/-- **Starts, exactly.**  While the marker is absent, a start in which no I/O error occurs comes to its end, with
everything in its place and the marker, if and only if none of the files is there, no file is in the way of a directory
and the home can be put into the templates.  Once the marker is there, a call changes nothing. -/
theorem completes_iff (resource : String → String) (home : String) (serverPath : Path) (fs : FileTree) :
    (fs.node (initializedPath serverPath) = none →
      (Completes resource home serverPath fs ↔ Ready resource home serverPath fs)) ∧
      (fs.node (initializedPath serverPath) ≠ none → ∀ ioError : FileOp → Option Throwable,
        (initialise ioError resource home serverPath).run fs = ⟨.ok (), fs, []⟩) := by
  refine ⟨fun h => ⟨ready_of_completes h, completes_of_ready h⟩, fun h ioError => ?_⟩
  have hinitialized : isInitialized serverPath fs = true := Option.isSome_iff_ne_none.mpr h
  rw [initialise, Prog.run_read_bind, if_pos hinitialized]
  rfl

/-- The first start of all. -/
theorem completes_iff_empty : Completes (fun _ => "") "/opt" ["opt"] FileTree.empty := by
  refine ((completes_iff _ _ _ _).1 rfl).mpr ⟨fun d _ q _ content h => ?_, by decide, fun r _ => ⟨"", by decide⟩⟩
  rw [FileTree.empty] at h
  dsimp only at h
  split at h
  · cases h
  · cases h

/-- At the first start the disk was full for the second file. -/
def brokenOff : FileTree :=
  ((initialise (fun op => if op = .copy "" ["opt", "conf", "atomikos.properties"] then some ⟨.fileSystem, none⟩
    else none) (fun _ => "") "/opt" ["opt"]).run FileTree.empty).state

/-- What it left keeps every later start from its end. -/
theorem not_completes : brokenOff.node (initializedPath ["opt"]) = none ∧
    ¬ Completes (fun _ => "") "/opt" ["opt"] brokenOff := by
  have hmarker : brokenOff.node (initializedPath ["opt"]) = none := by decide
  have hcopied : brokenOff.node (kernelProperties ["opt"]) = some (.file "") := by decide
  refine ⟨hmarker, fun h => ?_⟩
  have hfree := (ready_of_completes hmarker h).free ("/kernel.properties", kernelProperties ["opt"]) (.head _)
  rw [hcopied] at hfree
  cases hfree

end Dynamy.Kernel
