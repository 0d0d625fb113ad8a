import Dynamy.Java
import Mathlib.Data.List.Induction
import Mathlib.Data.List.Infix
import Mathlib.Logic.Function.Basic

/-!
# Dynamy.JavaFiles — what the modules use of `java.nio.file`

A path is the list of its names.  The state of a file system is a tree: the root is a directory, and so is the parent of
whatever there is.  Nothing that the program does takes a node away or changes one (`Extends`).
-/

namespace Dynamy.Java

abbrev Path := List String

inductive Node
  | directory
  | file (content : String)
  deriving DecidableEq, Repr

structure FileTree where
  node : Path → Option Node
  root : node [] = some .directory
  parent : ∀ p, node p ≠ none → node p.dropLast = some .directory

namespace FileTree

@[ext] theorem ext {fs fs' : FileTree} (h : fs.node = fs'.node) : fs = fs' := by
  cases fs
  cases fs'
  congr

/-- There is only the root. -/
def empty : FileTree where
  node p := if p = [] then some .directory else none
  root := rfl
  parent p h := by
    by_cases hp : p = []
    · rw [hp]
      rfl
    · exact absurd (if_neg hp) h

/-- A new node in a directory. -/
def insert (fs : FileTree) (p : Path) (n : Node) (hfree : fs.node p = none)
    (hparent : fs.node p.dropLast = some .directory) : FileTree where
  node := Function.update fs.node p (some n)
  root := by
    have hp : [] ≠ p := by
      rintro rfl
      rw [fs.root] at hfree
      cases hfree
    rw [Function.update_of_ne hp, fs.root]
  parent q hq := by
    have hdirectory : fs.node q.dropLast = some .directory := by
      by_cases hqp : q = p
      · rw [hqp, hparent]
      · rw [Function.update_of_ne hqp] at hq
        exact fs.parent q hq
    have hne : q.dropLast ≠ p := by
      intro h
      rw [h, hfree] at hdirectory
      cases hdirectory
    rw [Function.update_of_ne hne, hdirectory]

/-- `CREATE_NEW` -/
def create (fs : FileTree) (p : Path) (n : Node) : Except Throwable FileTree :=
  if hfree : fs.node p = none then
    if hparent : fs.node p.dropLast = some .directory then .ok (fs.insert p n hfree hparent)
    else .error ⟨if fs.node p.dropLast = none then .noSuchFile else .fileSystem, none⟩
  else .error ⟨.fileAlreadyExists, none⟩

/-- A directory on the way to `p`. -/
def createDirectory (p : Path) (fs : FileTree) (q : Path) : Except Throwable FileTree :=
  match fs.node q with
  | none => fs.create q .directory
  | some .directory => .ok fs
  | some (.file _) => .error ⟨if q = p then .fileAlreadyExists else .fileSystem, none⟩

/-- `Files.createDirectories(p)` -/
def createDirectories (fs : FileTree) (p : Path) : Except Throwable FileTree := p.inits.foldlM (createDirectory p) fs

/-! ### Creating a node -/

/-- What there is in `fs` there is in `fs'`. -/
def Extends (fs fs' : FileTree) : Prop := ∀ q n, fs.node q = some n → fs'.node q = some n

variable {fs fs' fs'' : FileTree} {p q : Path} {n : Node}

theorem Extends.refl (fs : FileTree) : fs.Extends fs := fun _ _ h => h

theorem Extends.trans (h : fs.Extends fs') (h' : fs'.Extends fs'') : fs.Extends fs'' := fun q n hn => h' q n (h q n hn)

theorem Extends.node_eq_none (h : fs.Extends fs') (hq : fs'.node q = none) : fs.node q = none := by
  by_contra hne
  obtain ⟨n, hn⟩ := Option.ne_none_iff_exists'.mp hne
  rw [h q n hn] at hq
  cases hq

/-- A node is created where there is none, in a directory. -/
theorem create_eq_ok_iff : fs.create p n = .ok fs' ↔
    fs.node p = none ∧ fs.node p.dropLast = some .directory ∧ fs'.node = Function.update fs.node p (some n) := by
  rw [create]
  constructor
  · intro h
    split at h
    · rename_i hfree
      split at h
      · rename_i hparent
        cases h
        exact ⟨hfree, hparent, rfl⟩
      · cases h
    · cases h
  · rintro ⟨hfree, hparent, hnode⟩
    rw [dif_pos hfree, dif_pos hparent, Except.ok.injEq]
    exact FileTree.ext hnode.symm

theorem exists_create (n : Node) (hfree : fs.node p = none) (hparent : fs.node p.dropLast = some .directory) :
    ∃ fs', fs.create p n = .ok fs' :=
  ⟨fs.insert p n hfree hparent, create_eq_ok_iff.mpr ⟨hfree, hparent, rfl⟩⟩

theorem extends_update (hfree : fs.node p = none) (h : fs'.node = Function.update fs.node p (some n)) :
    fs.Extends fs' := by
  intro q m hm
  have hne : q ≠ p := by
    rintro rfl
    rw [hfree] at hm
    cases hm
  rw [h, Function.update_of_ne hne, hm]

/-! ### Creating directories -/

/-- No file is in the way of a directory `p`. -/
def Clear (fs : FileTree) (p : Path) : Prop := ∀ q, q <+: p → ∀ content, fs.node q ≠ some (.file content)

theorem Extends.clear (h : fs.Extends fs') (hclear : fs'.Clear p) : fs.Clear p :=
  fun q hq content hfile => hclear q hq content (h q _ hfile)

/-- `fs'` is `fs` with `p` and all above it as directories. -/
def WithDirectory (fs : FileTree) (p : Path) (fs' : FileTree) : Prop :=
  ∀ q, fs'.node q = if q <+: p then some .directory else fs.node q

theorem inits_concat (p : Path) (name : String) : (p ++ [name]).inits = p.inits ++ [p ++ [name]] := by
  simp [List.inits_append]

theorem WithDirectory.node_concat (h : fs.WithDirectory p fs') (name : String) :
    fs'.node (p ++ [name]) = fs.node (p ++ [name]) := by
  have hlonger : ¬ p ++ [name] <+: p := by
    intro hbegins
    have hlength := hbegins.length_le
    rw [List.length_append, List.length_singleton] at hlength
    omega
  rw [h, if_neg hlonger]

/-- One directory, whose parent is there. -/
theorem exists_createDirectory (target : Path) (hclear : ∀ content, fs.node p ≠ some (.file content))
    (hparent : fs.node p.dropLast = some .directory) :
    ∃ fs', createDirectory target fs p = .ok fs' ∧ fs'.node = Function.update fs.node p (some .directory) := by
  rw [createDirectory]
  cases hp : fs.node p with
  | none =>
    obtain ⟨fs', hfs'⟩ := exists_create .directory hp hparent
    exact ⟨fs', hfs', (create_eq_ok_iff.mp hfs').2.2⟩
  | some n =>
    cases n with
    | directory => exact ⟨fs, rfl, by rw [← hp, Function.update_eq_self]⟩
    | file content => exact absurd hp (hclear content)

theorem exists_foldlM (target : Path) (h : fs.Clear p) :
    ∃ fs', p.inits.foldlM (createDirectory target) fs = .ok fs' ∧ fs.WithDirectory p fs' := by
  induction p using List.reverseRecOn with
  | nil =>
    have hroot : createDirectory target fs [] = .ok fs := by
      rw [createDirectory, fs.root]
    refine ⟨fs, ?_, fun q => ?_⟩
    · rw [List.inits, List.foldlM_cons, hroot]
      rfl
    · split
      · rename_i hq
        rw [List.prefix_nil.mp hq, fs.root]
      · rfl
  | append_singleton p name ih =>
    obtain ⟨fs₁, hfs₁, hwith⟩ := ih fun q hq => h q (hq.trans (List.prefix_append _ _))
    have hsame := hwith.node_concat name
    have hparent : fs₁.node (p ++ [name]).dropLast = some .directory := by
      rw [List.dropLast_concat, hwith, if_pos List.prefix_rfl]
    obtain ⟨fs₂, hfs₂, hnode⟩ := exists_createDirectory (p := p ++ [name]) target
      (fun content => by rw [hsame]; exact h _ List.prefix_rfl content) hparent
    refine ⟨fs₂, ?_, fun q => ?_⟩
    · rw [inits_concat, List.foldlM_append, hfs₁]
      exact (bind_pure (m := Except Throwable) _).trans hfs₂
    · rw [hnode]
      by_cases hq : q = p ++ [name]
      · rw [hq, Function.update_self, if_pos List.prefix_rfl]
      · rw [Function.update_of_ne hq, hwith]
        simp only [List.prefix_concat_iff, hq, false_or]

theorem clear_of_foldlM {target : Path} (h : p.inits.foldlM (createDirectory target) fs = .ok fs') : fs.Clear p := by
  induction p using List.reverseRecOn generalizing fs' with
  | nil =>
    intro q hq content
    rw [List.prefix_nil.mp hq, fs.root]
    rintro ⟨⟩
  | append_singleton p name ih =>
    rw [inits_concat, List.foldlM_append] at h
    obtain ⟨fs₁, hfs₁, hlast⟩ := of_bind_eq_ok h
    have hclear := ih hfs₁
    intro q hq content hfile
    rcases List.prefix_concat_iff.mp hq with rfl | hq
    · obtain ⟨fs₂, hfs₂, hwith⟩ := exists_foldlM target hclear
      rw [hfs₁, Except.ok.injEq] at hfs₂
      subst hfs₂
      have herror : createDirectory target fs₁ (p ++ [name]) =
          .error ⟨if p ++ [name] = target then .fileAlreadyExists else .fileSystem, none⟩ := by
        rw [createDirectory, hwith.node_concat, hfile]
      rw [List.foldlM_cons, herror] at hlast
      cases hlast
    · exact hclear q hq content hfile

/-- `createDirectories` succeeds exactly if no file is in the way. -/
theorem exists_createDirectories (h : fs.Clear p) :
    ∃ fs', fs.createDirectories p = .ok fs' ∧ fs.WithDirectory p fs' := exists_foldlM p h

theorem createDirectories_ok (h : fs.createDirectories p = .ok fs') : fs.Clear p ∧ fs.WithDirectory p fs' := by
  have hclear := clear_of_foldlM h
  obtain ⟨fs₁, hfs₁, hwith⟩ := exists_createDirectories hclear
  rw [h, Except.ok.injEq] at hfs₁
  exact ⟨hclear, hfs₁ ▸ hwith⟩

theorem WithDirectory.extends (hclear : fs.Clear p) (h : fs.WithDirectory p fs') : fs.Extends fs' := by
  intro q n hn
  rw [h q]
  split
  · rename_i hq
    cases n with
    | directory => rfl
    | file content => exact absurd hn (hclear q hq content)
  · exact hn

/-- A directory is there, and nothing else has changed. -/
theorem createDirectory_ok {target : Path} (h : createDirectory target fs q = .ok fs') :
    fs'.node q = some .directory ∧ fs.Extends fs' ∧ ∀ p, p ≠ q → fs'.node p = fs.node p := by
  rw [createDirectory] at h
  split at h
  · obtain ⟨hfree, -, hnode⟩ := create_eq_ok_iff.mp h
    refine ⟨?_, extends_update hfree hnode, fun p hp => ?_⟩
    · rw [hnode, Function.update_self]
    · rw [hnode, Function.update_of_ne hp]
  · cases h
    exact ⟨‹_›, Extends.refl fs, fun p _ => rfl⟩
  · cases h

/-! ### Writing into a file -/

/-- What is in a file is replaced. -/
def overwrite (fs : FileTree) (p : Path) (content : String) : FileTree where
  node q :=
    match fs.node q with
    | some (.file old) => some (.file (if q = p then content else old))
    | n => n
  root := by rw [fs.root]
  parent q hq := by
    have hthere : fs.node q ≠ none := fun hnone => hq (by rw [hnone])
    rw [fs.parent q hthere]

variable {content : String}

theorem overwrite_node (q : Path) : (fs.overwrite p content).node q =
    match fs.node q with
    | some (.file old) => some (.file (if q = p then content else old))
    | n => n := rfl

theorem overwrite_self {old : String} (h : fs.node p = some (.file old)) :
    (fs.overwrite p content).node p = some (.file content) := by
  rw [overwrite_node, h]
  simp

theorem overwrite_of_ne (h : q ≠ p) : (fs.overwrite p content).node q = fs.node q := by
  rw [overwrite_node]
  cases fs.node q with
  | none => rfl
  | some n =>
    cases n with
    | directory => rfl
    | file old => simp [h]

end FileTree

end Dynamy.Java
