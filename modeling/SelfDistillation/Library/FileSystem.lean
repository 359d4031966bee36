/-
Files and directories under operations that can be cut at any point, and
groups of processes that run them side by side with a barrier between one
group and the next.
-/
import Mathlib.Data.List.Infix
import Mathlib.Data.List.Perm.Basic

namespace FileSystem

/-- Names from the top directory down. -/
abbrev Path := List String

structure Disk where
  files : List (Path × String)
  dirs : List Path
deriving DecidableEq, Repr

namespace Disk

def empty : Disk := ⟨[], []⟩

def read (disk : Disk) (path : Path) : Option String :=
  disk.files.lookup path

def put (disk : Disk) (path : Path) (content : String) : Disk :=
  ⟨(path, content) :: disk.files, disk.dirs⟩

def remove (disk : Disk) (path : Path) : Disk :=
  ⟨disk.files.filter fun file => file.1 != path, disk.dirs⟩

/-- The directory and those above it. -/
def makeDirs (disk : Disk) (path : Path) : Disk :=
  ⟨disk.files, path.inits ++ disk.dirs⟩

def removeDirs (disk : Disk) (path : Path) : Disk :=
  ⟨disk.files, disk.dirs.filter fun dir => !path.isPrefixOf dir⟩

/-- `os.path.exists(path)` -/
def isThere (disk : Disk) (path : Path) : Bool :=
  (disk.read path).isSome || disk.dirs.contains path

section Reading

variable {disk : Disk} {path other : Path} {content : String}

@[simp] theorem read_empty : empty.read path = none := rfl

@[simp] theorem read_makeDirs :
    (disk.makeDirs other).read path = disk.read path := rfl

@[simp] theorem read_removeDirs :
    (disk.removeDirs other).read path = disk.read path := rfl

theorem read_put_self : (disk.put path content).read path = some content := by
  simp [read, put]

theorem read_put_of_ne (h : path ≠ other) :
    (disk.put other content).read path = disk.read path := by
  simp only [read, put, List.lookup_cons, beq_eq_false_iff_ne.mpr h]

theorem read_remove_of_ne (h : path ≠ other) :
    (disk.remove other).read path = disk.read path := by
  obtain ⟨files, dirs⟩ := disk
  simp only [read, remove]
  induction files with
  | nil => rfl
  | cons file files ih =>
      obtain ⟨name, text⟩ := file
      by_cases hother : name = other
      · have hname : (path == name) = false :=
          beq_eq_false_iff_ne.mpr (hother ▸ h)
        rw [List.filter_cons_of_neg (by simp [hother]), List.lookup_cons,
          hname]
        exact ih
      · rw [List.filter_cons_of_pos (by simp [hother]), List.lookup_cons,
          List.lookup_cons, ih]

@[simp] theorem dirs_put : (disk.put path content).dirs = disk.dirs := rfl

@[simp] theorem dirs_remove : (disk.remove path).dirs = disk.dirs := rfl

theorem mem_dirs_makeDirs :
    path ∈ (disk.makeDirs other).dirs ↔ path <+: other ∨ path ∈ disk.dirs := by
  simp only [makeDirs, List.mem_append, List.mem_inits]

theorem mem_dirs_removeDirs :
    path ∈ (disk.removeDirs other).dirs ↔
      path ∈ disk.dirs ∧ ¬ other <+: path := by
  simp [removeDirs, List.mem_filter, ← List.isPrefixOf_iff_prefix]

end Reading

end Disk

inductive Op
  | mkdir (path : Path)
  | write (path : Path) (content : String)
  | rename (source target : Path)
  | rmtree (path : Path)
deriving DecidableEq, Repr

/-- What of an operation happens next. -/
inductive Move
  /-- Opened for writing, a file is empty. -/
  | truncate
  /-- One file of a tree. -/
  | unlink (file : Path)
  | finish
deriving DecidableEq, Repr

def Op.finish (disk : Disk) : Op → Option Disk
  | .mkdir path => some (disk.makeDirs path)
  | .write path content => some (disk.put path content)
  | .rename source target =>
      (disk.read source).map fun content =>
        (disk.remove source).put target content
  | .rmtree path =>
      if disk.files.all fun file => !path.isPrefixOf file.1 then
        some (disk.removeDirs path)
      else none

/-- The next move of a process; an operation not finished is still to do. -/
def advance (disk : Disk) : List Op → Move → Option (Disk × List Op)
  | [], _ => none
  | op :: ops, .finish => (op.finish disk).map fun disk => (disk, ops)
  | op :: ops, .truncate =>
      match op with
      | .write path _ => some (disk.put path "", op :: ops)
      | _ => none
  | op :: ops, .unlink file =>
      match op with
      | .rmtree path =>
          if path <+: file then some (disk.remove file, op :: ops) else none
      | _ => none

/-- The programs of the processes of a group, one group after another. -/
abbrev Groups := List (List (List Op))

inductive Action
  | run (process : Nat) (move : Move)
  /-- Every process of the group has come to its end. -/
  | next
deriving DecidableEq, Repr

def step (disk : Disk) : Groups → Action → Option (Disk × Groups)
  | programs :: later, .run process move =>
      programs[process]?.bind fun ops =>
        (advance disk ops move).map fun next =>
          (next.1, programs.set process next.2 :: later)
  | programs :: following :: later, .next =>
      if programs.all List.isEmpty then some (disk, following :: later)
      else none
  | _, _ => none

/-- The operation a process has before it. -/
def headOp (groups : Groups) (process : Nat) : Option Op :=
  groups.head?.bind fun programs => programs[process]?.bind List.head?

/-- What is left to do. -/
def pending (groups : Groups) : List Op := groups.flatten.flatten

section Moves

variable {disk disk' : Disk} {op : Op} {ops ops' : List Op} {move : Move}

/-- A move finishes the operation or leaves it to be done. -/
theorem advance_cases (h : advance disk (op :: ops) move = some (disk', ops')) :
    (op.finish disk = some disk' ∧ ops' = ops ∧ move = .finish) ∨
    (∃ path content, op = .write path content ∧ disk' = disk.put path "" ∧
      ops' = op :: ops) ∨
    (∃ path file, op = .rmtree path ∧ path <+: file ∧
      disk' = disk.remove file ∧ ops' = op :: ops) := by
  cases move with
  | finish =>
      obtain ⟨next, hnext, heq⟩ := Option.map_eq_some_iff.mp h
      cases heq
      exact .inl ⟨hnext, rfl, rfl⟩
  | truncate =>
      cases op with
      | write path content =>
          cases h
          exact .inr (.inl ⟨path, content, rfl, rfl, rfl⟩)
      | mkdir path => cases h
      | rename source target => cases h
      | rmtree path => cases h
  | unlink file =>
      cases op with
      | rmtree path =>
          simp only [advance] at h
          split at h
          · rename_i hfront
            cases h
            exact .inr (.inr ⟨path, file, rfl, hfront, rfl, rfl⟩)
          · cases h
      | mkdir path => cases h
      | rename source target => cases h
      | write path content => cases h

/-- No file or directory at or under `top` changes, but for directories made. -/
def Op.Spares (top : Path) : Op → Prop
  | .mkdir _ => True
  | .write path _ => ¬ top <+: path
  | .rename source target => ¬ top <+: source ∧ ¬ top <+: target
  | .rmtree path => ¬ top <+: path ∧ ¬ path <+: top

theorem not_prefix_under {top path file : Path} (hpath : ¬ top <+: path)
    (htop : ¬ path <+: top) (hfile : top <+: file) : ¬ path <+: file := by
  intro h
  cases List.prefix_or_prefix_of_prefix h hfile with
  | inl hfront => exact htop hfront
  | inr hfront => exact hpath hfront

/-- The frame rule of a move. -/
theorem advance_spares {top file : Path} (hop : op.Spares top)
    (hfile : top <+: file)
    (h : advance disk (op :: ops) move = some (disk', ops')) :
    disk'.read file = disk.read file := by
  obtain ⟨hfinish, -, -⟩ | ⟨path, content, rfl, rfl, -⟩ |
    ⟨path, gone, rfl, hgone, rfl, -⟩ := advance_cases h
  · cases op with
    | mkdir path =>
        cases hfinish
        rfl
    | write path content =>
        cases hfinish
        apply Disk.read_put_of_ne
        rintro rfl
        exact hop hfile
    | rename source target =>
        obtain ⟨content, -, rfl⟩ := Option.map_eq_some_iff.mp hfinish
        rw [Disk.read_put_of_ne, Disk.read_remove_of_ne]
        · rintro rfl
          exact hop.1 hfile
        · rintro rfl
          exact hop.2 hfile
    | rmtree path =>
        simp only [Op.finish] at hfinish
        split at hfinish
        · cases hfinish
          rfl
        · cases hfinish
  · apply Disk.read_put_of_ne
    rintro rfl
    exact hop hfile
  · apply Disk.read_remove_of_ne
    rintro rfl
    exact not_prefix_under hop.1 hop.2 hfile hgone

/-- Directories go with a tree only. -/
theorem mem_dirs_advance {top : Path}
    (hop : ∀ path, op = .rmtree path → ¬ path <+: top)
    (hdir : top ∈ disk.dirs)
    (h : advance disk (op :: ops) move = some (disk', ops')) :
    top ∈ disk'.dirs := by
  obtain ⟨hfinish, -, -⟩ | ⟨path, content, rfl, rfl, -⟩ |
    ⟨path, gone, rfl, hgone, rfl, -⟩ := advance_cases h
  · cases op with
    | mkdir path =>
        cases hfinish
        exact Disk.mem_dirs_makeDirs.mpr (.inr hdir)
    | write path content =>
        cases hfinish
        exact hdir
    | rename source target =>
        obtain ⟨content, -, rfl⟩ := Option.map_eq_some_iff.mp hfinish
        exact hdir
    | rmtree path =>
        simp only [Op.finish] at hfinish
        split at hfinish
        · cases hfinish
          exact Disk.mem_dirs_removeDirs.mpr ⟨hdir, hop path rfl⟩
        · cases hfinish
  · exact hdir
  · exact hdir

/-- A directory that is new was asked for. -/
theorem mem_dirs_of_advance {top : Path} (hdir : top ∈ disk'.dirs)
    (h : advance disk (op :: ops) move = some (disk', ops')) :
    top ∈ disk.dirs ∨ ∃ path, op = .mkdir path ∧ top <+: path := by
  obtain ⟨hfinish, -, -⟩ | ⟨path, content, rfl, rfl, -⟩ |
    ⟨path, gone, rfl, hgone, rfl, -⟩ := advance_cases h
  · cases op with
    | mkdir path =>
        cases hfinish
        rcases Disk.mem_dirs_makeDirs.mp hdir with hfront | hold
        · exact .inr ⟨path, rfl, hfront⟩
        · exact .inl hold
    | write path content =>
        cases hfinish
        exact .inl hdir
    | rename source target =>
        obtain ⟨content, -, rfl⟩ := Option.map_eq_some_iff.mp hfinish
        exact .inl hdir
    | rmtree path =>
        simp only [Op.finish] at hfinish
        split at hfinish
        · cases hfinish
          exact .inl (Disk.mem_dirs_removeDirs.mp hdir).1
        · cases hfinish
  · exact .inl hdir
  · exact .inl hdir

theorem advance_kept (h : advance disk (op :: ops) move = some (disk', ops')) :
    ops' = ops ∨ ops' = op :: ops := by
  obtain ⟨-, hops, -⟩ | ⟨-, -, -, -, hops⟩ | ⟨-, -, -, -, -, hops⟩ :=
    advance_cases h
  · exact .inl hops
  · exact .inr hops
  · exact .inr hops

/-- A move adds nothing to the programs of a group. -/
theorem mem_flatten_set {programs : List (List Op)} {process : Nat} {x : Op}
    (hops : programs[process]? = some (op :: ops))
    (h : advance disk (op :: ops) move = some (disk', ops'))
    (hx : x ∈ (programs.set process ops').flatten) :
    x ∈ programs.flatten := by
  obtain ⟨program, hprogram, hin⟩ := List.mem_flatten.mp hx
  rcases List.mem_or_eq_of_mem_set hprogram with hold | rfl
  · exact List.mem_flatten.mpr ⟨program, hold, hin⟩
  · refine List.mem_flatten.mpr ⟨_, List.mem_of_getElem? hops, ?_⟩
    rcases advance_kept h with rfl | rfl
    · exact List.mem_cons_of_mem _ hin
    · exact hin

end Moves

section Steps

variable {disk disk' : Disk} {groups groups' : Groups} {action : Action}

theorem step_run {process : Nat} {move : Move}
    (h : step disk groups (.run process move) = some (disk', groups')) :
    ∃ programs later op ops ops', groups = programs :: later ∧
      programs[process]? = some (op :: ops) ∧
      advance disk (op :: ops) move = some (disk', ops') ∧
      groups' = programs.set process ops' :: later := by
  match groups with
  | [] => cases h
  | programs :: later =>
      rw [step, Option.bind_eq_some_iff] at h
      obtain ⟨ops, hops, h⟩ := h
      obtain ⟨⟨disk₁, ops'⟩, hadvance, heq⟩ := Option.map_eq_some_iff.mp h
      cases heq
      cases ops with
      | nil => cases hadvance
      | cons op ops =>
          exact ⟨programs, later, op, ops, ops', rfl, hops, hadvance, rfl⟩

theorem step_next (h : step disk groups .next = some (disk', groups')) :
    disk' = disk ∧ ∃ programs, groups = programs :: groups' ∧
      ∀ ops ∈ programs, ops = [] := by
  match groups with
  | [] => cases h
  | [programs] => cases h
  | programs :: following :: later =>
      rw [step] at h
      split at h
      · rename_i hall
        cases h
        refine ⟨rfl, programs, rfl, fun ops hops => ?_⟩
        exact List.isEmpty_iff.mp (List.all_eq_true.mp hall ops hops)
      · cases h

/-- A step moves one process on, or goes to the next group. -/
theorem step_pending (h : step disk groups action = some (disk', groups')) :
    (∃ process op ops ops' move front back, action = .run process move ∧
      headOp groups process = some op ∧
      advance disk (op :: ops) move = some (disk', ops') ∧
      pending groups = front ++ (op :: ops) ++ back ∧
      pending groups' = front ++ ops' ++ back) ∨
    (disk' = disk ∧ pending groups' = pending groups) := by
  cases action with
  | run process move =>
      left
      obtain ⟨programs, later, op, ops, ops', rfl, hops, hadvance, rfl⟩ :=
        step_run h
      obtain ⟨hlt, hget⟩ := List.getElem?_eq_some_iff.mp hops
      have hsplit : programs = programs.take process ++
          (op :: ops) :: programs.drop (process + 1) := by
        rw [← hget, List.getElem_cons_drop, List.take_append_drop]
      have hset : programs.set process ops' = programs.take process ++
          ops' :: programs.drop (process + 1) :=
        List.set_eq_take_append_cons_drop.trans (if_pos hlt)
      have hhead : headOp (programs :: later) process = some op := by
        rw [headOp, List.head?_cons, Option.bind_some, hops]
        rfl
      refine ⟨process, op, ops, ops', move, (programs.take process).flatten,
        (programs.drop (process + 1)).flatten ++ later.flatten.flatten,
        rfl, hhead, hadvance, ?_, ?_⟩
      · rw [pending, List.flatten_cons, List.flatten_append]
        nth_rewrite 1 [hsplit]
        simp only [List.flatten_append, List.flatten_cons, List.append_assoc]
      · rw [pending, hset, List.flatten_cons, List.flatten_append]
        simp only [List.flatten_append, List.flatten_cons, List.append_assoc]
  | next =>
      right
      obtain ⟨rfl, programs, rfl, hempty⟩ := step_next h
      refine ⟨rfl, ?_⟩
      have hflatten : programs.flatten = [] :=
        List.flatten_eq_nil_iff.mpr hempty
      rw [pending, pending, List.flatten_cons, List.flatten_append, hflatten,
        List.nil_append]

/-- Nothing is added to what is left; only the operation just finished may be
gone. -/
theorem step_cases (h : step disk groups action = some (disk', groups')) :
    (∃ op ops ops' move, advance disk (op :: ops) move = some (disk', ops') ∧
      op ∈ pending groups ∧ (∀ x ∈ pending groups', x ∈ pending groups) ∧
      ∀ x ∈ pending groups, x ∈ pending groups' ∨ x = op ∧ ops' = ops) ∨
    (disk' = disk ∧ ∀ x, x ∈ pending groups' ↔ x ∈ pending groups) := by
  obtain ⟨-, op, ops, ops', move, front, back, -, -, hadvance, hold, hnew⟩ |
    ⟨hdisk, hsame⟩ := step_pending h
  · left
    refine ⟨op, ops, ops', move, hadvance, ?_, ?_, ?_⟩
    · rw [hold]
      simp
    · intro x hx
      rw [hnew] at hx
      rw [hold]
      rcases advance_kept hadvance with rfl | rfl
      · simp only [List.mem_append, List.mem_cons] at hx ⊢
        tauto
      · exact hx
    · intro x hx
      rw [hold] at hx
      rw [hnew]
      rcases advance_kept hadvance with rfl | rfl
      · simp only [List.mem_append, List.mem_cons] at hx ⊢
        tauto
      · exact .inl hx
  · right
    exact ⟨hdisk, fun x => by rw [hsame]⟩

/-- A file is written, or will be. -/
def Owed (disk : Disk) (groups : Groups) (path : Path) (content : String) :
    Prop :=
  disk.read path = some content ∨ Op.write path content ∈ pending groups

/-- No other content goes to the file, and it is not taken away. -/
def Op.Settles (path : Path) (content : String) : Op → Prop
  | .mkdir _ => True
  | .write target text => target = path → text = content
  | .rename source target => source ≠ path ∧ target ≠ path
  | .rmtree top => ¬ top <+: path

theorem step_owed {path : Path} {content : String}
    (hops : ∀ op ∈ pending groups, op.Settles path content)
    (howed : Owed disk groups path content)
    (h : step disk groups action = some (disk', groups')) :
    Owed disk' groups' path content := by
  obtain ⟨op, ops, ops', move, hadvance, hop, -, hkept⟩ | ⟨rfl, hsame⟩ :=
    step_cases h
  · have hsettles := hops op hop
    obtain ⟨hfinish, rfl, -⟩ | ⟨target, text, rfl, rfl, hstay⟩ |
      ⟨top, file, rfl, hfile, rfl, hstay⟩ := advance_cases hadvance
    · have hread : op = .write path content ∨
          disk'.read path = disk.read path := by
        cases op with
        | mkdir top =>
            cases hfinish
            exact .inr rfl
        | write target text =>
            cases hfinish
            by_cases heq : target = path
            · exact .inl (by rw [hsettles heq, heq])
            · exact .inr (Disk.read_put_of_ne (Ne.symm heq))
        | rename source target =>
            obtain ⟨text, -, rfl⟩ := Option.map_eq_some_iff.mp hfinish
            right
            rw [Disk.read_put_of_ne (Ne.symm hsettles.2),
              Disk.read_remove_of_ne (Ne.symm hsettles.1)]
        | rmtree top =>
            simp only [Op.finish] at hfinish
            split at hfinish
            · cases hfinish
              exact .inr rfl
            · cases hfinish
      rcases hread with rfl | hread
      · cases hfinish
        exact .inl Disk.read_put_self
      · rcases howed with howed | howed
        · exact .inl (hread.trans howed)
        · rcases hkept _ howed with hleft | ⟨rfl, -⟩
          · exact .inr hleft
          · cases hfinish
            exact .inl Disk.read_put_self
    · by_cases heq : target = path
      · right
        have hwrite : Op.write path content ∈ pending groups := by
          rw [← hsettles heq, ← heq]
          exact hop
        rcases hkept _ hwrite with hleft | ⟨-, hstay'⟩
        · exact hleft
        · rw [hstay] at hstay'
          exact absurd hstay' (List.cons_ne_self _ _)
      · rcases howed with howed | howed
        · exact .inl ((Disk.read_put_of_ne (Ne.symm heq)).trans howed)
        · rcases hkept _ howed with hleft | ⟨-, hstay'⟩
          · exact .inr hleft
          · rw [hstay] at hstay'
            exact absurd hstay' (List.cons_ne_self _ _)
    · have hne : path ≠ file := by
        rintro rfl
        exact hsettles hfile
      rcases howed with howed | howed
      · exact .inl ((Disk.read_remove_of_ne hne).trans howed)
      · rcases hkept _ howed with hleft | ⟨-, hstay'⟩
        · exact .inr hleft
        · rw [hstay] at hstay'
          exact absurd hstay' (List.cons_ne_self _ _)
  · exact howed.imp_right (hsame _).mpr

/-- A directory is there, or will be made. -/
def OwedDir (disk : Disk) (groups : Groups) (top : Path) : Prop :=
  top ∈ disk.dirs ∨ ∃ path, Op.mkdir path ∈ pending groups ∧ top <+: path

theorem step_owedDir {top : Path}
    (hops : ∀ path, Op.rmtree path ∈ pending groups → ¬ path <+: top)
    (howed : OwedDir disk groups top)
    (h : step disk groups action = some (disk', groups')) :
    OwedDir disk' groups' top := by
  obtain ⟨op, ops, ops', move, hadvance, hop, -, hkept⟩ | ⟨rfl, hsame⟩ :=
    step_cases h
  · rcases howed with hdir | ⟨path, hpath, hfront⟩
    · refine .inl (mem_dirs_advance ?_ hdir hadvance)
      rintro path rfl
      exact hops path hop
    · rcases hkept _ hpath with hleft | ⟨rfl, rfl⟩
      · exact .inr ⟨path, hleft, hfront⟩
      · obtain ⟨hfinish, -, -⟩ | ⟨_, _, heq, -⟩ | ⟨_, _, heq, -⟩ :=
          advance_cases hadvance
        · cases hfinish
          exact .inl (Disk.mem_dirs_makeDirs.mpr (.inl hfront))
        · cases heq
        · cases heq
  · rcases howed with hdir | ⟨path, hpath, hfront⟩
    · exact .inl hdir
    · exact .inr ⟨path, (hsame _).mpr hpath, hfront⟩

end Steps

end FileSystem
