import Mathlib.Data.List.Perm.Basic
import Mathlib.Data.List.Nodup

/-!
Contract: finite trees of directories with named entries.

Owns the tree, the lookup along a path, the directories of a tree in preorder,
and trees that differ in the order of their entries only.

Does not own what is in a leaf.
-/

namespace Hwio.Library

/-- A directory with its entries in their order, or something else. -/
inductive DirTree (Name Leaf : Type) where
  | leaf (leaf : Leaf)
  | dir (entries : List (Name × DirTree Name Leaf))

/-- The entries of a directory. -/
abbrev Entries (Name Leaf : Type) := List (Name × DirTree Name Leaf)

variable {Name Leaf : Type}

/-! ## Directories -/

mutual

/-- The directories of a named tree, each in front of those below it. -/
def DirTree.dirs (name : Name) : DirTree Name Leaf → List (Name × Entries Name Leaf)
  | .leaf _ => []
  | .dir entries => (name, entries) :: dirsIn entries

/-- The directories below a directory. -/
def dirsIn : Entries Name Leaf → List (Name × Entries Name Leaf)
  | [] => []
  | (name, tree) :: rest => tree.dirs name ++ dirsIn rest

end

@[simp] theorem DirTree.dirs_leaf (name : Name) (leaf : Leaf) :
    (DirTree.leaf leaf).dirs name = [] := rfl

@[simp] theorem DirTree.dirs_dir (name : Name) (entries : Entries Name Leaf) :
    (DirTree.dir entries).dirs name = (name, entries) :: dirsIn entries := rfl

@[simp] theorem dirsIn_nil : dirsIn ([] : Entries Name Leaf) = [] := rfl

@[simp] theorem dirsIn_cons (name : Name) (tree : DirTree Name Leaf) (rest : Entries Name Leaf) :
    dirsIn ((name, tree) :: rest) = tree.dirs name ++ dirsIn rest := rfl

theorem dirsIn_swap (first second : Name × DirTree Name Leaf) (rest : Entries Name Leaf) :
    (dirsIn (first :: second :: rest)).Perm (dirsIn (second :: first :: rest)) := by
  show List.Perm (first.2.dirs first.1 ++ (second.2.dirs second.1 ++ dirsIn rest))
    (second.2.dirs second.1 ++ (first.2.dirs first.1 ++ dirsIn rest))
  rw [← List.append_assoc, ← List.append_assoc]
  exact List.perm_append_comm.append_right _

/-- The directories below a directory are those of its entries. -/
theorem mem_dirsIn {entries : Entries Name Leaf} {dir : Name × Entries Name Leaf} :
    dir ∈ dirsIn entries ↔ ∃ name tree, (name, tree) ∈ entries ∧ dir ∈ tree.dirs name := by
  induction entries with
  | nil => exact ⟨nofun, nofun⟩
  | cons entry rest before =>
      rw [dirsIn_cons, List.mem_append, before]
      constructor
      · rintro (first | ⟨name, tree, later, inside⟩)
        · exact ⟨entry.1, entry.2, List.mem_cons_self, first⟩
        · exact ⟨name, tree, List.mem_cons_of_mem _ later, inside⟩
      · rintro ⟨name, tree, member, inside⟩
        rcases List.mem_cons.mp member with rfl | later
        · exact Or.inl inside
        · exact Or.inr ⟨name, tree, later, inside⟩

theorem dirs_subset_of_mem {entries : Entries Name Leaf} {name : Name} {tree : DirTree Name Leaf}
    (member : (name, tree) ∈ entries) : tree.dirs name ⊆ dirsIn entries :=
  fun _ inside => mem_dirsIn.mpr ⟨name, tree, member, inside⟩

/-- A property of a directory and of all directories below it. -/
def Everywhere (holds : Entries Name Leaf → Prop) (entries : Entries Name Leaf) : Prop :=
  holds entries ∧ ∀ dir ∈ dirsIn entries, holds dir.2

theorem Everywhere.below {holds : Entries Name Leaf → Prop} {entries : Entries Name Leaf}
    (everywhere : Everywhere holds entries) {dir : Name × Entries Name Leaf}
    (member : dir ∈ dirsIn entries) : holds dir.2 := everywhere.2 dir member

theorem Everywhere.head {holds : Entries Name Leaf → Prop} {entries sub : Entries Name Leaf}
    {name : Name} (everywhere : Everywhere holds entries) (member : (name, .dir sub) ∈ entries) :
    Everywhere holds sub := by
  have inside := dirs_subset_of_mem member
  rw [DirTree.dirs_dir] at inside
  exact ⟨everywhere.below (inside List.mem_cons_self),
    fun _ below => everywhere.below (inside (List.mem_cons_of_mem _ below))⟩

/-! ## Tours -/

/-- A directory on a path, its name first, is entered or left. -/
inductive Passage (Name : Type) where
  | enter (path : List Name)
  | leave (path : List Name)
deriving DecidableEq, Repr

mutual

/-- A tour of a tree enters a directory, goes through the ones in it one after the
other, and leaves it. -/
def DirTree.tour (path : List Name) : DirTree Name Leaf → List (Passage Name)
  | .leaf _ => []
  | .dir entries => .enter path :: tourIn path entries ++ [.leave path]

def tourIn (path : List Name) : Entries Name Leaf → List (Passage Name)
  | [] => []
  | (name, tree) :: rest => tree.tour (name :: path) ++ tourIn path rest

end

@[simp] theorem DirTree.tour_leaf (path : List Name) (leaf : Leaf) :
    (DirTree.leaf leaf).tour path = [] := rfl

@[simp] theorem DirTree.tour_dir (path : List Name) (entries : Entries Name Leaf) :
    (DirTree.dir entries).tour path = .enter path :: tourIn path entries ++ [.leave path] := rfl

@[simp] theorem tourIn_nil (path : List Name) : tourIn path ([] : Entries Name Leaf) = [] := rfl

@[simp] theorem tourIn_cons (path : List Name) (name : Name) (tree : DirTree Name Leaf)
    (rest : Entries Name Leaf) :
    tourIn path ((name, tree) :: rest) = tree.tour (name :: path) ++ tourIn path rest := rfl

/-- There is no tour through entries without directories. -/
theorem tourIn_eq_nil (path : List Name) {entries : Entries Name Leaf}
    (nothing : dirsIn entries = []) : tourIn path entries = [] := by
  induction entries with
  | nil => rfl
  | cons entry rest before =>
      obtain ⟨name, tree⟩ := entry
      cases tree with
      | leaf leaf => exact before nothing
      | dir sub => cases nothing

theorem dirsIn_append (first second : Entries Name Leaf) :
    dirsIn (first ++ second) = dirsIn first ++ dirsIn second := by
  induction first with
  | nil => rfl
  | cons entry rest before =>
      rw [List.cons_append, dirsIn_cons, dirsIn_cons, before, List.append_assoc]

theorem tourIn_append (path : List Name) (first second : Entries Name Leaf) :
    tourIn path (first ++ second) = tourIn path first ++ tourIn path second := by
  induction first with
  | nil => rfl
  | cons entry rest before =>
      rw [List.cons_append, tourIn_cons, tourIn_cons, before, List.append_assoc]

/-- The tour of entries with one directory is that of the directory. -/
theorem tourIn_single (path : List Name) {entries sub : Entries Name Leaf} {name : Name}
    (dirs : dirsIn entries = (name, sub) :: dirsIn sub) :
    tourIn path entries = (DirTree.dir sub).tour (name :: path) := by
  induction entries with
  | nil => cases dirs
  | cons entry rest before =>
      obtain ⟨first, tree⟩ := entry
      cases tree with
      | leaf leaf => exact before dirs
      | dir inner =>
          obtain ⟨same, others⟩ := List.cons.inj dirs
          cases same
          have nothing : dirsIn rest = [] := List.append_right_eq_self.mp others
          rw [tourIn_cons, tourIn_eq_nil path nothing, List.append_nil]

/-- The tour of entries begins with that of the first directory in them. -/
theorem tourIn_first (path : List Name) {entries behind sub : Entries Name Leaf} {name : Name}
    (later : behind <:+ entries)
    (dirs : dirsIn entries = (name, sub) :: (dirsIn sub ++ dirsIn behind)) :
    tourIn path entries = (DirTree.dir sub).tour (name :: path) ++ tourIn path behind := by
  obtain ⟨front, rfl⟩ := later
  rw [dirsIn_append, ← List.cons_append] at dirs
  rw [tourIn_append, tourIn_single path (List.append_cancel_right dirs)]

/-- The directories that were entered and not left, the last one first. -/
def stillIn [DecidableEq Name] (passages : List (Passage Name)) : List (List Name) :=
  passages.foldl (fun inside => fun
    | .enter path => path :: inside
    | .leave path => inside.erase path) []

theorem stillIn_enter [DecidableEq Name] (passages : List (Passage Name)) (path : List Name) :
    stillIn (passages ++ [.enter path]) = path :: stillIn passages := by
  rw [stillIn, List.foldl_append]
  rfl

/-- The last directory that was entered is left first. -/
theorem stillIn_leave [DecidableEq Name] {passages : List (Passage Name)} {path : List Name}
    {outside : List (List Name)} (inside : stillIn passages = path :: outside) :
    stillIn (passages ++ [.leave path]) = outside := by
  rw [stillIn, List.foldl_append]
  show (stillIn passages).erase path = outside
  rw [inside, List.erase_cons_head]

/-! ## Names -/

/-- The names in a directory differ. -/
def Named (entries : Entries Name Leaf) : Prop := (entries.map Prod.fst).Nodup

/-- A tree without the directory below it. -/
def DirTree.leaf? : DirTree Name Leaf → Option Leaf
  | .leaf kind => some kind
  | .dir _ => none

/-- The entries of a directory without the directories below it. -/
def kinds (entries : Entries Name Leaf) : List (Name × Option Leaf) :=
  entries.map fun entry => (entry.1, entry.2.leaf?)

theorem names_of_kinds (entries : Entries Name Leaf) :
    (kinds entries).map Prod.fst = entries.map Prod.fst := by
  rw [kinds, List.map_map]
  rfl

theorem mem_leaf_iff {entries : Entries Name Leaf} {name : Name} {leaf : Leaf} :
    (name, .leaf leaf) ∈ entries ↔ (name, some leaf) ∈ kinds entries := by
  rw [kinds, List.mem_map]
  constructor
  · intro member
    exact ⟨_, member, rfl⟩
  · rintro ⟨⟨_, tree⟩, member, same⟩
    obtain ⟨rfl, kind⟩ := Prod.mk.inj same
    cases tree with
    | leaf other => rwa [Option.some.inj kind] at member
    | dir _ => exact nomatch kind

/-! ## The order of entries -/

/-- Two directories that differ in the order of the entries only, in them and
in the directories below them. -/
inductive Rearranged : Entries Name Leaf → Entries Name Leaf → Prop where
  | nil : Rearranged [] []
  | leaf {left right : Entries Name Leaf} (name : Name) (leaf : Leaf)
      (rest : Rearranged left right) :
      Rearranged ((name, .leaf leaf) :: left) ((name, .leaf leaf) :: right)
  | dir {left right leftSub rightSub : Entries Name Leaf} (name : Name)
      (below : Rearranged leftSub rightSub) (rest : Rearranged left right) :
      Rearranged ((name, .dir leftSub) :: left) ((name, .dir rightSub) :: right)
  | swap (first second : Name × DirTree Name Leaf) (rest : Entries Name Leaf) :
      Rearranged (first :: second :: rest) (second :: first :: rest)
  | trans {left middle right : Entries Name Leaf} (first : Rearranged left middle)
      (second : Rearranged middle right) : Rearranged left right

namespace Rearranged

/-- The same names and leaves, whatever the order. -/
theorem kinds {left right : Entries Name Leaf} (rearranged : Rearranged left right) :
    (kinds left).Perm (kinds right) := by
  induction rearranged with
  | nil => exact List.Perm.refl _
  | leaf name leaf _ rest => exact rest.cons (name, some leaf)
  | dir name _ _ _ rest => exact rest.cons (name, none)
  | swap first second rest => exact List.Perm.swap _ _ _
  | trans _ _ first second => exact first.trans second

theorem named {left right : Entries Name Leaf} (rearranged : Rearranged left right)
    (named : Named left) : Named right := by
  have names := rearranged.kinds.map Prod.fst
  rw [names_of_kinds, names_of_kinds] at names
  exact names.nodup_iff.mp named

theorem mem_leaf {left right : Entries Name Leaf} (rearranged : Rearranged left right)
    {name : Name} {leaf : Leaf} :
    (name, .leaf leaf) ∈ left ↔ (name, .leaf leaf) ∈ right := by
  rw [mem_leaf_iff, mem_leaf_iff]
  exact rearranged.kinds.mem_iff

theorem beneath {holds : Entries Name Leaf → Prop} {left right : Entries Name Leaf}
    (rearranged : Rearranged left right)
    (keeps : ∀ {left right : Entries Name Leaf}, Rearranged left right → holds left → holds right)
    (before : ∀ dir ∈ dirsIn left, holds dir.2) : ∀ dir ∈ dirsIn right, holds dir.2 := by
  induction rearranged with
  | nil => exact before
  | leaf _ _ _ rest => exact rest before
  | dir name below _ inside rest =>
      simp only [dirsIn_cons, DirTree.dirs_dir, List.cons_append, List.forall_mem_cons,
        List.forall_mem_append] at before ⊢
      exact ⟨keeps below before.1, inside before.2.1, rest before.2.2⟩
  | swap first second rest =>
      intro dir member
      exact before dir ((dirsIn_swap first second rest).mem_iff.mpr member)
  | trans _ _ first second => exact second (first before)

/-- What holds everywhere whatever the order does so in the other order. -/
theorem everywhere {holds : Entries Name Leaf → Prop} {left right : Entries Name Leaf}
    (rearranged : Rearranged left right)
    (keeps : ∀ {left right : Entries Name Leaf}, Rearranged left right → holds left → holds right)
    (before : Everywhere holds left) : Everywhere holds right :=
  ⟨keeps rearranged before.1, rearranged.beneath keeps before.2⟩

/-- What does not depend on the order of entries gives the same for the
directories below, up to their order. -/
theorem filterMap_dirsIn {Value : Type} {value : Name × Entries Name Leaf → Option Value}
    {left right : Entries Name Leaf} (rearranged : Rearranged left right)
    (same : ∀ {name : Name} {left right : Entries Name Leaf}, Rearranged left right →
      Named left → value (name, left) = value (name, right))
    (named : ∀ dir ∈ dirsIn left, Named dir.2) :
    ((dirsIn left).filterMap value).Perm ((dirsIn right).filterMap value) := by
  induction rearranged with
  | nil => exact List.Perm.refl _
  | leaf _ _ _ rest => exact rest named
  | dir name below _ inside rest =>
      simp only [dirsIn_cons, DirTree.dirs_dir, List.cons_append, List.forall_mem_cons,
        List.forall_mem_append] at named
      have both := (inside named.2.1).append (rest named.2.2)
      simp only [dirsIn_cons, DirTree.dirs_dir, List.cons_append, List.filterMap_cons,
        List.filterMap_append, ← same below named.1]
      cases value (name, _) with
      | none => exact both
      | some found => exact both.cons found
  | swap first second rest =>
      exact (dirsIn_swap first second rest).filterMap value
  | trans before _ first second =>
      exact (first named).trans (second (before.beneath Rearranged.named named))

end Rearranged

/-! ## Lookups -/

variable [DecidableEq Name]

/-- An entry of a directory. -/
def child (entries : Entries Name Leaf) (name : Name) : Option (DirTree Name Leaf) :=
  entries.lookup name

theorem child_cons (entries : Entries Name Leaf) (first name : Name) (tree : DirTree Name Leaf) :
    child ((first, tree) :: entries) name = if name = first then some tree
      else child entries name := by
  unfold child
  by_cases same : name = first
  · rw [if_pos same, List.lookup_cons, beq_iff_eq.mpr same]
  · rw [if_neg same, List.lookup_cons, beq_eq_false_iff_ne.mpr same]

theorem mem_of_child {entries : Entries Name Leaf} {name : Name} {tree : DirTree Name Leaf}
    (found : child entries name = some tree) : (name, tree) ∈ entries := by
  induction entries with
  | nil => exact nomatch found
  | cons entry rest before =>
      rw [child_cons] at found
      split at found
      next same =>
        rw [same, ← Option.some.inj found]
        exact List.mem_cons_self
      next => exact List.mem_cons_of_mem _ (before found)

theorem child_of_mem {entries : Entries Name Leaf} (named : Named entries) {name : Name}
    {tree : DirTree Name Leaf} (member : (name, tree) ∈ entries) :
    child entries name = some tree := by
  induction entries with
  | nil => exact nomatch member
  | cons entry rest before =>
      have ⟨unlike, others⟩ := List.nodup_cons.mp named
      rw [child_cons]
      rcases List.mem_cons.mp member with first | later
      · rw [← first, if_pos rfl]
      · have other : name ≠ entry.1 := fun same =>
          unlike (same ▸ List.mem_map_of_mem (f := Prod.fst) later)
        rw [if_neg other]
        exact before others later

/-! ## Paths -/

/-- What a path leads to. -/
def DirTree.at : DirTree Name Leaf → List Name → Option (DirTree Name Leaf)
  | tree, [] => some tree
  | .leaf _, _ :: _ => none
  | .dir entries, name :: path => (child entries name).bind fun tree => tree.at path

@[simp] theorem DirTree.at_nil (tree : DirTree Name Leaf) : tree.at [] = some tree := by
  cases tree <;> rfl

@[simp] theorem DirTree.at_leaf (leaf : Leaf) (name : Name) (path : List Name) :
    (DirTree.leaf leaf).at (name :: path) = none := rfl

@[simp] theorem DirTree.at_dir (entries : Entries Name Leaf) (name : Name) (path : List Name) :
    (DirTree.dir entries).at (name :: path) = (child entries name).bind fun tree => tree.at path := rfl

theorem DirTree.at_append (tree : DirTree Name Leaf) (first second : List Name) :
    tree.at (first ++ second) = (tree.at first).bind fun found => found.at second := by
  induction first generalizing tree with
  | nil => rw [DirTree.at_nil, List.nil_append, Option.bind_some]
  | cons name path before =>
      cases tree with
      | leaf leaf => rfl
      | dir entries =>
          rw [List.cons_append, DirTree.at_dir, DirTree.at_dir, Option.bind_assoc]
          exact congrArg _ (funext before)

/-- The path through one more directory. -/
theorem DirTree.at_snoc {tree : DirTree Name Leaf} {path : List Name} {entries : Entries Name Leaf}
    (found : tree.at path = some (.dir entries)) (name : Name) :
    tree.at (path ++ [name]) = child entries name := by
  rw [DirTree.at_append, found, Option.bind_some, DirTree.at_dir]
  have itself : (fun tree : DirTree Name Leaf => tree.at []) = some := funext DirTree.at_nil
  rw [itself]
  exact Option.bind_fun_some _

/-- A directory at the end of a path is one of those in preorder. -/
theorem mem_dirsIn_of_at {entries sub : Entries Name Leaf} {path : List Name} {name : Name}
    (found : (DirTree.dir entries).at (path ++ [name]) = some (.dir sub)) :
    (name, sub) ∈ dirsIn entries := by
  induction path generalizing entries with
  | nil =>
      rw [DirTree.at_snoc (DirTree.at_nil _)] at found
      exact dirs_subset_of_mem (mem_of_child found) List.mem_cons_self
  | cons first path before =>
      rw [List.cons_append, DirTree.at_dir, Option.bind_eq_some_iff] at found
      have ⟨tree, entry, below⟩ := found
      cases tree with
      | leaf leaf => exact absurd below (by cases path <;> exact nofun)
      | dir inner =>
          exact dirs_subset_of_mem (mem_of_child entry)
            (List.mem_cons_of_mem _ (before below))

/-- A directory in preorder is at the end of a path. -/
theorem at_of_mem_dirsIn {entries : Entries Name Leaf} (named : Everywhere Named entries)
    {dir : Name × Entries Name Leaf} (member : dir ∈ dirsIn entries) :
    ∃ path, (DirTree.dir entries).at (path ++ [dir.1]) = some (.dir dir.2) := by
  have ⟨name, tree, entry, inside⟩ := mem_dirsIn.mp member
  cases tree with
  | leaf leaf => exact nomatch inside
  | dir sub =>
      have found := child_of_mem named.1 entry
      rw [DirTree.dirs_dir, List.mem_cons] at inside
      rcases inside with rfl | below
      · exact ⟨[], (DirTree.at_snoc (DirTree.at_nil _) _).trans found⟩
      · have smaller : sizeOf sub < sizeOf entries := by
          have less := List.sizeOf_lt_of_mem entry
          have inner : sizeOf sub < sizeOf (name, DirTree.dir sub) := by
            rw [Prod.mk.sizeOf_spec, DirTree.dir.sizeOf_spec]
            omega
          exact Nat.lt_trans inner less
        have ⟨path, below⟩ := at_of_mem_dirsIn (named.head entry) below
        refine ⟨name :: path, ?_⟩
        rw [List.cons_append, DirTree.at_dir, found]
        exact below
termination_by sizeOf entries

/-- Every property of all directories holds at the end of a path. -/
theorem Everywhere.at {holds : Entries Name Leaf → Prop} {entries sub : Entries Name Leaf}
    (everywhere : Everywhere holds entries) {path : List Name}
    (found : (DirTree.dir entries).at path = some (.dir sub)) : holds sub := by
  rcases List.eq_nil_or_concat path with rfl | ⟨before, name, rfl⟩
  · rw [DirTree.at_nil, Option.some.injEq, DirTree.dir.injEq] at found
    exact found ▸ everywhere.1
  · rw [List.concat_eq_append] at found
    exact everywhere.below (mem_dirsIn_of_at found)

end Hwio.Library
