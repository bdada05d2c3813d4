import Hwio.Bus.Discovery

/-!
Contract: the directory streams of the search in a device tree.

Owns the calls of `opendir` and `closedir` that the search makes, that they are those
of a tour of the tree, and which streams stay open when the search fails.

Does not own the files that the search reads.
-/

namespace Hwio

open Library

variable {tree : DeviceTree}

/-! ## The calls -/

/-- The calls of `opendir` and `closedir` in one call of `device_next`; a stream is
known by the path of its directory. -/
def streamCalls (tree : DeviceTree) (walk : Walk) : List (Passage Text) :=
  match walk.dirStack with
  | [] => []
  | actualDir :: below =>
      if !walk.topDirCheckedForDev then []
      else
        match goNextDir tree walk actualDir below with
        | .error _ => []
        | .ok (some later) => [.enter later.pathStack]
        | .ok none => [.leave walk.pathStack]

/-- The search of the constructor with these calls noted, and with the `opendir` of
the root. -/
def HwioBusDevicetree.devicesNoted (tree : DeviceTree) (fuel : Nat) :
    Option (Except (TreeFailure × List (Passage Text))
      (List TreeDevice × Walk × List (Passage Text))) :=
  drain (noted (streamCalls tree) (deviceNextBody tree)) fuel
    (start tree, [.enter [tree.deviceTreePath]])

theorem streamCalls_unchecked {walk : Walk} (unchecked : walk.topDirCheckedForDev = false) :
    streamCalls tree walk = [] := by
  unfold streamCalls
  rw [unchecked]
  split
  · rfl
  · rfl

theorem goNextDir_unchecked {walk later : Walk} {curr : Dir} {below : List Dir}
    (opens : goNextDir tree walk curr below = .ok (some later)) :
    later.topDirCheckedForDev = false := by
  unfold goNextDir at opens
  split at opens
  · cases opens
  · obtain ⟨opened, opening, same⟩ := bind_eq_ok_iff.mp opens
    obtain rfl := Option.some.inj (Except.ok.inj same)
    unfold opendirOnStack at opening
    split at opening
    · obtain rfl := Except.ok.inj opening
      rfl
    · cases opening

/-- A call that goes on from a directory that was looked at opens the next directory
or closes this one. -/
theorem streamCalls_checked {walk later : Walk} {dir : Dir} {below : List Dir}
    (checked : walk.topDirCheckedForDev = true) (stack : walk.dirStack = dir :: below)
    (calls : deviceNextBody tree walk = .again later) :
    streamCalls tree walk =
      if later.topDirCheckedForDev then [.leave walk.pathStack] else [.enter later.pathStack] := by
  unfold deviceNextBody at calls
  unfold streamCalls
  rw [stack] at calls ⊢
  simp only [checked, Bool.not_true, Bool.false_eq_true, if_false] at calls ⊢
  rcases going : goNextDir tree walk dir below with exn | _ | next
  · rw [going] at calls
    cases calls
  · rw [going] at calls
    cases calls
    rfl
  · rw [going] at calls
    cases calls
    rw [goNextDir_unchecked going]
    rfl

/-! ## The tour -/

/-- What is left of the tour behind directories that have entries left. -/
def leftToTour : List Text → List DirEntries → List (Passage Text)
  | name :: pathStack, rest :: rests =>
      tourIn (name :: pathStack) rest ++ .leave (name :: pathStack) :: leftToTour pathStack rests
  | _, _ => []

/-- The directories on a path, the last one first. -/
def pathsTo : List Text → List (List Text)
  | [] => []
  | name :: path => (name :: path) :: pathsTo path

/-- The calls made so far and those left make up a tour of the tree, and the streams
that are open are those of the path. -/
structure Touring (tree : DeviceTree) (walked : Walk × List (Passage Text)) : Prop where
  inStep : InStep tree walked.1
  whole : walked.2 ++ leftToTour walked.1.pathStack
      (unreadStack tree walked.1.pathStack walked.1.dirStack) =
    (DirTree.dir tree.root).tour [tree.deviceTreePath]
  inside : stillIn walked.2 = pathsTo walked.1.pathStack

theorem start_touring (directories : Everywhere IsDirectory tree.root) :
    Touring tree (HwioBusDevicetree.start tree, [.enter [tree.deviceTreePath]]) where
  inStep := start_inStep tree
  whole := by
    show _ ++ leftToTour [tree.deviceTreePath]
      (unreadStack tree [tree.deviceTreePath] [Dir.opened tree.root]) = _
    rw [start_unread directories]
    rfl
  inside := rfl

theorem Touring.again (directories : Everywhere IsDirectory tree.root) {walk later : Walk}
    {log : List (Passage Text)} (touring : Touring tree (walk, log))
    (calls : deviceNextBody tree walk = .again later)
    (call : NextCall tree walk (.again later)) :
    Touring tree (later, log ++ streamCalls tree walk) := by
  have kept := (call.again directories touring.inStep).1
  have whole := touring.whole
  have inside := touring.inside
  simp only at whole inside
  cases call with
  | passes unchecked path openAt device =>
      rw [streamCalls_unchecked unchecked, List.append_nil]
      exact ⟨kept, whole, inside⟩
  | opens checked path stack openAt suffix below inner onward dirs =>
      have directory := openAt.everywhere directories
      have member := suffix.subset inner
      have opened := openAt.push (directory.nonempty _ (mem_kinds member))
        (child_of_mem directory.named member)
      have before := (Standing.cons openAt suffix below).unread directories
      have after := (below.push openAt (onward.trans suffix) opened).unread directories
      rw [← path, ← stack] at before
      rw [streamCalls_checked checked stack calls]
      refine ⟨kept, ?_, ?_⟩
      · rw [before, path, leftToTour, tourIn_first _ onward dirs] at whole
        simp only [after, leftToTour]
        rw [← whole]
        simp
      · rw [path] at inside
        exact (stillIn_enter log _).trans (congrArg _ inside)
  | leaves checked path stack openAt suffix below nothing =>
      have before := (Standing.cons openAt suffix below).unread directories
      have after := below.unread directories
      rw [← path, ← stack] at before
      rw [streamCalls_checked checked stack calls]
      refine ⟨kept, ?_, ?_⟩
      · rw [before, path, leftToTour, tourIn_eq_nil _ nothing] at whole
        simp only [after, path]
        rw [← whole]
        simp
      · rw [path] at inside
        simp only [path]
        exact stillIn_leave inside

theorem Touring.yields {walk later : Walk} {dev : TreeDevice} {log : List (Passage Text)}
    (touring : Touring tree (walk, log)) (call : NextCall tree walk (.yields dev later)) :
    Touring tree (later, log ++ streamCalls tree walk) := by
  cases call with
  | finds unchecked path openAt device =>
      rw [streamCalls_unchecked unchecked, List.append_nil]
      exact ⟨touring.inStep.looked, touring.whole, touring.inside⟩

/-- When the search ends the tour is over. -/
theorem Touring.ends {walk later : Walk} {log : List (Passage Text)}
    (touring : Touring tree (walk, log)) (call : NextCall tree walk (.ends later)) :
    log ++ streamCalls tree walk = (DirTree.dir tree.root).tour [tree.deviceTreePath] ∧
      stillIn (log ++ streamCalls tree walk) = [] := by
  obtain ⟨rfl, _, path, stack⟩ := call.ended
  have silent : streamCalls tree later = [] := by
    unfold streamCalls
    rw [stack]
  have whole := touring.whole
  have inside := touring.inside
  simp only [path, leftToTour, List.append_nil, pathsTo] at whole inside
  rw [silent, List.append_nil]
  exact ⟨whole, inside⟩

/-- A directory whose `reg` makes it a device, although it is the root or one of its
compatibility strings is no specification. -/
def Stuck (pathStack : List Text) (entries : DirEntries) : Prop :=
  (fileIn entries (text "reg")).isSome ∧
    (pathStack.tail = [] ∨ ¬ Parses (compatibleRead entries))

/-- The search fails in the middle of the tour, with the streams of a directory at
which it cannot look and of those around it. -/
def LeftOpen (tree : DeviceTree) (log : List (Passage Text)) : Prop :=
  ∃ pathStack entries, OpenAt tree pathStack entries ∧ Stuck pathStack entries ∧
    log <+: (DirTree.dir tree.root).tour [tree.deviceTreePath] ∧ stillIn log = pathsTo pathStack

theorem Touring.fails {walk : Walk} {log : List (Passage Text)} (touring : Touring tree (walk, log))
    (stuck : ¬ Looks tree walk) : LeftOpen tree (log ++ streamCalls tree walk) := by
  have whole := touring.whole
  have inside := touring.inside
  obtain ⟨⟨rests, standing⟩, _⟩ := touring.inStep
  simp only at whole inside standing
  have unchecked : walk.topDirCheckedForDev = false := by
    cases checked : walk.topDirCheckedForDev with
    | false => rfl
    | true => exact absurd (fun unchecked => absurd (checked.symm.trans unchecked) (by decide)) stuck
  rw [streamCalls_unchecked unchecked, List.append_nil]
  generalize path : walk.pathStack = pathStack at whole inside standing
  generalize walk.dirStack = dirStack at whole standing
  cases standing with
  | nil =>
      refine absurd (fun _ dir member => ?_) stuck
      rw [path] at member
      cases member
  | @cons pathStack dirStack rests name entries rest openAt suffix below =>
      refine ⟨name :: pathStack, entries, openAt, ?_, ⟨_, whole⟩, inside⟩
      by_contra fine
      refine stuck fun _ dir member => ?_
      rw [path, openAt.top, List.mem_singleton] at member
      subst member
      rw [path]
      unfold Stuck at fine
      cases hasReg : (fileIn entries (text "reg")).isSome with
      | false =>
          have absent : compatibleRead entries = [] := by
            have none : fileIn entries (text "reg") = none :=
              Option.not_isSome_iff_eq_none.mp (ne_true_of_eq_false hasReg)
            rw [compatibleRead, none]
            rfl
          refine ⟨fun known => absurd known Bool.false_ne_true, ?_⟩
          rw [absent]
          exact fun str none => absurd none List.not_mem_nil
      | true =>
          obtain ⟨inner, parses⟩ := not_or.mp fun wrong => fine ⟨hasReg, wrong⟩
          exact ⟨fun _ => inner, not_not.mp parses⟩

/-- A call that does not fail is one of the ways to go on. -/
theorem InStep.goesOn (directories : Everywhere IsDirectory tree.root) {walk : Walk}
    (inStep : InStep tree walk) {result : Round Walk TreeDevice TreeFailure}
    (calls : deviceNextBody tree walk = result) (fine : ∀ failure, result ≠ .fails failure) :
    NextCall tree walk result := by
  subst calls
  refine deviceNextBody_call directories inStep ?_
  by_contra stuck
  obtain ⟨failure, fails⟩ := deviceNextBody_fails directories inStep stuck
  exact fine failure fails

/-- The search opens and closes directories as a tour of the tree does, whatever it
finds, and comes to an end or fails: in the end it has opened each of them once and
closed it once, and when it fails the streams left open are those of the directories
on the path to one at which it cannot look. -/
theorem search_tours (directories : Everywhere IsDirectory tree.root) (fuel : Nat) :
    (HwioBusDevicetree.devicesNoted tree fuel).map unnoted = HwioBusDevicetree.devices tree fuel ∧
      (enoughCalls tree.root ≤ fuel → (HwioBusDevicetree.devicesNoted tree fuel).isSome) ∧
      (∀ devices walk log,
        HwioBusDevicetree.devicesNoted tree fuel = some (.ok (devices, walk, log)) →
          log = (DirTree.dir tree.root).tour [tree.deviceTreePath] ∧ stillIn log = []) ∧
      ∀ failure log, HwioBusDevicetree.devicesNoted tree fuel = some (.error (failure, log)) →
        LeftOpen tree log := by
  have same : (HwioBusDevicetree.devicesNoted tree fuel).map unnoted =
      HwioBusDevicetree.devices tree fuel := drain_noted ..
  refine ⟨same, fun enough => ?_, ?_⟩
  · rw [← Option.isSome_map, same]
    apply @drain_returns _ _ _ (deviceNextBody tree) (InStep tree) (Walk.work tree)
    · intro walk later inStep calls
      obtain ⟨kept, less, _⟩ := (inStep.goesOn directories calls fun _ fails => nomatch fails).again
        directories inStep
      exact ⟨kept, less⟩
    · intro walk later dev inStep calls
      obtain ⟨kept, less, _⟩ := (inStep.goesOn directories calls fun _ fails =>
        nomatch fails).yields inStep
      exact ⟨kept, less⟩
    · exact start_inStep tree
    · exact Nat.lt_of_lt_of_le (start_work directories) enough
  refine @drain_noted_ends _ _ _ _ (streamCalls tree) (deviceNextBody tree)
    (fun walk log => Touring tree (walk, log))
    (fun _ log => log = (DirTree.dir tree.root).tour [tree.deviceTreePath] ∧ stillIn log = [])
    (fun _ log => LeftOpen tree log) ?_ ?_ ?_ ?_ fuel _ _ (start_touring directories)
  · intro walk later log touring calls
    have call := touring.inStep.goesOn directories calls fun _ fails => nomatch fails
    exact touring.again directories calls call
  · intro walk later dev log touring calls
    exact touring.yields (touring.inStep.goesOn directories calls fun _ fails => nomatch fails)
  · intro walk later log touring calls
    exact touring.ends (touring.inStep.goesOn directories calls fun _ fails => nomatch fails)
  · intro walk failure log touring calls
    refine touring.fails fun looks => ?_
    have call := deviceNextBody_call directories touring.inStep looks
    rw [calls] at call
    cases call

/-- The streams of the board: those of its root, of the bridge and of the serial
port. -/
theorem board_toured : ∃ devices walk log,
    HwioBusDevicetree.devicesNoted board 9 = some (.ok (devices, walk, log)) ∧
      log = [.enter [text "/proc/device-tree"], .enter [text "amba", text "/proc/device-tree"],
        .enter [text "serial", text "amba", text "/proc/device-tree"],
        .leave [text "serial", text "amba", text "/proc/device-tree"],
        .leave [text "amba", text "/proc/device-tree"], .leave [text "/proc/device-tree"]] := by
  obtain ⟨same, returns, finished, _⟩ := search_tours board_readable.directories 9
  obtain ⟨result, noted⟩ := Option.isSome_iff_exists.mp (returns (by decide +kernel))
  rw [noted] at same
  rcases result with ⟨failure, log⟩ | ⟨devices, walk, log⟩
  · obtain ⟨last, found, _⟩ := devices_eq board_readable.loadable (show enoughCalls board.root ≤ 9 by
      decide +kernel)
    rw [found] at same
    cases same
  · refine ⟨devices, walk, log, noted, ?_⟩
    rw [(finished devices walk log noted).1]
    rfl

end Hwio
