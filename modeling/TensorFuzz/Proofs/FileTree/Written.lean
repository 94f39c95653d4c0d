import TensorFuzz.FileTree
import TensorFuzz.Proofs.Random.Draws

/-!
# Written files

A file that was written has its content, and a path to another file reads as before. Where a path leads is
seen from the path alone (`Path.destination`); the files of a tree only decide whether it can be followed.
-/

namespace TensorFuzz

/-! ## Where paths lead -/

namespace Path

/-- The place that a name leads to from a place. -/
def follow (place : List String) (name : String) : List String :=
  if name = "." then place else if name = ".." then FileTree.parent place else place ++ [name]

def start (path : Path) : List String := if path.isAbsolute then FileTree.root else []

/-- The names that a path leads to. -/
def destination (path : String) : List String := (ofText path).names.foldl follow (ofText path).start

example : destination "a/./../b" = ["b"] := by decide

theorem eq_of_read {text : String} {path : Path} (h : read text = .ok path) : path = ofText text := by
  unfold read at h
  split at h
  · cases h
  · split at h
    · cases h
    · cases h
      rfl

end Path

namespace FileTree

variable {tree tree' : FileTree} {place place' names others : List String} {name : String} {content content' : ByteArray}

theorem isRelative_eq_true_iff : isRelative name = true ↔ name = "." ∨ name = ".." := by
  simp [isRelative]

/-- A name is entered that stands for a directory, or that is the name of one. -/
theorem enter_eq_ok_iff : tree.enter place name = .ok place' ↔ place' = Path.follow place name ∧ (isRelative name = true ∨
    name.utf8ByteSize ≤ Path.maxNameSize ∧ tree.node? (place ++ [name]) = some .directory) := by
  rw [isRelative_eq_true_iff]
  unfold enter Path.follow
  by_cases hdot : name = "."
  · simp [hdot, eq_comm]
  · by_cases hdots : name = ".."
    · simp [hdots, eq_comm]
    · by_cases hsize : Path.maxNameSize < name.utf8ByteSize
      · simp [hdot, hdots, hsize, Nat.not_le.mpr hsize]
      · cases hnode : tree.node? (place ++ [name]) with
        | none => simp [hdot, hdots, hsize]
        | some node => cases node with
          | file content => simp [hdot, hdots, hsize]
          | directory => simp [hdot, hdots, hsize, Nat.not_lt.mp hsize, eq_comm]

theorem entered_follows {through : List String} (h : through.foldlM tree.enter place = .ok place') :
    place' = through.foldl Path.follow place := by
  induction through generalizing place with
  | nil => cases h; rfl
  | cons name through ih =>
    rw [List.foldlM_cons] at h
    obtain ⟨next, hname, hthrough⟩ := exists_of_bind_ok h
    rw [List.foldl_cons, ← (enter_eq_ok_iff.mp hname).1]
    exact ih hthrough

/-- A path to a name in a directory can be followed up to its last name, which does not stand for a directory. -/
theorem goal_entry {path : Path} (h : tree.goal path = .ok (.entry place name)) :
    path.names.getLast? = some name ∧ path.names.dropLast.foldlM tree.enter path.start = .ok place ∧
      isRelative name = false := by
  unfold goal at h
  split at h
  · split at h
    all_goals cases h
  · next last hlast =>
    obtain ⟨reached, hplace, hreached⟩ := exists_of_bind_ok h
    split at hreached
    · cases hreached
    · next hrelative =>
      cases hreached
      exact ⟨hlast, hplace, Bool.eq_false_iff.mpr hrelative⟩

/-- A path that leads to a name in a directory leads to what the path alone says. -/
theorem goal_destination {path : String} (h : tree.goal (Path.ofText path) = .ok (.entry place name)) :
    Path.destination path = place ++ [name] := by
  obtain ⟨hlast, hplace, hrelative⟩ := goal_entry h
  obtain ⟨before, hnames⟩ := List.getLast?_eq_some_iff.mp hlast
  rw [hnames, List.dropLast_concat] at hplace
  have hname := mt isRelative_eq_true_iff.mpr (Bool.eq_false_iff.mp hrelative)
  rw [not_or] at hname
  rw [Path.destination, hnames, List.foldl_append, ← entered_follows hplace, List.foldl_cons, List.foldl_nil, Path.follow,
    if_neg hname.1, if_neg hname.2]

/-! ## What stays -/

theorem file?_put_of_ne (h : others ≠ names) : (tree.put names content).file? others = tree.file? others := by
  unfold put
  split
  · have hsame : ((·.1 == others) ∘ fun entry : List String × ByteArray => if entry.1 == names then (names, content)
        else entry) = (·.1 == others) := by
      funext entry
      by_cases hentry : entry.1 = names
      · simp [hentry]
      · simp [hentry]
    simp only [file?, List.find?_map, hsame, Option.map_map]
    cases hfind : tree.files.find? (·.1 == others) with
    | none => rfl
    | some entry =>
      have hentry : entry.1 = others := by simpa using List.find?_some hfind
      have hne : entry.1 ≠ names := hentry ▸ h
      simp [hne]
  · simp [file?, List.find?_append, h.symm]

/-- No file is taken away from a tree. -/
theorem exists_put_of_mem (names : List String) (content : ByteArray) {entry : List String × ByteArray}
    (h : entry ∈ tree.files) :
    ∃ entry' ∈ (tree.put names content).files, entry'.1 = entry.1 := by
  unfold put
  split
  · refine ⟨_, List.mem_map_of_mem h, ?_⟩
    split
    · next heq => exact (beq_iff_eq.mp heq).symm
    · rfl
  · exact ⟨entry, List.mem_append_left _ h, rfl⟩

/-- The directories of a tree stay. -/
theorem node?_put_directory (hfree : tree.node? names ≠ some .directory) (h : tree.node? others = some .directory) :
    (tree.put names content).node? others = some .directory := by
  have hne : others ≠ names := fun heq => hfree (heq ▸ h)
  unfold node? at h ⊢
  rw [file?_put_of_ne hne]
  cases hfile : tree.file? others with
  | some content => rw [hfile] at h; cases h
  | none =>
    rw [hfile] at h
    dsimp only at h ⊢
    rw [if_pos]
    split at h
    · next hdirectory =>
      rw [Bool.or_eq_true] at hdirectory ⊢
      refine hdirectory.imp id fun hany => ?_
      obtain ⟨entry, hmem, hprefix⟩ := List.any_eq_true.mp hany
      obtain ⟨entry', hmem', heq⟩ := exists_put_of_mem names content hmem
      exact List.any_eq_true.mpr ⟨entry', hmem', heq ▸ hprefix⟩
    · cases h

theorem enter_put (content : ByteArray) (hfree : tree.node? names ≠ some .directory)
    (h : tree.enter place name = .ok place') :
    (tree.put names content).enter place name = .ok place' := by
  rw [enter_eq_ok_iff] at h ⊢
  exact ⟨h.1, h.2.imp id (And.imp id (node?_put_directory hfree))⟩

theorem entered_put (content : ByteArray) (hfree : tree.node? names ≠ some .directory) {through : List String}
    (h : through.foldlM tree.enter place = .ok place') :
    through.foldlM (tree.put names content).enter place = .ok place' := by
  induction through generalizing place with
  | nil => exact h
  | cons name through ih =>
    rw [List.foldlM_cons] at h ⊢
    obtain ⟨next, hname, hthrough⟩ := exists_of_bind_ok h
    rw [enter_put content hfree hname]
    exact ih hthrough

/-- A path that can be followed in a tree can be followed when another file is put into it. -/
theorem goal_put (hfree : tree.node? names ≠ some .directory) {path : Path} (h : tree.goal path = .ok (.entry place name)) :
    (tree.put names content).goal path = .ok (.entry place name) := by
  obtain ⟨hlast, hplace, hrelative⟩ := goal_entry h
  have hput := entered_put content hfree hplace
  unfold goal
  rw [hlast]
  unfold Path.start at hput
  dsimp only
  rw [hput]
  change (if isRelative name then Except.ok Goal.directory else .ok (.entry place name)) = _
  rw [hrelative]
  rfl

/-! ## Reading and writing -/

/-- The path can be followed to a file, or to where one can be made. -/
structure Reaches (tree : FileTree) (path : String) : Prop where
  isPath : Path.read path = .ok (Path.ofText path)
  endsInName : (Path.ofText path).endsInSlash = false
  ends : ∃ place name, tree.goal (Path.ofText path) = .ok (.entry place name) ∧
    namesOf place name = .ok (Path.destination path)

theorem Reaches.put {path : String} (h : tree.Reaches path) (hfree : tree.node? names ≠ some .directory) :
    (tree.put names content).Reaches path := by
  obtain ⟨place, name, hgoal, hnames⟩ := h.ends
  exact ⟨h.isPath, h.endsInName, place, name, goal_put hfree hgoal, hnames⟩

theorem namesOf_destination {path : String} (hgoal : tree.goal (Path.ofText path) = .ok (.entry place name))
    (h : namesOf place name = .ok names) : names = Path.destination path := by
  unfold namesOf at h
  split at h
  · cases h
  · cases h
    exact (goal_destination hgoal).symm

theorem file?_of_node? (h : tree.node? names = some (.file content)) : tree.file? names = some content := by
  unfold node? at h
  split at h
  · next hfile => cases h; exact hfile
  · split at h
    all_goals cases h

theorem read_of_reaches {path : String} (h : tree.Reaches path) (hfile : tree.file? (Path.destination path) = some content) :
    tree.read path = .ok content := by
  obtain ⟨place, name, hgoal, hnames⟩ := h.ends
  have hnode : tree.node? (Path.destination path) = some (.file content) := by unfold node?; rw [hfile]
  unfold read
  simp only [h.isPath, hgoal, hnames, hnode, h.endsInName, bind, Except.bind, pure, Except.pure]
  rfl

theorem reaches_of_read {path : String} (h : tree.read path = .ok content) :
    tree.Reaches path ∧ tree.file? (Path.destination path) = some content := by
  obtain ⟨parsed, hpath, h⟩ := exists_of_bind_ok h
  obtain rfl := Path.eq_of_read hpath
  obtain ⟨goal, hgoal, h⟩ := exists_of_bind_ok h
  cases goal with
  | directory => cases h
  | entry place name =>
    obtain ⟨names, hnames, h⟩ := exists_of_bind_ok h
    obtain rfl := namesOf_destination hgoal hnames
    split at h
    · cases h
    · cases h
    · next hnode =>
      split at h
      · cases h
      · next hslash =>
        cases h
        exact ⟨⟨hpath, Bool.eq_false_iff.mpr hslash, place, name, hgoal, hnames⟩, file?_of_node? hnode⟩

theorem put_of_write {path : String} (h : tree.write path content = .ok tree') :
    tree.Reaches path ∧ tree.node? (Path.destination path) ≠ some .directory ∧
      tree' = tree.put (Path.destination path) content := by
  obtain ⟨parsed, hpath, h⟩ := exists_of_bind_ok h
  obtain rfl := Path.eq_of_read hpath
  obtain ⟨goal, hgoal, h⟩ := exists_of_bind_ok h
  cases goal with
  | directory => cases h
  | entry place name =>
    dsimp only at h
    split at h
    · cases h
    · next hslash =>
      obtain ⟨names, hnames, h⟩ := exists_of_bind_ok h
      obtain rfl := namesOf_destination hgoal hnames
      split at h
      · cases h
      · next hfree =>
        cases h
        exact ⟨⟨hpath, Bool.eq_false_iff.mpr hslash, place, name, hgoal, hnames⟩, hfree, rfl⟩

/-- A file that was written is read back. -/
theorem read_of_write {path : String} (h : tree.write path content = .ok tree') : tree'.read path = .ok content := by
  obtain ⟨hreaches, hfree, rfl⟩ := put_of_write h
  exact read_of_reaches (hreaches.put hfree) (file?_put_self tree _ content)

/-- A file that another file was written after is read as before. -/
theorem read_of_write_of_ne {path other : String} (hread : tree.read path = .ok content)
    (h : tree.write other content' = .ok tree') (hne : Path.destination path ≠ Path.destination other) :
    tree'.read path = .ok content := by
  obtain ⟨hreaches, hfile⟩ := reaches_of_read hread
  obtain ⟨-, hfree, rfl⟩ := put_of_write h
  exact read_of_reaches (hreaches.put hfree) (by rw [file?_put_of_ne hne, hfile])

end FileTree

end TensorFuzz
