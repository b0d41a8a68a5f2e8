import Mathlib.Data.List.Infix

/-! # Trees of named files

What is seen at a path is a file, a directory or nothing (`FileTree.Node.look`), and each operation
is described by what is seen afterwards at every path: an assignment replaces what lies at and below
one path (`FileTree.Node.look_assign`), and making directories turns the beginnings of a path into
directories (`FileTree.Node.look_mkdirs`). The calls of a file system (`FileTree.Node.write` and the
others) fail as those of an operating system do.
-/

namespace FileTree

open List Option

abbrev Name := List Char

/-- A file, or a directory with its entries in the order in which they are read. -/
inductive Node (Data : Type) where
  | file (data : Data)
  | dir (entries : List (Name × Node Data))

/-- What is seen of a node. -/
inductive Kind (Data : Type) where
  | file (data : Data)
  | dir
  deriving DecidableEq

section Entries
variable {Value : Type} (name query : Name) (entries : List (Name × Value)) (value : Value)

/-- Replace the entry of a name, or add one. -/
def setEntry (value : Value) : List (Name × Value) → List (Name × Value)
  | [] => [(name, value)]
  | (other, old) :: rest =>
    if name = other then (name, value) :: rest else (other, old) :: setEntry value rest

/-- Replace, add or remove an entry. -/
def assignEntry (entries : List (Name × Value)) : Option Value → List (Name × Value)
  | none => entries.filter fun entry => entry.1 ≠ name
  | some value => setEntry name value entries

theorem lookup_cons_eq (rest : List (Name × Value)) :
    ((name, value) :: rest).lookup query =
      if query = name then some value else rest.lookup query := by
  rw [lookup_cons]
  by_cases same : query = name
  · rw [if_pos same, beq_iff_eq.mpr same]
  · rw [if_neg same, beq_eq_false_iff_ne.mpr same]

theorem lookup_setEntry (entries : List (Name × Value)) :
    (setEntry name value entries).lookup query =
      if query = name then some value else entries.lookup query := by
  induction entries with
  | nil => exact lookup_cons_eq name query value []
  | cons entry rest ih =>
    obtain ⟨other, old⟩ := entry
    rw [setEntry]
    by_cases found : name = other
    · subst found
      rw [if_pos rfl, lookup_cons_eq, lookup_cons_eq]
      split_ifs
      · rfl
      · rfl
    · rw [if_neg found, lookup_cons_eq, lookup_cons_eq, ih]
      by_cases same : query = name
      · rw [if_pos same, if_neg (same ▸ found), if_pos same]
      · rw [if_neg same, if_neg same]

theorem lookup_filter_ne :
    (entries.filter fun entry => entry.1 ≠ name).lookup query =
      if query = name then none else entries.lookup query := by
  induction entries with
  | nil => rw [filter_nil, lookup_nil, ite_self]
  | cons entry rest ih =>
    obtain ⟨other, value⟩ := entry
    rw [lookup_cons_eq]
    by_cases dropped : other = name
    · rw [filter_cons_of_neg (by simpa using dropped), ih]
      by_cases same : query = name
      · rw [if_pos same, if_pos same]
      · rw [if_neg same, if_neg same, if_neg (dropped ▸ same)]
    · rw [filter_cons_of_pos (by simpa using dropped), lookup_cons_eq, ih]
      by_cases same : query = name
      · rw [if_pos same, if_pos same, if_neg (same ▸ Ne.symm dropped)]
      · rw [if_neg same, if_neg same]

theorem lookup_assignEntry (new : Option Value) :
    (assignEntry name entries new).lookup query =
      if query = name then new else entries.lookup query := by
  cases new with
  | none => exact lookup_filter_ne name query entries
  | some value => exact lookup_setEntry name query value entries

end Entries

variable {path : List Name}

namespace Node

variable {Data : Type}

def kind : Node Data → Kind Data
  | .file data => .file data
  | .dir _ => .dir

/-- What is seen at a path. -/
def look : Node Data → List Name → Option (Kind Data)
  | node, [] => some node.kind
  | .file _, _ :: _ => none
  | .dir entries, name :: rest =>
    match entries.lookup name with
    | none => none
    | some node => node.look rest

/-- Replace what lies at a path, if its parent is a directory. The root stays. -/
def assign (new : Option (Node Data)) : Node Data → List Name → Node Data
  | .dir entries, [name] => .dir (assignEntry name entries new)
  | .dir entries, name :: next :: rest =>
    match entries.lookup name with
    | none => .dir entries
    | some node => .dir (setEntry name (node.assign new (next :: rest)) entries)
  | node, _ => node

/-- Make directories along a path, unless there is a file in the way. -/
def mkdirs : Node Data → List Name → Option (Node Data)
  | .file _, _ => none
  | .dir entries, [] => some (.dir entries)
  | .dir entries, name :: rest =>
    match ((entries.lookup name).getD (.dir [])).mkdirs rest with
    | none => none
    | some inner => some (.dir (setEntry name inner entries))

variable (root : Node Data) (entries : List (Name × Node Data))

@[simp] theorem look_nil : root.look [] = some root.kind := by
  cases root with
  | file data => rfl
  | dir entries => rfl

theorem look_dir_cons (name : Name) (rest : List Name) :
    (Node.dir entries).look (name :: rest) = (entries.lookup name).bind (·.look rest) := by
  rw [look]
  cases entries.lookup name with
  | none => rfl
  | some node => rfl

variable {root} {kind : Kind Data} {after : Node Data} (new : Option (Node Data))
  {front : List Name}

theorem look_dir_assignEntry (name query : Name) (rest : List Name) :
    (Node.dir (assignEntry name entries new)).look (query :: rest) =
      if query = name then new.bind (·.look rest) else (Node.dir entries).look (query :: rest) := by
  rw [look_dir_cons, look_dir_cons, lookup_assignEntry]
  split_ifs
  · rfl
  · rfl

theorem exists_of_look_cons {name : Name} {rest : List Name}
    (seen : root.look (name :: rest) = some kind) :
    ∃ entries node, root = .dir entries ∧ entries.lookup name = some node ∧
      node.look rest = some kind := by
  cases root with
  | file data => cases seen
  | dir entries =>
    rw [look_dir_cons] at seen
    obtain ⟨node, found, below⟩ := bind_eq_some_iff.mp seen
    exact ⟨entries, node, rfl, found, below⟩

theorem look_assign (query : List Name) (parent : root.look path.dropLast = some .dir)
    (named : path ≠ []) :
    (root.assign new path).look query =
      if path <+: query then new.bind (·.look (query.drop path.length)) else root.look query := by
  induction path generalizing root query with
  | nil => exact absurd rfl named
  | cons name rest ih =>
    cases rest with
    | nil =>
      cases root with
      | file data => cases parent
      | dir entries =>
        cases query with
        | nil => rfl
        | cons first others =>
          rw [assign, look_dir_assignEntry]
          simp only [cons_prefix_cons, List.nil_prefix, and_true, eq_comm]
          rfl
    | cons next others =>
      rw [dropLast_cons_of_ne_nil (cons_ne_nil _ _)] at parent
      obtain ⟨entries, node, rfl, found, below⟩ := exists_of_look_cons parent
      have inner := fun query => ih query below (cons_ne_nil _ _)
      cases query with
      | nil =>
        simp only [assign, found]
        rfl
      | cons first deeper =>
        have written := look_dir_assignEntry entries
          (some (node.assign new (next :: others))) name first deeper
        simp only [assign, found]
        rw [assignEntry] at written
        rw [written]
        by_cases same : first = name
        · subst same
          rw [if_pos rfl, bind_some, inner, look_dir_cons, found, bind_some]
          simp
        · rw [if_neg same, if_neg]
          exact fun below => same (cons_prefix_cons.mp below).1.symm

theorem look_mkdirs (made : root.mkdirs path = some after) (query : List Name) :
    after.look query = if query <+: path then some .dir else root.look query := by
  induction path generalizing root after query with
  | nil =>
    cases root with
    | file data => cases made
    | dir entries =>
      cases made
      cases query with
      | nil => rfl
      | cons first others => rw [if_neg (by simp)]
  | cons name rest ih =>
    cases root with
    | file data => cases made
    | dir entries =>
      rw [mkdirs] at made
      cases found : ((entries.lookup name).getD (.dir [])).mkdirs rest with
      | none => simp [found] at made
      | some inner =>
        simp only [found, some.injEq] at made
        subst made
        cases query with
        | nil => rfl
        | cons first others =>
          have written := look_dir_assignEntry entries (some inner) name first others
          rw [assignEntry] at written
          rw [written]
          by_cases same : first = name
          · subst same
            rw [if_pos rfl, bind_some, ih found]
            simp only [cons_prefix_cons, true_and]
            split_ifs with beginning
            · rfl
            · rw [look_dir_cons]
              cases entries.lookup first with
              | some node => rfl
              | none =>
                cases others with
                | nil => exact absurd List.nil_prefix beginning
                | cons _ _ => rfl
          · rw [if_neg same, if_neg]
            exact fun below => same (cons_prefix_cons.mp below).1

theorem look_ne_file_of_mkdirs (made : root.mkdirs path = some after) (beginning : front <+: path)
    (data : Data) : root.look front ≠ some (.file data) := by
  induction path generalizing root after front with
  | nil =>
    cases root with
    | file _ => cases made
    | dir entries => rw [prefix_nil.mp beginning]; nofun
  | cons name rest ih =>
    cases root with
    | file _ => cases made
    | dir entries =>
      cases front with
      | nil => nofun
      | cons first others =>
        obtain ⟨rfl, deeper⟩ := cons_prefix_cons.mp beginning
        rw [look_dir_cons]
        cases found : entries.lookup first with
        | none => nofun
        | some node =>
          rw [mkdirs, found] at made
          cases inner : node.mkdirs rest with
          | none => simp [inner] at made
          | some _ => exact ih inner deeper

theorem look_eq_none_of_below {query : List Name} (noDir : root.look path ≠ some .dir)
    (below : path <+: query) (different : query ≠ path) : root.look query = none := by
  induction path generalizing root query with
  | nil =>
    cases query with
    | nil => exact absurd rfl different
    | cons first others =>
      cases root with
      | file data => rfl
      | dir entries => exact absurd rfl noDir
  | cons name rest ih =>
    cases query with
    | nil => exact absurd (prefix_nil.mp below) (cons_ne_nil _ _)
    | cons first others =>
      obtain ⟨rfl, deeper⟩ := cons_prefix_cons.mp below
      cases root with
      | file data => rfl
      | dir entries =>
        rw [look_dir_cons] at noDir ⊢
        cases found : entries.lookup name with
        | none => rfl
        | some node =>
          rw [found] at noDir
          exact ih noDir deeper fun same => different (congrArg (name :: ·) same)

theorem look_eq_none_of_parent (named : path ≠ []) (noDir : root.look path.dropLast ≠ some .dir) :
    root.look path = none := by
  refine look_eq_none_of_below noDir (List.dropLast_prefix path) fun same => named ?_
  have short := congrArg List.length same
  rw [length_dropLast] at short
  exact length_eq_zero_iff.mp (by omega)

theorem look_eq_dir_of_below (seen : root.look path = some kind) (below : front <+: path)
    (different : front ≠ path) :
    root.look front = some .dir := by
  by_contra noDir
  rw [look_eq_none_of_below noDir below different.symm] at seen
  cases seen

theorem look_dropLast (seen : root.look path = some kind) (named : path ≠ []) :
    root.look path.dropLast = some .dir := by
  by_contra noDir
  rw [look_eq_none_of_parent named noDir] at seen
  cases seen

end Node

/-- Why a call fails. -/
inductive IoError where
  | notFound
  | notADirectory
  | isADirectory
  deriving DecidableEq

/-- Where a path leads, and whether it ends like the path of a directory. -/
structure Target where
  names : List Name
  slash : Bool
  deriving DecidableEq

namespace Node

variable {Data : Type}

/-- Why nothing is found at a path. -/
def missing : Node Data → List Name → IoError
  | _, [] => .notFound
  | .file _, _ :: _ => .notADirectory
  | .dir entries, name :: rest =>
    match entries.lookup name with
    | none => .notFound
    | some node => node.missing rest

variable (root : Node Data) (target : Target)

def exists? : Bool :=
  match root.look target.names with
  | none => false
  | some (.file _) => !target.slash
  | some .dir => true

def read : Except IoError Data :=
  match root.look target.names with
  | some (.file data) => if target.slash then .error .notADirectory else .ok data
  | some .dir => .error .isADirectory
  | none => .error (root.missing target.names)

/-- Write a file, which may be there already. -/
def write (data : Data) : Except IoError (Node Data) :=
  match root.look target.names, root.look target.names.dropLast with
  | some .dir, _ => .error .isADirectory
  | _, some .dir =>
    if target.slash then .error .isADirectory
    else .ok (root.assign (some (.file data)) target.names)
  | _, _ => .error (root.missing target.names)

/-- Move a file to a place where there may be another one. -/
def rename (destination : Target) : Except IoError (Node Data) :=
  match root.read target with
  | .error failure => .error failure
  | .ok data =>
    if target.names = destination.names then
      if destination.slash then .error .notADirectory else .ok root
    else (root.assign none target.names).write destination data

def removeFile : Except IoError (Node Data) :=
  match root.read target with
  | .error failure => .error failure
  | .ok _ => .ok (root.assign none target.names)

/-- Remove a directory with all that is in it. -/
def removeDirAll : Except IoError (Node Data) :=
  match root.look target.names with
  | some .dir => .ok (root.assign none target.names)
  | some (.file _) => .error .notADirectory
  | none => .error (root.missing target.names)

/-- Make a directory and those above it. -/
def createDirAll : Except IoError (Node Data) :=
  match root.mkdirs target.names with
  | none => .error .notADirectory
  | some after => .ok after

variable {root : Node Data} {target : Target} {after : Node Data} {data : Data}

theorem missing_eq_notFound
    (noFile : ∀ front, front <+: path → front ≠ path → ∀ data, root.look front ≠ some (.file data)) :
    root.missing path = .notFound := by
  induction path generalizing root with
  | nil => rw [missing]
  | cons name rest ih =>
    cases root with
    | file data => exact absurd rfl (noFile [] List.nil_prefix (cons_ne_nil _ _).symm data)
    | dir entries =>
      rw [missing]
      cases found : entries.lookup name with
      | none => rfl
      | some node =>
        refine ih fun front below different data seen => ?_
        refine noFile (name :: front) (cons_prefix_cons.mpr ⟨rfl, below⟩)
          (fun same => different (List.cons.inj same).2) data ?_
        rw [look_dir_cons, found]
        exact seen

theorem read_eq_ok_iff :
    root.read target = .ok data ↔
      root.look target.names = some (.file data) ∧ target.slash = false := by
  unfold read
  rcases root.look target.names with _ | _ | _
  · simp
  · cases target.slash
    · simp
    · simp
  · simp

section
variable {data : Data} (written : root.write target data = .ok after)
include written

theorem names_ne_nil_of_write : target.names ≠ [] := by
  intro empty
  unfold write at written
  rw [empty, dropLast_nil, look_nil] at written
  cases root with
  | file _ => cases written
  | dir _ => cases written

theorem write_cases :
    root.look target.names ≠ some .dir ∧ root.look target.names.dropLast = some .dir ∧
      root.assign (some (.file data)) target.names = after := by
  unfold write at written
  split at written
  · cases written
  · next parent noDir =>
    split_ifs at written
    exact ⟨noDir, parent, Except.ok.inj written⟩
  · cases written

theorem look_write (query : List Name) :
    after.look query = if query = target.names then some (.file data) else root.look query := by
  have named := names_ne_nil_of_write written
  obtain ⟨noDir, parent, rfl⟩ := write_cases written
  rw [look_assign _ query parent named]
  by_cases same : query = target.names
  · rw [if_pos same, same, if_pos prefix_rfl, drop_length]
    rfl
  · rw [if_neg same]
    split_ifs with below
    · rw [look_eq_none_of_below noDir below same]
      obtain ⟨rest, rfl⟩ := below
      rw [drop_left]
      cases rest with
      | nil => exact absurd (append_nil _) same
      | cons _ _ => rfl
    · rfl

end

theorem look_assign_none_of_file (seen : root.look path = some (.file data)) (named : path ≠ [])
    (query : List Name) :
    (root.assign none path).look query = if query = path then none else root.look query := by
  have noDir : root.look path ≠ some .dir := by simp [seen]
  rw [look_assign _ query (look_dropLast seen named) named]
  by_cases same : query = path
  · rw [if_pos same, same, if_pos prefix_rfl]
    rfl
  · rw [if_neg same]
    split_ifs with below
    · exact (look_eq_none_of_below noDir below same).symm
    · rfl

section
variable (named : target.names ≠ [])
include named

/-- A file that is moved is seen in its new place, and no longer in the old one. -/
theorem look_rename {destination : Target} (renamed : root.rename target destination = .ok after) :
    ∃ data, root.look target.names = some (.file data) ∧ ∀ query, after.look query =
      if query = destination.names then some (.file data)
      else if query = target.names then none else root.look query := by
  unfold rename at renamed
  cases found : root.read target with
  | error failure => simp [found] at renamed
  | ok data =>
    have seen := (read_eq_ok_iff.mp found).1
    refine ⟨data, seen, fun query => ?_⟩
    simp only [found] at renamed
    split_ifs at renamed with same
    · cases renamed
      rw [← same]
      split_ifs with atSource
      · rw [atSource, seen]
      · rfl
    · rw [look_write renamed, look_assign_none_of_file seen named]

theorem look_removeFile (removed : root.removeFile target = .ok after) :
    (∃ data, root.look target.names = some (.file data)) ∧ ∀ query, after.look query =
      if query = target.names then none else root.look query := by
  unfold removeFile at removed
  cases found : root.read target with
  | error failure => simp [found] at removed
  | ok data =>
    have seen := (read_eq_ok_iff.mp found).1
    simp only [found, Except.ok.injEq] at removed
    exact ⟨⟨data, seen⟩, fun query => removed ▸ look_assign_none_of_file seen named query⟩

theorem look_removeDirAll (removed : root.removeDirAll target = .ok after) (query : List Name) :
    after.look query = if target.names <+: query then none else root.look query := by
  unfold removeDirAll at removed
  split at removed
  · next seen =>
    cases removed
    exact look_assign none query (look_dropLast seen named) named
  · cases removed
  · cases removed

end

theorem mkdirs_of_createDirAll (made : root.createDirAll target = .ok after) :
    root.mkdirs target.names = some after := by
  unfold createDirAll at made
  split at made
  · cases made
  · next found => exact Except.ok.inj made ▸ found

theorem look_createDirAll (made : root.createDirAll target = .ok after) (query : List Name) :
    after.look query = if query <+: target.names then some .dir else root.look query :=
  look_mkdirs (mkdirs_of_createDirAll made) query

end Node

end FileTree
