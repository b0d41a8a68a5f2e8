import Mathlib.Data.List.Nodup
import Warp.Foundation.FileTree

/-! # All nodes of a file tree

The nodes below a directory, with the paths that lead to them. If no path is listed twice, these
are exactly the paths where something is seen (`FileTree.Node.mem_nodes_iff`).
-/

namespace FileTree

open List

variable {Data : Type} {Value : Type} {name : Name} {entries : List (Name × Value)} {value : Value}

theorem lookup_eq_some_of_mem (distinct : entries.Pairwise fun first second => first.1 ≠ second.1)
    (member : (name, value) ∈ entries) : entries.lookup name = some value := by
  induction distinct with
  | nil => cases member
  | @cons entry rest apart _ ih =>
    rw [lookup_cons_eq]
    rcases mem_cons.mp member with rfl | later
    · exact if_pos rfl
    · rw [if_neg (apart (name, value) later).symm]
      exact ih later

theorem mem_of_lookup (found : entries.lookup name = some value) : (name, value) ∈ entries := by
  obtain ⟨before, after, rfl, -⟩ := lookup_eq_some_iff.mp found
  simp

namespace Node

/-- Induction over a tree, with a hypothesis for every entry of a directory. -/
theorem entryInduction {motive : Node Data → Prop} (file : ∀ data, motive (.file data))
    (dir : ∀ entries, (∀ entry ∈ entries, motive entry.2) → motive (.dir entries))
    (node : Node Data) : motive node :=
  @Node.rec Data motive (fun entries => ∀ entry ∈ entries, motive entry.2)
    (fun entry => motive entry.2) file dir nofun
    (fun _ _ first rest => forall_mem_cons.mpr ⟨first, rest⟩) (fun _ _ inner => inner) node

mutual

/-- The paths below a node, with what is seen there. -/
def nodes : Node Data → List (List Name × Kind Data)
  | .file _ => []
  | .dir entries => nodesOfEntries entries

def nodesOfEntries : List (Name × Node Data) → List (List Name × Kind Data)
  | [] => []
  | entry :: rest => nodesOfEntry entry ++ nodesOfEntries rest

def nodesOfEntry : Name × Node Data → List (List Name × Kind Data)
  | (name, node) => ([name], node.kind) :: node.nodes.map fun below => (name :: below.1, below.2)

end

/-- The node at a path. -/
def find : Node Data → List Name → Option (Node Data)
  | node, [] => some node
  | .file _, _ :: _ => none
  | .dir entries, name :: rest =>
    match entries.lookup name with
    | none => none
    | some node => node.find rest

/-- No path is listed twice. -/
def Distinct (node : Node Data) : Prop := (node.nodes.map Prod.fst).Nodup deriving Decidable

@[simp] theorem nodes_file (data : Data) : (Node.file data).nodes = [] := by rw [nodes]

theorem nodes_dir (entries : List (Name × Node Data)) :
    (Node.dir entries).nodes = entries.flatMap nodesOfEntry := by
  rw [nodes]
  induction entries with
  | nil => rw [nodesOfEntries]; rfl
  | cons entry rest ih => rw [nodesOfEntries, ih, flatMap_cons]

theorem nodesOfEntry_eq (entry : Name × Node Data) :
    nodesOfEntry entry = ([entry.1], entry.2.kind) ::
      entry.2.nodes.map fun below => (entry.1 :: below.1, below.2) := by
  rw [nodesOfEntry]

theorem find_append (node : Node Data) (path rest : List Name) :
    node.find (path ++ rest) = (node.find path).bind (·.find rest) := by
  induction path generalizing node with
  | nil => cases node <;> rfl
  | cons name others ih =>
    cases node with
    | file data => rfl
    | dir entries =>
      rw [cons_append, find, find]
      cases entries.lookup name with
      | none => rfl
      | some inner => exact ih inner

theorem look_eq_map_find (node : Node Data) (path : List Name) :
    node.look path = (node.find path).map kind := by
  induction path generalizing node with
  | nil => cases node <;> rfl
  | cons name others ih =>
    cases node with
    | file data => rfl
    | dir entries =>
      rw [look, find]
      cases entries.lookup name with
      | none => rfl
      | some inner => exact ih inner

variable {node : Node Data} {path : List Name}

theorem ne_nil_of_mem_nodes {kind : Kind Data} (member : (path, kind) ∈ node.nodes) :
    path ≠ [] := by
  cases node with
  | file data => simp at member
  | dir entries =>
    rw [nodes_dir, mem_flatMap] at member
    obtain ⟨entry, -, inside⟩ := member
    rw [nodesOfEntry_eq, mem_cons, mem_map] at inside
    rintro rfl
    rcases inside with same | ⟨below, -, same⟩
    · cases same
    · cases same

section
variable {entries : List (Name × Node Data)} (distinct : (Node.dir entries).Distinct)
include distinct

theorem Distinct.split : (∀ entry ∈ entries, ((nodesOfEntry entry).map Prod.fst).Nodup) ∧
    entries.Pairwise (Function.onFun List.Disjoint fun entry =>
      (nodesOfEntry entry).map Prod.fst) := by
  unfold Distinct at distinct
  rw [nodes_dir, map_flatMap] at distinct
  exact nodup_flatMap.mp distinct

variable {entry : Name × Node Data}

theorem Distinct.of_mem (member : entry ∈ entries) :
    entry.2.Distinct := by
  have paths := distinct.split.1 entry member
  rw [nodesOfEntry_eq, map_cons, map_map, nodup_cons] at paths
  have below := paths.2
  unfold Distinct
  have prepended : (entry.2.nodes.map Prod.fst).map (entry.1 :: ·) =
      entry.2.nodes.map (Prod.fst ∘ fun below => (entry.1 :: below.1, below.2)) :=
    map_map
  rw [← prepended] at below
  exact below.of_map

theorem Distinct.names : entries.Pairwise fun first second => first.1 ≠ second.1 := by
  refine distinct.split.2.imp fun {first second} apart same => ?_
  have here (entry : Name × Node Data) : [entry.1] ∈ (nodesOfEntry entry).map Prod.fst := by
    rw [nodesOfEntry_eq]
    exact mem_cons_self
  exact apart (here first) (same ▸ here second)

theorem Distinct.find_of_mem (member : entry ∈ entries) :
    (Node.dir entries).find [entry.1] = some entry.2 := by
  rw [find, lookup_eq_some_of_mem distinct.names member]
  cases entry.2 <;> rfl

end

theorem Distinct.of_find {inner : Node Data} (distinct : node.Distinct)
    (found : node.find path = some inner) : inner.Distinct := by
  induction path generalizing node with
  | nil =>
    cases node <;> cases found <;> exact distinct
  | cons name rest ih =>
    cases node with
    | file data => cases found
    | dir entries =>
      rw [find] at found
      cases entry : entries.lookup name with
      | none => simp [entry] at found
      | some next =>
        simp only [entry] at found
        exact ih (distinct.of_mem (mem_of_lookup entry)) found

theorem mem_nodes_iff (distinct : node.Distinct) (path : List Name) (kind : Kind Data) :
    (path, kind) ∈ node.nodes ↔ path ≠ [] ∧ node.look path = some kind := by
  induction node using entryInduction generalizing path with
  | file data =>
    rw [nodes_file]
    refine iff_of_false not_mem_nil ?_
    rintro ⟨named, seen⟩
    cases path with
    | nil => exact named rfl
    | cons name rest => cases seen
  | dir entries ih =>
    rw [nodes_dir, mem_flatMap]
    constructor
    · rintro ⟨entry, member, inside⟩
      rw [nodesOfEntry_eq, mem_cons, mem_map] at inside
      have found := lookup_eq_some_of_mem distinct.names member
      rcases inside with same | ⟨⟨rest, below⟩, listed, same⟩
      · cases same
        refine ⟨cons_ne_nil _ _, ?_⟩
        rw [look_dir_cons, found]
        exact look_nil entry.2
      · cases same
        refine ⟨cons_ne_nil _ _, ?_⟩
        rw [look_dir_cons, found]
        exact ((ih entry member (distinct.of_mem member) rest).mp listed).2
    · rintro ⟨named, seen⟩
      cases path with
      | nil => exact absurd rfl named
      | cons name rest =>
        rw [look_dir_cons] at seen
        obtain ⟨inner, found, below⟩ := Option.bind_eq_some_iff.mp seen
        have member := mem_of_lookup found
        refine ⟨(name, inner), member, ?_⟩
        rw [nodesOfEntry_eq, mem_cons, mem_map]
        cases rest with
        | nil =>
          rw [look_nil] at below
          cases below
          exact .inl rfl
        | cons next others =>
          exact .inr ⟨(next :: others, kind), (ih (name, inner) member
            (distinct.of_mem member) (next :: others)).mpr
            ⟨cons_ne_nil _ _, below⟩, rfl⟩

end Node

end FileTree
