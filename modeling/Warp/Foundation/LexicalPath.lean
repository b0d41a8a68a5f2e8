import Mathlib.Algebra.Order.BigOperators.Group.List
import Mathlib.Algebra.Order.Group.Nat
import Mathlib.Data.List.Infix

/-! # Unix paths and where they lead

Joining and taking the parent are operations on the text of a path; where it leads is found by
walking its components, without a file system (`LexicalPath.locate`). Joining a relative path
continues the walk from the base (`LexicalPath.locate_join`). A walk that never climbs above its
start stays under it (`LexicalPath.under_walk`), and one that climbs leaves every directory whose
name does not occur in it (`LexicalPath.not_mem_walk_of_climbs`).
-/

namespace LexicalPath

open List Option

abbrev Path := List Char

inductive Component where
  | rootDir
  | curDir
  | parentDir
  | normal (name : List Char)
  deriving DecidableEq

def isAbsolute (path : Path) : Bool := path.head? = some '/'

/-- The texts between slashes, except for empty ones and single dots. -/
def parts (path : Path) : List (List Char) :=
  (path.splitOnP (· == '/')).filter fun part => part ≠ [] ∧ part ≠ ['.']

/-- The component a part stands for. -/
def ofPart (part : List Char) : Component :=
  if part = ['.', '.'] then .parentDir else .normal part

/-- The component of a root, or of a dot at the start. -/
def lead (path : Path) : List Component :=
  if isAbsolute path then [.rootDir]
  else if (path.splitOnP (· == '/')).head? = some ['.'] then [.curDir]
  else []

def components (path : Path) : List Component := lead path ++ (parts path).map ofPart

/-- The path without its last component, if there is one that can be dropped. -/
def parent (path : List Component) : Option (List Component) :=
  match path.getLast? with
  | none => none
  | some .rootDir => none
  | some _ => some path.dropLast

/-- Append a path to a base; an absolute path replaces it. -/
def join (base path : Path) : Path :=
  if isAbsolute path then path
  else if base = [] ∨ base.getLast? = some '/' then base ++ path
  else base ++ '/' :: path

/-- Where a path leads: from the root or from a number of levels above the working
directory, down through some names. -/
structure Location where
  absolute : Bool
  ups : ℕ
  names : List (List Char)
  deriving DecidableEq

/-- Follow one component. The root is its own parent. -/
def Location.step (location : Location) : Component → Location
  | .rootDir => ⟨true, 0, []⟩
  | .curDir => location
  | .parentDir =>
    if location.names ≠ [] then { location with names := location.names.dropLast }
    else if location.absolute then location
    else { location with ups := location.ups + 1 }
  | .normal name => { location with names := location.names ++ [name] }

/-- Follow components one after the other. -/
def walk (start : Location) (path : List Component) : Location := path.foldl Location.step start

/-- Where components lead from the working directory. -/
def locate (path : List Component) : Location := walk ⟨false, 0, []⟩ path

/-- A location is another one or lies under it. -/
def Under (outer inner : Location) : Prop :=
  inner.absolute = outer.absolute ∧ inner.ups = outer.ups ∧ outer.names <+: inner.names
  deriving Decidable

/-- A walk that starts some levels deep never climbs above level zero. -/
def staysBelow : ℕ → List Component → Bool
  | _, [] => true
  | _, .rootDir :: _ => false
  | depth, .curDir :: rest => staysBelow depth rest
  | 0, .parentDir :: _ => false
  | depth + 1, .parentDir :: rest => staysBelow depth rest
  | depth, .normal _ :: rest => staysBelow (depth + 1) rest

section Walks

theorem walk_append (start : Location) (first second : List Component) :
    walk start (first ++ second) = walk (walk start first) second := List.foldl_append

theorem step_parentDir_concat (absolute : Bool) (ups : ℕ) (names : List (List Char))
    (last : List Char) :
    Location.step ⟨absolute, ups, names ++ [last]⟩ .parentDir = ⟨absolute, ups, names⟩ := by
  rw [Location.step, if_pos (append_ne_nil_of_right_ne_nil _ (cons_ne_nil _ _)), dropLast_concat]

variable {path : List Component} (extra : List (List Char)) {fresh : List Char}

/-- A walk that does not climb above a base acts on what lies below it. -/
theorem walk_below (stays : staysBelow extra.length path = true) (base : Location) :
    walk { base with names := base.names ++ extra } path =
      { base with names := base.names ++ (walk ⟨false, 0, extra⟩ path).names } := by
  induction path generalizing extra with
  | nil => rfl
  | cons component rest ih =>
    cases component with
    | rootDir => cases stays
    | curDir => exact ih extra stays
    | normal name =>
      rw [staysBelow, ← length_concat (a := name), concat_eq_append] at stays
      have deeper := ih (extra ++ [name]) stays
      rw [← append_assoc] at deeper
      exact deeper
    | parentDir =>
      cases extra using List.reverseRecOn with
      | nil => cases stays
      | append_singleton inner last =>
        rw [length_append, length_singleton] at stays
        change walk (Location.step _ .parentDir) rest =
          { base with names := base.names ++ (walk (Location.step _ .parentDir) rest).names }
        rw [← append_assoc, step_parentDir_concat, step_parentDir_concat]
        exact ih inner stays

theorem under_walk {base : Location} (stays : staysBelow 0 path = true) :
    Under base (walk base path) := by
  have below := walk_below [] stays base
  rw [append_nil] at below
  rw [below]
  exact ⟨rfl, rfl, prefix_append _ _⟩

theorem walk_eq_of_climbs (relative : .rootDir ∉ path)
    (climbs : staysBelow extra.length path = false) (base : Location) (first second : List Char) :
    walk { base with names := base.names ++ first :: extra } path =
      walk { base with names := base.names ++ second :: extra } path := by
  induction path generalizing extra with
  | nil => cases climbs
  | cons component rest ih =>
    have later : .rootDir ∉ rest := fun member => relative (mem_cons_of_mem _ member)
    cases component with
    | rootDir => exact absurd mem_cons_self relative
    | curDir => exact ih extra later climbs
    | normal name =>
      rw [staysBelow, ← length_concat (a := name), concat_eq_append] at climbs
      have deeper := ih (extra ++ [name]) later climbs
      rw [← cons_append, ← cons_append, ← append_assoc, ← append_assoc] at deeper
      exact deeper
    | parentDir =>
      change walk (Location.step _ .parentDir) rest = walk (Location.step _ .parentDir) rest
      cases extra using List.reverseRecOn with
      | nil => rw [step_parentDir_concat, step_parentDir_concat]
      | append_singleton inner last =>
        rw [length_append, length_singleton] at climbs
        rw [← cons_append, ← cons_append, ← append_assoc,
          ← append_assoc, step_parentDir_concat, step_parentDir_concat]
        exact ih inner later climbs

theorem not_mem_names_walk (new : .normal fresh ∉ path) {location : Location}
    (absent : fresh ∉ location.names) :
    fresh ∉ (walk location path).names := by
  induction path generalizing location with
  | nil => exact absent
  | cons component rest ih =>
    rw [mem_cons, not_or] at new
    apply ih new.2
    cases component with
    | rootDir => exact not_mem_nil
    | curDir => exact absent
    | normal name =>
      simp only [Location.step, mem_append, mem_singleton, not_or]
      exact ⟨absent, fun same => new.1 (congrArg Component.normal same)⟩
    | parentDir =>
      unfold Location.step
      dsimp only
      split_ifs
      · exact fun member => absent (mem_of_mem_dropLast member)
      · exact absent
      · exact absent

/-- A walk that climbs above a directory does not come back to it. -/
theorem not_mem_walk_of_climbs (relative : .rootDir ∉ path) (new : .normal fresh ∉ path)
    (climbs : staysBelow 0 path = false) (base : Location) (outside : fresh ∉ base.names) :
    fresh ∉ (walk { base with names := base.names ++ [fresh] } path).names := by
  rw [walk_eq_of_climbs [] relative climbs base fresh ('a' :: fresh)]
  refine not_mem_names_walk new ?_
  simp [outside]

end Walks

section Joins

/-- Where the walk of a path starts. -/
def origin (path : Path) : Location := ⟨isAbsolute path, 0, []⟩

theorem locate_lead_append (path : Path) (rest : List Component) :
    locate (lead path ++ rest) = walk (origin path) rest := by
  rw [locate, walk_append]
  congr 1
  unfold lead origin
  split_ifs with absolute dot
  · rw [absolute]
    rfl
  · rw [Bool.eq_false_iff.mpr absolute]
    rfl
  · rw [Bool.eq_false_iff.mpr absolute]
    rfl

theorem locate_components (path : Path) :
    locate (components path) = walk (origin path) ((parts path).map ofPart) :=
  locate_lead_append path _

theorem parts_append_slash (first second : Path) :
    parts (first ++ '/' :: second) = parts first ++ parts second := by
  unfold parts
  rw [splitOnP_append_cons (p := (· == '/')) first second rfl, filter_append]

variable {base path : Path} (relative : isAbsolute path = false)
include relative in
theorem parts_join : parts (join base path) = parts base ++ parts path := by
  unfold join
  rw [if_neg (by simp [relative])]
  split_ifs with ends
  · rcases ends with rfl | slash
    · rfl
    · obtain ⟨front, rfl⟩ := List.getLast?_eq_some_iff.mp slash
      have closed : parts (front ++ ['/']) = parts front :=
        (parts_append_slash front []).trans (append_nil _)
      rw [append_assoc, singleton_append, parts_append_slash, closed]
  · exact parts_append_slash base path

include relative in
theorem isAbsolute_join : isAbsolute (join base path) = isAbsolute base := by
  unfold join
  rw [if_neg (by simp [relative])]
  cases base with
  | nil =>
    rw [if_pos (Or.inl rfl)]
    exact relative
  | cons first rest => split_ifs <;> rfl

include relative in
theorem locate_join : locate (components (join base path)) =
    walk (locate (components base)) ((parts path).map ofPart) := by
  rw [locate_components, locate_components, origin, isAbsolute_join relative,
    parts_join relative, map_append, walk_append, origin]

end Joins

variable {base : Path} {name : List Char} {last : Char} {path : Path} {names : List (List Char)}
  {ending : Path}

section Containment

/-- A relative path that never climbs above its start. -/
def Contained (path : Path) : Prop :=
  isAbsolute path = false ∧ staysBelow 0 ((parts path).map ofPart)

/-- A relative path that names something, the directory of which never climbs above
its start; or the root, which has no parent. -/
def ParentContained (path : Path) : Prop :=
  if isAbsolute path then parts path = []
  else parts path ≠ [] ∧ staysBelow 0 ((parts path).dropLast.map ofPart)

variable (names : List (List Char))

theorem rootDir_not_mem_map_ofPart : .rootDir ∉ names.map ofPart := by
  intro member
  obtain ⟨name, -, root⟩ := mem_map.mp member
  unfold ofPart at root
  split_ifs at root

theorem absolute_walk_parts (location : Location) (names : List (List Char)) :
    (walk location (names.map ofPart)).absolute = location.absolute := by
  induction names generalizing location with
  | nil => rfl
  | cons name rest ih =>
    refine (ih _).trans ?_
    unfold ofPart
    split_ifs
    · unfold Location.step
      dsimp only
      split_ifs <;> rfl
    · rfl

theorem locate_letters (count : ℕ) : locate (components (List.replicate (count + 1) 'a')) =
    ⟨false, 0, [List.replicate (count + 1) 'a']⟩ := by
  have single : parts (List.replicate (count + 1) 'a') = [List.replicate (count + 1) 'a'] := by
    have whole : (List.replicate (count + 1) 'a').splitOnP (· == '/') =
        [List.replicate (count + 1) 'a'] :=
      splitOnP_eq_singleton fun letter member => by
        rw [eq_of_mem_replicate member]
        rfl
    rw [parts, whole]
    exact filter_cons_of_pos (by simp [replicate_succ])
  have normal : ofPart (List.replicate (count + 1) 'a') =
      .normal (List.replicate (count + 1) 'a') := if_neg (by simp [replicate_succ])
  rw [locate_components, single, map_singleton, normal, origin]
  rfl

theorem exists_fresh (used : List (List Char)) :
    ∃ base : Path, .normal base ∉ used.map ofPart ∧
      locate (components base) = ⟨false, 0, [base]⟩ := by
  -- more letters than in any name that is used
  refine ⟨List.replicate ((used.map List.length).sum + 1) 'a', fun member => ?_,
    locate_letters _⟩
  obtain ⟨part, listed, same⟩ := mem_map.mp member
  have whole : part = List.replicate ((used.map List.length).sum + 1) 'a' := by
    unfold ofPart at same
    split_ifs at same
    exact Component.normal.inj same
  have short := le_sum_of_mem (mem_map_of_mem (f := List.length) listed)
  rw [whole, length_replicate] at short
  exact absurd short (Nat.not_succ_le_self _)

theorem not_under_of_absolute (relative : isAbsolute base = false)
    (absolute : isAbsolute path = true) :
    ¬Under (locate (components base)) (walk (origin path) (names.map ofPart)) := by
  rintro ⟨same, -, -⟩
  rw [absolute_walk_parts, locate_components, absolute_walk_parts, origin, origin, absolute,
    relative] at same
  cases same

/-- A walk stays under every directory it starts from exactly if it never climbs. -/
theorem under_walk_iff :
    (∀ base, Under (locate (components base))
      (walk (locate (components base)) (names.map ofPart))) ↔
      staysBelow 0 (names.map ofPart) := by
  constructor
  · intro under
    by_contra climbs
    obtain ⟨base, new, place⟩ := exists_fresh names
    have inside := (under base).2.2
    rw [place] at inside
    exact not_mem_walk_of_climbs (rootDir_not_mem_map_ofPart names) new
      (Bool.eq_false_iff.mpr climbs) ⟨false, 0, []⟩ not_mem_nil
      (inside.subset mem_cons_self)
  · intro stays base
    exact under_walk stays

/-- A path leads under every base it is joined to exactly if it is contained. -/
theorem under_join_iff (path : Path) :
    (∀ base, Under (locate (components base)) (locate (components (join base path)))) ↔
      Contained path := by
  unfold Contained
  cases absolute : isAbsolute path with
  | true =>
    refine iff_of_false (fun under => ?_) (by simp)
    have replaced := under ['a']
    rw [join, if_pos absolute, locate_components path] at replaced
    exact not_under_of_absolute _ rfl absolute replaced
  | false => simp only [locate_join absolute, under_walk_iff, true_and]

theorem parent_components (named : parts path ≠ []) :
    parent (components path) = some (lead path ++ (parts path).dropLast.map ofPart) := by
  obtain ⟨front, last, parted⟩ := (eq_nil_or_concat (parts path)).resolve_left named
  have droppable : ofPart last ≠ .rootDir := by
    unfold ofPart
    split_ifs <;> simp
  unfold parent components
  rw [parted, concat_eq_append, map_append, map_singleton, ← append_assoc,
    getLast?_concat, dropLast_concat, dropLast_concat]
  cases dropped : ofPart last with
  | rootDir => exact absurd dropped droppable
  | curDir => rfl
  | parentDir => rfl
  | normal name => rfl

theorem parent_join (relative : isAbsolute path = false) (named : parts path ≠ []) (base : Path) :
    ∃ dir, parent (components (join base path)) = some dir ∧
      locate dir = walk (locate (components base)) ((parts path).dropLast.map ofPart) ∧
      (dir = [] → (parts path).dropLast = []) := by
  have joined : parts (join base path) = parts base ++ parts path := parts_join relative
  refine ⟨_, parent_components (by simp [joined, named]), ?_, ?_⟩
  · rw [locate_lead_append, joined, dropLast_append_of_ne_nil named, map_append,
      walk_append, origin, isAbsolute_join relative, locate_components, origin]
  · rw [joined, dropLast_append_of_ne_nil named]
    intro empty
    simp only [append_eq_nil_iff, map_eq_nil_iff] at empty
    exact empty.2.2

/-- The parent of a path, unless empty, leads under every base the path is joined to
exactly if it is contained. -/
theorem under_parent_join_iff (path : Path) :
    (∀ base dir, parent (components (join base path)) = some dir → dir ≠ [] →
      Under (locate (components base)) (locate dir)) ↔ ParentContained path := by
  unfold ParentContained
  cases absolute : isAbsolute path with
  | true =>
    simp only [join, if_pos absolute, ↓reduceIte]
    constructor
    · intro under
      by_contra named
      have inside := under ['a'] _ (parent_components named) (by simp [lead, absolute])
      rw [locate_lead_append] at inside
      exact not_under_of_absolute _ rfl absolute inside
    · intro root base dir isParent
      rw [components, root, lead, if_pos absolute] at isParent
      cases isParent
  | false =>
    rw [if_neg Bool.false_ne_true, ← under_walk_iff]
    constructor
    · intro under
      have named : parts path ≠ [] := by
        -- otherwise it is the parent of the base
        intro empty
        have joined : parts (join ['a', '/', 'b'] path) = [['a'], ['b']] := by
          rw [parts_join absolute, empty]
          rfl
        have inside := under ['a', '/', 'b'] _ (parent_components (by simp [joined]))
          (by simp [joined])
        rw [locate_lead_append, joined, origin, isAbsolute_join absolute] at inside
        exact absurd inside (by decide)
      refine ⟨named, fun base => ?_⟩
      obtain ⟨dir, isParent, place, emptyOnly⟩ := parent_join absolute named base
      by_cases empty : dir = []
      · rw [emptyOnly empty]
        exact ⟨rfl, rfl, prefix_rfl⟩
      · exact place ▸ under base dir isParent empty
    · rintro ⟨named, under⟩ base dir isParent -
      obtain ⟨other, isOther, place, -⟩ := parent_join absolute named base
      obtain rfl := some.inj (isOther.symm.trans isParent)
      exact place ▸ under base

end Containment

theorem exists_splitOnP (path : Path) :
    ∃ first rest, path.splitOnP (· == '/') = first :: rest ∧ first <+: path ∧
      ∀ part ∈ rest, part <:+: path := by
  induction path with
  | nil => exact ⟨[], [], rfl, prefix_rfl, fun _ member => absurd member not_mem_nil⟩
  | cons character path ih =>
    obtain ⟨first, rest, split, front, others⟩ := ih
    rw [splitOnP_cons_eq_if_modifyHead, split]
    split_ifs with slash
    · refine ⟨[], first :: rest, rfl, List.nil_prefix, forall_mem_cons.mpr ⟨?_, ?_⟩⟩
      · exact front.isInfix.trans (infix_cons infix_rfl)
      · exact fun part member => (others part member).trans (infix_cons infix_rfl)
    · refine ⟨character :: first, rest, rfl, (prefix_cons_inj character).mpr front, ?_⟩
      exact fun part member => (others part member).trans (infix_cons infix_rfl)

theorem infix_of_mem_parts {part : List Char} (member : part ∈ parts path) :
    part <:+: path := by
  obtain ⟨first, rest, split, front, others⟩ := exists_splitOnP path
  have piece := mem_of_mem_filter member
  rw [split] at piece
  rcases mem_cons.mp piece with rfl | later
  · exact front.isInfix
  · exact others part later

theorem isAbsolute_of_not_mem (single : '/' ∉ path) : isAbsolute path = false := by
  apply decide_eq_false
  exact fun first => single (mem_of_head? first)

theorem splitOnP_of_not_mem (single : '/' ∉ name) :
    name.splitOnP (· == '/') = [name] := by
  apply splitOnP_eq_singleton
  intro character member
  exact beq_eq_false_iff_ne.mpr fun slash => single (slash ▸ member)

theorem parts_eq_singleton (single : '/' ∉ name) (named : name ≠ []) (other : name ≠ ['.']) :
    parts name = [name] := by
  rw [parts, splitOnP_of_not_mem single]
  exact filter_cons_of_pos (decide_eq_true ⟨named, other⟩)

theorem exists_last_slash (path : Path) :
    '/' ∉ path ∨ ∃ front last, path = front ++ '/' :: last ∧ '/' ∉ last := by
  induction path using List.reverseRecOn with
  | nil => exact .inl not_mem_nil
  | append_singleton path character ih =>
    by_cases slash : character = '/'
    · exact .inr ⟨path, [], slash ▸ rfl, not_mem_nil⟩
    · rcases ih with single | ⟨front, last, rfl, single⟩
      · exact .inl (by simp [single, Ne.symm slash])
      · exact .inr ⟨front, last ++ [character], by simp, by simp [single, Ne.symm slash]⟩

/-- An ending without slashes that ends in no dot makes the last part longer. -/
theorem parts_append (single : '/' ∉ ending) (ends : ending.getLast? = some last)
    (noDot : last ≠ '.') (plain : ¬ ['.', '.'] <:+: path) :
    parts (path ++ ending) ≠ [] ∧ ['.', '.'] ∉ parts (path ++ ending) := by
  obtain ⟨body, rfl⟩ := getLast?_eq_some_iff.mp ends
  have other (text : Path) : text ++ (body ++ [last]) ≠ [] ∧
      text ++ (body ++ [last]) ≠ ['.'] ∧ text ++ (body ++ [last]) ≠ ['.', '.'] := by
    have differs {dots : Path} (dotted : dots.getLast? = some '.') :
        text ++ (body ++ [last]) ≠ dots := by
      rintro rfl
      rw [← append_assoc, getLast?_concat] at dotted
      exact noDot (some.inj dotted)
    exact ⟨by simp, differs rfl, differs rfl⟩
  have alone (text : Path) (slash : '/' ∉ text) :
      parts (text ++ (body ++ [last])) = [text ++ (body ++ [last])] :=
    parts_eq_singleton (by simp [slash, single]) (other text).1 (other text).2.1
  rcases exists_last_slash path with slash | ⟨front, text, rfl, slash⟩
  · rw [alone path slash, mem_singleton]
    exact ⟨cons_ne_nil _ _, (other path).2.2.symm⟩
  · rw [append_assoc, cons_append, parts_append_slash, alone text slash]
    refine ⟨by simp, fun member => ?_⟩
    rcases mem_append.mp member with before | final
    · exact plain ((infix_of_mem_parts before).trans (prefix_append _ _).isInfix)
    · exact (other text).2.2 (mem_singleton.mp final).symm

theorem walk_names (plain : ['.', '.'] ∉ names) (location : Location) :
    walk location (names.map ofPart) = { location with names := location.names ++ names } := by
  induction names generalizing location with
  | nil => rw [append_nil]; rfl
  | cons name rest ih =>
    rw [mem_cons, not_or] at plain
    obtain ⟨other, later⟩ := plain
    have normal : ofPart name = .normal name := if_neg (Ne.symm other)
    change walk (location.step (ofPart name)) (rest.map ofPart) = _
    rw [normal, ih later, Location.step, append_assoc]
    rfl

/-- The last component, if it is a name. -/
def fileName (path : Path) : Option (List Char) :=
  match (components path).getLast? with
  | some (.normal name) => some name
  | _ => none

/-- A name without its extension. A dot in front starts no extension. -/
def stem (name : List Char) : List Char :=
  match name.reverse.dropWhile (· ≠ '.') with
  | [] => name
  | [_] => name
  | _ :: before => before.reverse

/-- Replace or add the extension of the last name; what follows the name is dropped. -/
def withExtension (path extension : Path) : Path :=
  match fileName path with
  | none => path
  | some name =>
    let pieces := (path.splitOnP (· == '/')).reverse.dropWhile fun piece =>
      piece = [] ∨ piece = ['.']
    ['/'].intercalate (pieces.tail.reverse ++ [stem name ++ '.' :: extension])

/-- A path that ends like the path of a directory. -/
def endsAsDirectory (path : Path) : Bool :=
  (path.splitOnP (· == '/')).getLast?.any fun piece =>
    piece = [] ∨ piece = ['.'] ∨ piece = ['.', '.']

/-- The names that lead to a place from the root, for a working directory. -/
def resolve (cwd : List (List Char)) (location : Location) : List (List Char) :=
  if location.absolute then location.names
  else cwd.take (cwd.length - location.ups) ++ location.names

/-- What can be the name of a file. -/
structure IsName (name : List Char) : Prop where
  single : '/' ∉ name
  named : name ≠ []
  noDot : name ≠ ['.']
  noDots : name ≠ ['.', '.']

instance (name : List Char) : Decidable (IsName name) :=
  decidable_of_iff ('/' ∉ name ∧ name ≠ [] ∧ name ≠ ['.'] ∧ name ≠ ['.', '.'])
    ⟨fun ⟨single, named, noDot, noDots⟩ => ⟨single, named, noDot, noDots⟩,
      fun isName => ⟨isName.single, isName.named, isName.noDot, isName.noDots⟩⟩

theorem resolve_append (cwd names : List (List Char)) (location : Location) :
    resolve cwd { location with names := location.names ++ names } =
      resolve cwd location ++ names := by
  unfold resolve
  split_ifs
  · rfl
  · exact (append_assoc _ _ _).symm

theorem subset_of_stem (name : List Char) : stem name ⊆ name := by
  have piece : name.reverse.dropWhile (· ≠ '.') ⊆ name := fun character member =>
    mem_reverse.mp ((dropWhile_suffix _).subset member)
  unfold stem
  split
  · exact Subset.refl _
  · exact Subset.refl _
  · next dropped =>
    rw [dropped] at piece
    exact fun character member =>
      piece (mem_cons_of_mem _ (mem_reverse.mp member))

variable {extension : Path} {other : Path}

namespace IsName

theorem of_append {front ending : List Char} (before : '/' ∉ front) (single : '/' ∉ ending)
    (ends : ending.getLast? = some last) (noDot : last ≠ '.') :
    IsName (front ++ ending) := by
  obtain ⟨body, rfl⟩ := getLast?_eq_some_iff.mp ends
  have final (text : List Char) (same : front ++ (body ++ [last]) = text) :
      text.getLast? = some last := by
    rw [← same, ← append_assoc, getLast?_concat]
  refine ⟨?_, fun same => ?_, fun same => ?_, fun same => ?_⟩
  · rw [mem_append, not_or]
    exact ⟨before, single⟩
  · cases final _ same
  · exact noDot (some.inj (final _ same)).symm
  · exact noDot (some.inj (final _ same)).symm

theorem stem_append {extension : List Char} (isName : IsName name) (single : '/' ∉ extension)
    (ends : ('.' :: extension).getLast? = some last) (noDot : last ≠ '.') :
    IsName (stem name ++ '.' :: extension) := by
  refine of_append (fun slash => isName.single (subset_of_stem name slash)) ?_ ends noDot
  rw [mem_cons, not_or]
  exact ⟨by decide, single⟩

variable {name : List Char} (isName : IsName name)
include isName

theorem splitOnP_eq : name.splitOnP (· == '/') = [name] := by
  apply splitOnP_eq_singleton
  intro character member
  exact beq_eq_false_iff_ne.mpr fun slash => isName.single (slash ▸ member)

theorem parts_eq : parts name = [name] :=
  parts_eq_singleton isName.single isName.named isName.noDot

theorem ofPart_eq : ofPart name = .normal name := if_neg isName.noDots

variable (front : Path)

theorem splitOnP_append :
    (front ++ '/' :: name).splitOnP (· == '/') = front.splitOnP (· == '/') ++ [name] := by
  rw [splitOnP_append_cons (p := (· == '/')) front name rfl, isName.splitOnP_eq]

theorem endsAsDirectory_append : endsAsDirectory (front ++ '/' :: name) = false := by
  unfold endsAsDirectory
  rw [isName.splitOnP_append, getLast?_concat]
  simp [isName.named, isName.noDot, isName.noDots]

theorem fileName_append : fileName (front ++ '/' :: name) = some name := by
  unfold fileName components
  rw [parts_append_slash, isName.parts_eq, map_append, map_singleton,
    isName.ofPart_eq, ← append_assoc, getLast?_concat]

theorem withExtension_append (new : IsName (stem name ++ '.' :: extension)) :
    withExtension (front ++ '/' :: name) extension =
      front ++ '/' :: (stem name ++ '.' :: extension) := by
  have kept : (fun piece : List Char => decide (piece = [] ∨ piece = ['.'])) name ≠ true := by
    simp [isName.named, isName.noDot]
  unfold withExtension
  simp only [isName.fileName_append front]
  rw [isName.splitOnP_append, reverse_append, reverse_singleton, singleton_append,
    dropWhile_cons_of_neg (p := fun piece => decide (piece = [] ∨ piece = ['.'])) kept,
    tail_cons, reverse_reverse, ← new.splitOnP_append]
  exact intercalate_splitOn '/'

end IsName

/-- A relative path is written as names with single slashes between them. -/
structure Spells (path : Path) (names : List (List Char)) : Prop where
  pieces : path.splitOnP (· == '/') = names
  all : ∀ name ∈ names, IsName name

/-- A path to which others are appended behind a slash. -/
def Open (base : Path) : Prop := base ≠ [] ∧ base.getLast? ≠ some '/'

theorem IsName.spells (isName : IsName name) : Spells name [name] :=
  ⟨isName.splitOnP_eq, forall_mem_singleton.mpr isName⟩

theorem open_join_name (base : Path) (isName : IsName name) :
    Open (join base name) := by
  have last : name.getLast? ≠ some '/' := fun slash => isName.single (mem_of_getLast? slash)
  unfold Open join
  rw [if_neg (by simp [isAbsolute_of_not_mem isName.single])]
  split_ifs
  · refine ⟨append_ne_nil_of_right_ne_nil _ isName.named, ?_⟩
    rwa [getLast?_append_of_ne_nil _ isName.named]
  · refine ⟨append_ne_nil_of_right_ne_nil _ (cons_ne_nil _ _), ?_⟩
    rwa [getLast?_append_of_ne_nil _ (cons_ne_nil _ _), getLast?_cons_of_ne_nil isName.named]

namespace Spells

variable {path : Path} {names : List (List Char)} (spells : Spells path names)
include spells

theorem eq_intercalate : path = ['/'].intercalate names := by
  rw [← spells.pieces]
  exact (intercalate_splitOn '/').symm

theorem parts_eq : parts path = names := by
  unfold parts
  rw [spells.pieces, filter_eq_self]
  exact fun name member => decide_eq_true ⟨(spells.all name member).named,
    (spells.all name member).noDot⟩

theorem relative : isAbsolute path = false := by
  cases path with
  | nil => rfl
  | cons first rest =>
    apply decide_eq_false
    intro slash
    obtain rfl := some.inj slash
    have empty : [] ∈ names := by
      rw [← spells.pieces, splitOnP_cons_eq_if_modifyHead]
      exact mem_cons_self
    exact (spells.all [] empty).named rfl

theorem no_dots : ['.', '.'] ∉ parts path := by
  rw [spells.parts_eq]
  exact fun member => (spells.all _ member).noDots rfl

theorem cases_last : ∃ dirs last, names = dirs ++ [last] ∧ IsName last ∧
    (path = last ∧ dirs = [] ∨ ∃ front, path = front ++ '/' :: last ∧ Spells front dirs) := by
  rcases exists_last_slash path with single | ⟨front, last, rfl, single⟩
  · obtain rfl : names = [path] := by rw [← spells.pieces, splitOnP_of_not_mem single]
    exact ⟨[], path, rfl, spells.all path mem_cons_self, .inl ⟨rfl, rfl⟩⟩
  · have split : names = front.splitOnP (· == '/') ++ [last] := by
      rw [← spells.pieces, splitOnP_append_cons (p := (· == '/')) front last rfl,
        splitOnP_of_not_mem single]
    subst split
    refine ⟨_, last, rfl, spells.all last (by simp), .inr ⟨front, rfl, rfl, ?_⟩⟩
    exact fun name member => spells.all name (mem_append_left _ member)

theorem join_eq (isOpen : Open base) : join base path = base ++ '/' :: path := by
  unfold join
  rw [if_neg (by simp [spells.relative]), if_neg]
  exact fun ends => ends.elim isOpen.1 isOpen.2

theorem append_slash (isName : IsName name) :
    Spells (path ++ '/' :: name) (names ++ [name]) :=
  ⟨by rw [isName.splitOnP_append, spells.pieces],
    forall_mem_append.mpr ⟨spells.all, forall_mem_singleton.mpr isName⟩⟩

theorem locate_join (base : Path) : locate (components (join base path)) =
    { locate (components base) with names := (locate (components base)).names ++ names } := by
  rw [LexicalPath.locate_join spells.relative, walk_names spells.no_dots, spells.parts_eq]

theorem endsAsDirectory_join (isOpen : Open base) :
    endsAsDirectory (join base path) = false := by
  rw [spells.join_eq isOpen]
  obtain ⟨dirs, last, -, isName, ⟨rfl, -⟩ | ⟨front, rfl, -⟩⟩ := spells.cases_last
  · exact isName.endsAsDirectory_append base
  · rw [← cons_append, ← append_assoc]
    exact isName.endsAsDirectory_append _

end Spells

theorem Spells.prefix_of_append {rest : List (List Char)} (spells : Spells path names)
    (longer : Spells other (names ++ rest)) (more : rest ≠ []) :
    path ++ ['/'] <+: other := by
  have single (name : List Char) (member : name ∈ rest) : '/' ∉ name :=
    (longer.all name (mem_append_right _ member)).single
  have split : (path ++ '/' :: ['/'].intercalate rest).splitOn '/' = names ++ rest := by
    have pieces : path.splitOn '/' = names := spells.pieces
    rw [List.splitOn, splitOnP_append_cons (p := (· == '/')) _ _ rfl]
    exact congrArg₂ (· ++ ·) pieces (splitOn_intercalate '/' single more)
  have whole : other = path ++ '/' :: ['/'].intercalate rest := by
    rw [longer.eq_intercalate, ← split]
    exact intercalate_splitOn '/'
  exact ⟨['/'].intercalate rest, by rw [whole, append_assoc]; rfl⟩

theorem spells_intercalate (named : names ≠ []) (all : ∀ name ∈ names, IsName name) :
    Spells (['/'].intercalate names) names :=
  ⟨splitOn_intercalate '/' (fun name member => (all name member).single) named, all⟩

theorem Spells.append_of_prefix {longer : List (List Char)} (spells : Spells path names)
    (spelled : Spells other longer) (continues : path ++ ['/'] <+: other) :
    names <+: longer ∧ names ≠ longer := by
  obtain ⟨more, rfl⟩ := continues
  have split : longer = names ++ more.splitOnP (· == '/') := by
    rw [← spelled.pieces, append_assoc, singleton_append,
      splitOnP_append_cons (p := (· == '/')) path more rfl, spells.pieces]
  refine ⟨⟨_, split.symm⟩, fun same => ?_⟩
  rw [← same] at split
  exact splitOnP_ne_nil (· == '/') more (append_right_eq_self.mp split.symm)

variable {path : Path} {dirs : List (List Char)} {last : List Char}
  (spells : Spells path (dirs ++ [last]))
include spells

theorem Spells.of_concat : IsName last ∧
    (path = last ∧ dirs = [] ∨ ∃ front, path = front ++ '/' :: last ∧ Spells front dirs) := by
  obtain ⟨others, final, same, isName, rest⟩ := spells.cases_last
  obtain ⟨sameDirs, sameLast⟩ := append_inj' same rfl
  rw [sameDirs, singleton_inj.mp sameLast]
  exact ⟨isName, rest⟩

theorem Spells.append_ending (isName : IsName (last ++ ending)) :
    Spells (path ++ ending) (dirs ++ [last ++ ending]) := by
  obtain ⟨-, ⟨rfl, rfl⟩ | ⟨front, rfl, before⟩⟩ := spells.of_concat
  · exact isName.spells
  · rw [append_assoc, cons_append]
    exact before.append_slash isName

theorem Spells.withExtension_join (new : IsName (stem last ++ '.' :: extension))
    (isOpen : Open base) :
    ∃ other, withExtension (join base path) extension = join base other ∧
      Spells other (dirs ++ [stem last ++ '.' :: extension]) := by
  rw [spells.join_eq isOpen]
  obtain ⟨isName, ⟨rfl, rfl⟩ | ⟨front, rfl, before⟩⟩ := spells.of_concat
  · refine ⟨_, ?_, new.spells⟩
    rw [isName.withExtension_append base new, new.spells.join_eq isOpen]
  · have spelled := before.append_slash new
    refine ⟨_, ?_, spelled⟩
    rw [spelled.join_eq isOpen, ← cons_append, ← append_assoc,
      isName.withExtension_append _ new, append_assoc, cons_append]

end LexicalPath
